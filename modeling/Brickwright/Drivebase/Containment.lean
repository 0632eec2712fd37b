import Brickwright.Drivebase.Base

/-!
# Fault containment

`db_drivebase_update` as a whole: both wheels are read, both axes updated, and the motors driven,
braked, or coasted because a port is to be taken back. A request to take one back can come from
every read and every command of the tick.

* `Drivetrain.refines_update` — the tick of `Base`, with what the reads and commands of this one
  gave; `Drivetrain.refines_ticks` — the same of runs.
* `Drivetrain.contained` — a tick that leaves a request behind leaves both motors passive.
-/

namespace Brickwright.Drivebase

open List

/-- The wheels of a drivebase, and their ports. -/
structure Drivetrain where
  wheels : Side → Wheel := fun _ => {}
  motors : Motors := {}

namespace Drivetrain

structure Tick where
  nowUs : Nat
  imu : Imu := {}
  read : Side → Read
  vEstimateMdegps : Side → Int := fun _ => 0
  vbatMv : Int := 7200
  answers : Answers

def setWheel (d : Drivetrain) (side : Side) (w : Wheel) (m : Motors) : Drivetrain where
  wheels := Function.update d.wheels side w
  motors := m

/-- `db_servo_update` of one wheel. -/
def updateWheel (invertLeft : Bool) (d : Drivetrain) (t : Tick) (side : Side) : Drivetrain × Int :=
  let (w, m, rc) := (d.wheels side).update invertLeft side d.motors t.nowUs (t.read side)
    (t.vEstimateMdegps side)
  (d.setWheel side w m, rc)

/-- `db_servo_apply` of one wheel. -/
def applyWheel (invertLeft : Bool) (answers : Answers) (d : Drivetrain) (side : Side) (duty : Int)
    (actuation : OnCompletion) : Drivetrain :=
  let (w, m) := (d.wheels side).apply invertLeft answers side d.motors duty actuation
  d.setWheel side w m

/-- `db_servo_apply` of both. -/
def applyBoth (invertLeft : Bool) (answers : Answers) (d : Drivetrain) (leftDuty rightDuty : Int)
    (actuation : OnCompletion) : Drivetrain :=
  (d.applyWheel invertLeft answers .left leftDuty actuation).applyWheel invertLeft answers .right
    rightDuty actuation

def duties (cfg : Settings) (db : Base) (outD outH : AggregateOutput) (vbatMv : Int) :
    Base × Int × Int :=
  let trajDone := outD.trajectoryDone && outH.trajectoryDone
  let (ffLeft, leftDuty) := Base.wheelDuty cfg db.ffStateLeft (outD.refVMdegps - outH.refVMdegps)
    (outD.duty - outH.duty) (outD.posErrMdeg - outH.posErrMdeg) vbatMv trajDone
  let (ffRight, rightDuty) := Base.wheelDuty cfg db.ffStateRight (outD.refVMdegps + outH.refVMdegps)
    (outD.duty + outH.duty) (outD.posErrMdeg + outH.posErrMdeg) vbatMv trajDone
  ({ db with ffStateLeft := ffLeft, ffStateRight := ffRight }, leftDuty, rightDuty)

/-- The driving part of `db_drivebase_update`. -/
def actuate (cfg : Settings) (invertLeft : Bool) (db : Base) (d : Drivetrain) (t : Tick)
    (state : AggState) (outD outH : AggregateOutput) : Base × Drivetrain :=
  let propagated := Base.propagate outD outH
  if d.motors.reclaimPending then (db, d.applyBoth invertLeft t.answers 0 0 .coast)
  else if propagated ≠ 0 then
    ({ db with
        distance := db.distance.stop t.nowUs state.distanceXMdeg propagated
        heading := db.heading.stop t.nowUs state.headingXMdeg propagated },
      d.applyBoth invertLeft t.answers 0 0 propagated)
  else
    let (db, leftDuty, rightDuty) := duties cfg db outD outH t.vbatMv
    let d := d.applyBoth invertLeft t.answers leftDuty rightDuty .hold
    (db, if d.motors.reclaimPending then d.applyBoth invertLeft t.answers 0 0 .coast else d)

/-- `db_drivebase_update`. -/
def update (cfg : Settings) (invertLeft : Bool) (db : Base) (d : Drivetrain) (t : Tick) :
    Base × Drivetrain × Int :=
  let d := { d with motors := { d.motors with issued := [] } }
  let (d, rc) := d.updateWheel invertLeft t .left
  if rc < 0 then (db, d, rc)
  else
    let (d, rc) := d.updateWheel invertLeft t .right
    if rc < 0 then (db, d, rc)
    else
      let db := { db with
        servoL := (d.wheels .left).getStatus
        servoR := (d.wheels .right).getStatus }
      let state := db.aggState t.imu
      let (distance, outD) :=
        db.distance.update cfg t.nowUs state.distanceXMdeg state.distanceVMdegps db.tickMs
      let (heading, outH) :=
        db.heading.update cfg t.nowUs state.headingXMdeg state.headingVMdegps db.tickMs
      let (db, d) := actuate cfg invertLeft { db with distance := distance, heading := heading } d t
        state outD outH
      (db.finish outD outH, d, 0)

/-! ## What a tick issues -/

def command (invertLeft : Bool) (a : Side × Action) : Side × Command :=
  (a.1, a.2.command (Motors.sideSign invertLeft a.1))

def last (side : Side) (issued : List (Side × Command)) : Option Command :=
  ((issued.filter fun c => c.1 == side).getLast?).map Prod.snd

/-- Both motors were last told to coast or to brake, and no duty is on record. -/
def Contained (d : Drivetrain) : Prop :=
  ∀ side, (∃ c, last side d.motors.issued = some c ∧ c.passive = true) ∧
    (d.wheels side).lastAppliedDuty = 0

section Applied

variable {invertLeft : Bool} {answers : Answers} {d : Drivetrain} {leftDuty rightDuty : Int}
  {actuation : OnCompletion}

theorem applyBoth_spec (h : d.motors.initialised = true) :
    (d.applyBoth invertLeft answers leftDuty rightDuty actuation).motors.initialised = true ∧
      (d.applyBoth invertLeft answers leftDuty rightDuty actuation).motors.issued =
        d.motors.issued ++ [(.left, servoApply leftDuty actuation),
          (.right, servoApply rightDuty actuation)].map (command invertLeft) := by
  have hleft := (@Wheel.apply_spec invertLeft answers .left (d.wheels .left) _ leftDuty actuation) h
  have hright := (@Wheel.apply_spec invertLeft answers .right
      ((d.applyWheel invertLeft answers .left leftDuty actuation).wheels .right) _ rightDuty
      actuation) hleft.1
  refine ⟨hright.1, hright.2.trans ?_⟩
  rw [hleft.2, append_assoc]
  rfl

theorem last_append (side : Side) (issued : List (Side × Command)) (left right : Command) :
    last side (issued ++ [(.left, left), (.right, right)]) =
      some (if side = .left then left else right) := by
  cases side <;> simp [last, filter_append]

theorem applyBoth_passive (h : d.motors.initialised = true)
    (hpassive : actuation.Coasts ∨ actuation.Brakes) :
    Contained (d.applyBoth invertLeft answers leftDuty rightDuty actuation) := by
  intro side
  have hfirst := ((@Wheel.apply_spec invertLeft answers .left (d.wheels .left) _ leftDuty actuation)
      h).1
  constructor
  · rw [(applyBoth_spec h).2, map_cons, map_cons, map_nil, command, command,
      last_append]
    refine ⟨_, rfl, ?_⟩
    split
    · exact ((@Wheel.apply_passive _ answers _ {}) h hpassive).1
    · exact ((@Wheel.apply_passive _ answers _ {}) h hpassive).1
  · cases side with
    | left => exact (Wheel.apply_passive h hpassive).2
    | right => exact (Wheel.apply_passive hfirst hpassive).2

end Applied

section Ticks

variable {cfg : Settings} {invertLeft : Bool} {db : Base} {d : Drivetrain} {t : Tick}
  {state : AggState} {outD outH : AggregateOutput}

/-- Driving the motors of a drivetrain whose ports are initialised leaves them so. -/
theorem actuate_contained (h : d.motors.initialised = true)
    (hpending : (actuate cfg invertLeft db d t state outD outH).2.motors.reclaimPending = true) :
    Contained (actuate cfg invertLeft db d t state outD outH).2 := by
  unfold actuate at hpending ⊢
  split
  · exact applyBoth_passive h (.inl (.inl rfl))
  · next hfree =>
    rw [if_neg hfree] at hpending
    rcases @Base.propagate_cases outD outH with ⟨hbrake, -⟩ | ⟨hnone, -⟩
    · rw [hbrake, if_pos (by decide)]
      exact applyBoth_passive h (.inr (.inl rfl))
    · rw [hnone, if_neg (by decide)] at hpending ⊢
      dsimp only at hpending ⊢
      -- a request that the duties left is the only one there can be
      split
      · exact applyBoth_passive (applyBoth_spec h).1 (.inl (.inl rfl))
      · next hafter =>
        rw [if_neg hafter] at hpending
        exact absurd hpending hafter

theorem actuate_refines {reading : Base.Reading} (h : d.motors.initialised = true)
    (hpending : reading.reclaimPending = d.motors.reclaimPending)
    (hvbat : reading.vbatMv = t.vbatMv) (hafter : reading.reclaimAfter =
      (d.applyBoth invertLeft t.answers (duties cfg db outD outH t.vbatMv).2.1
        (duties cfg db outD outH t.vbatMv).2.2 .hold).motors.reclaimPending) :
    (actuate cfg invertLeft db d t state outD outH).1 =
        (Base.actuate cfg db t.nowUs state reading outD outH).1 ∧
      (actuate cfg invertLeft db d t state outD outH).2.motors.issued =
        d.motors.issued ++
          (Base.actuate cfg db t.nowUs state reading outD outH).2.map (command invertLeft) := by
  simp only [actuate, Base.actuate, hpending, hvbat, hafter]
  split
  · exact ⟨rfl, (applyBoth_spec h).2⟩
  · split
    · exact ⟨rfl, (applyBoth_spec h).2⟩
    · obtain ⟨hinit, hduties⟩ := (@applyBoth_spec invertLeft t.answers _
          ((duties cfg db outD outH t.vbatMv).2.1) ((duties cfg db outD outH t.vbatMv).2.2) .hold) h
      refine ⟨rfl, ?_⟩
      rw [map_append]
      split
      · rw [(applyBoth_spec hinit).2, hduties, append_assoc]
        rfl
      · rw [hduties, map_nil, append_nil]
        rfl

/-- The drivetrain behind the reads of a tick. -/
def afterReads (invertLeft : Bool) (d : Drivetrain) (t : Tick) : Drivetrain :=
  (({ d with motors := { d.motors with issued := [] } }.updateWheel
    invertLeft t .left).1.updateWheel invertLeft t .right).1

theorem afterReads_spec (h : d.motors.initialised = true) :
    (d.afterReads invertLeft t).motors.initialised = true ∧
      (d.afterReads invertLeft t).motors.issued = [] := by
  obtain ⟨⟨hinit, hissued⟩, -⟩ := (@Wheel.update_spec invertLeft .left (d.wheels .left)
      { d.motors with issued := [] }) h t.nowUs (t.read .left)
    (t.vEstimateMdegps .left)
  obtain ⟨⟨hinit', hissued'⟩, -⟩ := (@Wheel.update_spec invertLeft .right
      (({ d with motors := { d.motors with issued := [] } }.updateWheel invertLeft t .left).1.wheels
      .right)) hinit t.nowUs (t.read .right) (t.vEstimateMdegps .right)
  exact ⟨hinit', hissued'.trans hissued⟩

def found (invertLeft : Bool) (d : Drivetrain) (t : Tick) : Base.Reading where
  left := ((d.afterReads invertLeft t).wheels .left).getStatus
  right := ((d.afterReads invertLeft t).wheels .right).getStatus
  reclaimPending := (d.afterReads invertLeft t).motors.reclaimPending
  vbatMv := t.vbatMv

/-- The drivetrain after the duties of a tick, where they are issued. -/
def driven (cfg : Settings) (invertLeft : Bool) (db : Base) (d : Drivetrain) (t : Tick) :
    Drivetrain :=
  let (_, leftDuty, rightDuty) := duties cfg db
    (db.tickDistance cfg t.nowUs t.imu (d.found invertLeft t)).2
    (db.tickHeading cfg t.nowUs t.imu (d.found invertLeft t)).2 t.vbatMv
  (d.afterReads invertLeft t).applyBoth invertLeft t.answers leftDuty rightDuty .hold

/-- What the tick of the drivebase is given. -/
def reading (cfg : Settings) (invertLeft : Bool) (db : Base) (d : Drivetrain) (t : Tick) :
    Base.Reading :=
  { d.found invertLeft t with
    reclaimAfter := (d.driven cfg invertLeft db t).motors.reclaimPending }

/-- The drivebase when its motors are to be driven. -/
def updated (cfg : Settings) (invertLeft : Bool) (db : Base) (d : Drivetrain) (t : Tick) : Base :=
  { db with
    servoL := ((d.afterReads invertLeft t).wheels .left).getStatus
    servoR := ((d.afterReads invertLeft t).wheels .right).getStatus
    distance := (db.tickDistance cfg t.nowUs t.imu (d.found invertLeft t)).1
    heading := (db.tickHeading cfg t.nowUs t.imu (d.found invertLeft t)).1 }

theorem update_of_initialised (h : d.motors.initialised = true) :
    update cfg invertLeft db d t =
      let outD := (db.tickDistance cfg t.nowUs t.imu (d.found invertLeft t)).2
      let outH := (db.tickHeading cfg t.nowUs t.imu (d.found invertLeft t)).2
      let (db', d') := actuate cfg invertLeft (updated cfg invertLeft db d t)
        (d.afterReads invertLeft t) t (db.tickState t.imu (d.found invertLeft t)) outD outH
      (db'.finish outD outH, d', 0) := by
  obtain ⟨⟨hinit, -⟩, hleft⟩ := (@Wheel.update_spec invertLeft .left (d.wheels .left)
      { d.motors with issued := [] }) h t.nowUs (t.read .left)
    (t.vEstimateMdegps .left)
  obtain ⟨-, hright⟩ := (@Wheel.update_spec invertLeft .right
      (({ d with motors := { d.motors with issued := [] } }.updateWheel invertLeft t .left).1.wheels
      .right)) hinit t.nowUs (t.read .right) (t.vEstimateMdegps .right)
  have hrcl : ({ d with motors := { d.motors with issued := [] } }.updateWheel invertLeft t
    .left).2 = 0 := hleft
  have hrcr : (({ d with motors := { d.motors with issued := [] } }.updateWheel invertLeft t
    .left).1.updateWheel invertLeft t .right).2 = 0 := hright
  simp only [update, hrcl, hrcr, Int.lt_irrefl, if_false]
  rfl

/-- **A tick of the drivetrain is one of the drivebase**, with what its reads and duties gave; its
commands are the actions. -/
theorem refines_update (h : d.motors.initialised = true) :
    (update cfg invertLeft db d t).1 =
        (db.update cfg t.nowUs t.imu (d.reading cfg invertLeft db t)).1 ∧
      (update cfg invertLeft db d t).2.1.motors.issued =
        (db.update cfg t.nowUs t.imu (d.reading cfg invertLeft db t)).2.map
          (command invertLeft) := by
  obtain ⟨hinit, hissued⟩ := (@afterReads_spec invertLeft _ t) h
  obtain ⟨hbase, hcommands⟩ := (@actuate_refines cfg _ (updated cfg invertLeft db d t) _ t
      (db.tickState t.imu (d.found invertLeft t))
      ((db.tickDistance cfg t.nowUs t.imu (d.found invertLeft t)).2)
      ((db.tickHeading cfg t.nowUs t.imu (d.found invertLeft t)).2) (d.reading cfg invertLeft db t))
      hinit rfl rfl rfl
  have hupdate : db.update cfg t.nowUs t.imu (d.reading cfg invertLeft db t) =
      let outD := (db.tickDistance cfg t.nowUs t.imu (d.found invertLeft t)).2
      let outH := (db.tickHeading cfg t.nowUs t.imu (d.found invertLeft t)).2
      let r := Base.actuate cfg (updated cfg invertLeft db d t) t.nowUs
        (db.tickState t.imu (d.found invertLeft t)) (d.reading cfg invertLeft db t) outD outH
      (r.1.finish outD outH, r.2) := by
    simp only [Base.update]
    rfl
  rw [update_of_initialised h, hupdate]
  constructor
  · simp only [hbase]
  · simp only [hcommands, hissued, nil_append]

theorem actuate_initialised (h : d.motors.initialised = true) :
    (actuate cfg invertLeft db d t state outD outH).2.motors.initialised = true := by
  unfold actuate
  simp only
  split
  · exact (applyBoth_spec h).1
  split
  · exact (applyBoth_spec h).1
  split
  · exact (applyBoth_spec (applyBoth_spec h).1).1
  · exact (applyBoth_spec h).1

/-- The ticks of a drivetrain, and what each of them commands. -/
def ticking (cfg : Settings) (invertLeft : Bool) :
    Machine (Base × Drivetrain) Tick (List (Side × Command)) where
  step s t :=
    let r := update cfg invertLeft s.1 s.2 t
    ((r.1, r.2.1), r.2.1.motors.issued)

/-- **Ticks of the drivetrain are calls of the drivebase.** Whatever the ports read and answer, if
the clock does not go back: a run of the one is a run of the other on what its reads and duties
gave, tick by tick with the actions as its commands. -/
theorem refines_ticks (h : d.motors.initialised = true) {nowUs : Nat} (ticks : List Tick)
    (hclock : (nowUs :: ticks.map Tick.nowUs).IsChain (· ≤ ·)) :
    ∃ events : List Event, (∀ e ∈ events, ∃ reading, e.op = .update reading) ∧
      ((machine cfg).run ⟨db, nowUs⟩ events).db = ((ticking cfg invertLeft).run (db, d) ticks).1 ∧
      ((ticking cfg invertLeft).trace (db, d) ticks).map Prod.snd =
        ((machine cfg).trace ⟨db, nowUs⟩ events).map fun e => e.2.map (command invertLeft) := by
  induction ticks generalizing db d nowUs with
  | nil => exact ⟨[], nofun, rfl, rfl⟩
  | cons t rest ih =>
    obtain ⟨hle, hrest⟩ := isChain_cons_cons.mp hclock
    obtain ⟨hbase, hissued⟩ := @refines_update cfg invertLeft db d t h
    have hinit : (update cfg invertLeft db d t).2.1.motors.initialised = true := by
      rw [update_of_initialised h]
      exact actuate_initialised (afterReads_spec h).1
    obtain ⟨events, hops, hrun, htrace⟩ := @ih (update cfg invertLeft db d t).1 _ hinit _ hrest
    let e : Event :=
      { elapsedUs := t.nowUs - nowUs, imu := t.imu, op := .update (d.reading cfg invertLeft db t) }
    have hstep : (machine cfg).step ⟨db, nowUs⟩ e = (⟨(update cfg invertLeft db d t).1, t.nowUs⟩,
        (db.update cfg t.nowUs t.imu (d.reading cfg invertLeft db t)).2) := by
      rw [step_machine, hbase, Nat.add_sub_cancel' hle]
      rfl
    have hticking : (ticking cfg invertLeft).step (db, d) t =
        (((update cfg invertLeft db d t).1, (update cfg invertLeft db d t).2.1),
          (update cfg invertLeft db d t).2.1.motors.issued) := rfl
    refine ⟨e :: events, ?_, ?_, ?_⟩
    · exact forall_mem_cons.mpr ⟨⟨_, rfl⟩, hops⟩
    · rw [Machine.run_cons, Machine.run_cons, hstep, hticking]
      exact hrun
    · rw [Machine.trace_cons, Machine.trace_cons, hstep, hticking, map_cons, map_cons,
        htrace, hissued]

/-- **Fault containment.** -/
theorem contained (h0 : (update cfg invertLeft db d t).2.2 = 0)
    (hpending : (update cfg invertLeft db d t).2.1.motors.reclaimPending = true) :
    Contained (update cfg invertLeft db d t).2.1 := by
  cases hinit : d.motors.initialised with
  | false =>
    have hrc : (update cfg invertLeft db d t).2.2 = -Motors.ENODEV := by
      simp only [update, updateWheel, Wheel.update, hinit, Bool.not_false, if_true]
      rfl
    rw [hrc] at h0
    cases h0
  | true =>
    rw [update_of_initialised hinit] at hpending ⊢
    exact actuate_contained (afterReads_spec hinit).1 hpending

/-- A tick in which the right port refuses its duty. -/
def refused : Tick where
  nowUs := 2000
  read _ := .batch []
  answers _ side c := if side = .right ∧ c.passive = false then (-1, Motors.ENODEV) else (0, 0)

theorem refines_ticks_refused :
    ∃ events : List Event, (∀ e ∈ events, ∃ reading, e.op = .update reading) ∧
      ((machine .defaults).run .booted events).db =
        ((ticking .defaults true).run (State.booted.db, {}) [refused]).1 ∧
      ((ticking .defaults true).trace (State.booted.db, {}) [refused]).map Prod.snd =
        ((machine .defaults).trace .booted events).map fun e => e.2.map (command true) :=
  refines_ticks rfl [refused] (by decide)

theorem contained_refused : Contained (update .defaults true State.booted.db {} refused).2.1 :=
  contained (by decide +kernel) (by decide +kernel)

end Ticks

end Drivetrain

end Brickwright.Drivebase
