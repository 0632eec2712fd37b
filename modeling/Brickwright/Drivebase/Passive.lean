import Brickwright.Drivebase.Base

/-!
# When the motors stay passive

After a passive stop, or after a move that ended passively, both axes are at rest, and a tick drives
the motors with what their controllers repeat. What is repeated reaches the motors only if it is
BRAKE: COAST is 0, which to `db_drivebase_update` means that there is nothing to pass on, and a tick
then gives the motors a duty.

`update_of_resting` says what an axis at rest does in a tick, `rested_step` what a call makes of two
such axes, and the run theorem puts the calls of any run together.
-/

namespace Brickwright.Drivebase

open List

/-- Both wheels are left to coast, or both are braked. -/
def OnlyPassive (actions : List (Side × Action)) : Prop :=
  actions = applyBoth 0 .coast ∨ actions = applyBoth 0 .brake

instance (actions : List (Side × Action)) : Decidable (OnlyPassive actions) :=
  inferInstanceAs (Decidable (_ ∨ _))

/-! ## One axis at rest -/

namespace Aggregate

variable {ctl : Aggregate}

/-- The axis follows no trajectory, and what it may have latched is passive. -/
structure Resting (ctl : Aggregate) : Prop where
  inactive : ctl.trajectoryActive = false
  latched : ctl.pid.latchedPassiveDone = true →
    ctl.pid.latchedActuation = .coast ∨ ctl.pid.latchedActuation = .brake

def Braked (ctl : Aggregate) : Prop :=
  ctl.pid.latchedPassiveDone = true ∧ ctl.pid.latchedActuation = .brake

theorem Resting.resetPause (h : ctl.Resting) : ctl.resetPause.Resting := ⟨h.inactive, h.latched⟩

theorem resting_reset (ctl : Aggregate) : ctl.reset.Resting := ⟨rfl, fun h => nomatch h⟩

theorem not_braked_reset (ctl : Aggregate) : ¬ctl.reset.Braked := fun h => nomatch h.1

theorem resting_stopPassive {oc actuation : OnCompletion}
    (h : actuation = .coast ∨ actuation = .brake) : (ctl.stopPassive oc actuation).Resting :=
  ⟨rfl, fun _ => h⟩

theorem resting_stop {oc : OnCompletion} (hoc : oc.Coasts ∨ oc.Brakes) (nowUs : Nat) (xMdeg : Int) :
    (ctl.stop nowUs xMdeg oc).Resting ∧ ((ctl.stop nowUs xMdeg oc).Braked ↔ oc.Brakes) := by
  rcases hoc with hcoasts | hbrakes
  · rw [stop_of_coasts hcoasts]
    refine ⟨resting_stopPassive (.inl rfl), fun h => ?_, fun h => absurd hcoasts h.not_coasts⟩
    exact absurd h.2 OnCompletion.coast_ne_brake
  · rw [stop_of_brakes hbrakes]
    exact ⟨resting_stopPassive (.inr rfl), fun _ => hbrakes, fun _ => ⟨rfl, rfl⟩⟩

theorem update_of_resting {cfg : Settings} {nowUs : Nat} {xMdeg vMdegps : Int} {dtMs : Nat}
    (h : ctl.Resting) :
    (ctl.update cfg nowUs xMdeg vMdegps dtMs).1 = ctl.resetPause ∧
      ((ctl.Braked ∧ (ctl.update cfg nowUs xMdeg vMdegps dtMs).2.actuation = .brake) ∨
        (¬ctl.Braked ∧ (ctl.update cfg nowUs xMdeg vMdegps dtMs).2.actuation = .coast)) := by
  cases hlatched : ctl.pid.latchedPassiveDone with
  | false =>
    rw [update_idle h.inactive hlatched]
    refine ⟨rfl, .inr ⟨fun hbraked => ?_, rfl⟩⟩
    rw [hbraked.1] at hlatched
    cases hlatched
  | true =>
    obtain ⟨-, hactuation, -⟩ :=
      (@update_latched _ nowUs cfg xMdeg vMdegps dtMs) hlatched
    constructor
    · simp [update, resetPause, h.inactive, hlatched, Pid.update_of_latched]
    · rw [hactuation]
      rcases h.latched hlatched with hcoast | hbrake
      · refine .inr ⟨fun hbraked => ?_, hcoast⟩
        exact absurd (hcoast.symm.trans hbraked.2) OnCompletion.coast_ne_brake
      · exact .inl ⟨⟨hlatched, hbrake⟩, hbrake⟩

end Aggregate

/-! ## Calls that leave the motors alone -/

def Op.LeavesAlone : Op → Prop
  | .reset .. | .setOrigin _ | .setUseGyro _ | .update _ => True
  | .stop oc => oc.Coasts ∨ oc.Brakes
  | _ => False

/-- Whether both axes have latched BRAKE, after a call that leaves the motors alone. -/
def Op.braked (db : Base) (before : Bool) : Op → Bool
  | .reset .. => false
  | .setUseGyro mode => before && !db.switchesGyro mode
  | .stop oc => decide oc.Brakes
  | _ => before

namespace Base

variable {cfg : Settings} {db : Base} {nowUs : Nat} {imu : Imu} {braked : Bool}

/-- Both axes are at rest, and `braked` tells whether both have latched BRAKE. -/
structure Rested (db : Base) (braked : Bool) : Prop where
  distance : db.distance.Resting
  heading : db.heading.Resting
  braked_iff : braked = true ↔ db.distance.Braked ∧ db.heading.Braked

theorem rested_reset (db : Base) (imu : Imu) (xL xR : Int) : (db.reset imu xL xR).Rested false where
  distance := Aggregate.resting_reset _
  heading := Aggregate.resting_reset _
  braked_iff := ⟨by rintro ⟨⟩, fun h => absurd h.1 (Aggregate.not_braked_reset _)⟩

theorem rested_stop {oc : OnCompletion} (hoc : oc.Coasts ∨ oc.Brakes) :
    (db.stop nowUs imu oc).1.Rested (decide oc.Brakes) := by
  obtain ⟨hdistance, hd⟩ := @Aggregate.resting_stop db.distance _ hoc nowUs
    (db.aggState imu).distanceXMdeg
  obtain ⟨hheading, hh⟩ := @Aggregate.resting_stop db.heading _ hoc nowUs
    (db.aggState imu).headingXMdeg
  refine ⟨hdistance, hheading, ?_⟩
  rw [decide_eq_true_iff]
  exact ⟨fun h => ⟨hd.mpr h, hh.mpr h⟩, fun h => hd.mp h.1⟩

theorem Rested.setUseGyro (h : db.Rested braked) (imu : Imu) (mode : UInt8) :
    (db.setUseGyro imu mode).Rested (braked && !db.switchesGyro mode) := by
  obtain ⟨hdistance, hheading⟩ := setUseGyro_axes db imu mode
  cases hswitch : db.switchesGyro mode with
  | true =>
    rw [hswitch, if_pos rfl] at hheading
    refine ⟨hdistance ▸ h.distance, hheading ▸ Aggregate.resting_reset _, ?_⟩
    rw [Bool.not_true, Bool.and_false, hheading]
    exact ⟨by rintro ⟨⟩, fun hbraked => absurd hbraked.2 (Aggregate.not_braked_reset _)⟩
  | false =>
    rw [hswitch, if_neg Bool.false_ne_true] at hheading
    rw [Bool.not_false, Bool.and_true]
    refine ⟨hdistance ▸ h.distance, hheading ▸ h.heading, ?_⟩
    rw [hdistance, hheading]
    exact h.braked_iff

theorem not_onlyPassive_duty {left right : Int} {more : List (Side × Action)} :
    ¬OnlyPassive ([(.left, .duty left), (.right, .duty right)] ++ more) := by
  rintro (h | h) <;> cases h

/-- What two axes at rest pass on is BRAKE if both have latched it, and nothing otherwise. -/
theorem propagate_of_resting (reading : Reading) (h : db.Rested braked) :
    propagate (db.tickDistance cfg nowUs imu reading).2 (db.tickHeading cfg nowUs imu reading).2 =
      if braked then .brake else 0 := by
  have hdistance : _ ∧ (_ ∧ (db.tickDistance cfg nowUs imu reading).2.actuation = .brake ∨
      _ ∧ (db.tickDistance cfg nowUs imu reading).2.actuation = .coast) :=
    Aggregate.update_of_resting h.distance
  have hheading : _ ∧ (_ ∧ (db.tickHeading cfg nowUs imu reading).2.actuation = .brake ∨
      _ ∧ (db.tickHeading cfg nowUs imu reading).2.actuation = .coast) :=
    Aggregate.update_of_resting h.heading
  rcases hdistance with ⟨-, ⟨hd, hbrake⟩ | ⟨hd, hcoast⟩⟩
  · rcases hheading with ⟨-, ⟨hh, hbrake'⟩ | ⟨hh, hcoast'⟩⟩
    · rw [if_pos (h.braked_iff.mpr ⟨hd, hh⟩), propagate, hbrake, hbrake']
      rfl
    · have hfalse : ¬braked = true := fun hb => hh (h.braked_iff.mp hb).2
      rw [if_neg hfalse, propagate, if_pos (.inr hcoast')]
      rfl
  · have hfalse : ¬braked = true := fun hb => hd (h.braked_iff.mp hb).1
    rw [if_neg hfalse, propagate, if_pos (.inl hcoast)]
    rfl

/-- A tick leaves axes at rest as they are, and the motors passive if both axes have latched BRAKE
or a port is lost. -/
theorem Rested.update (h : db.Rested braked) (reading : Reading) :
    (db.update cfg nowUs imu reading).1.Rested braked ∧
      (OnlyPassive (db.update cfg nowUs imu reading).2 ↔
        braked = true ∨ reading.reclaimPending = true) := by
  have hd : (db.tickDistance cfg nowUs imu reading).1 = db.distance.resetPause :=
    (Aggregate.update_of_resting h.distance).1
  have hh : (db.tickHeading cfg nowUs imu reading).1 = db.heading.resetPause :=
    (Aggregate.update_of_resting h.heading).1
  have hsame : ∀ db' : Base, db'.distance = db.distance.resetPause →
      db'.heading = db.heading.resetPause → db'.Rested braked := by
    intro db' hd' hh'
    refine ⟨hd' ▸ h.distance.resetPause, hh' ▸ h.heading.resetPause, ?_⟩
    rw [hd', hh']
    exact h.braked_iff
  have hpropagate : propagate (db.tickDistance cfg nowUs imu reading).2
      (db.tickHeading cfg nowUs imu reading).2 = if braked then .brake else 0 :=
    propagate_of_resting reading h
  rcases @update_cases cfg db nowUs imu reading with
    ⟨hpending, hd', hh', hactions⟩ | ⟨hpending, hbrake, hd', hh', hactions⟩ |
    ⟨hpending, hnone, hd', hh', left, right, hactions⟩
  · refine ⟨hsame _ (hd'.trans hd) (hh'.trans hh), fun _ => .inr hpending, fun _ => ?_⟩
    exact .inl hactions
  · cases braked with
    | false => exact absurd (hpropagate.symm.trans hbrake) (by decide)
    | true =>
      refine ⟨⟨?_, ?_, fun _ => ?_, fun _ => rfl⟩, fun _ => .inl rfl, fun _ => .inr hactions⟩
      · exact hd' ▸ Aggregate.resting_stopPassive (.inr rfl)
      · exact hh' ▸ Aggregate.resting_stopPassive (.inr rfl)
      · rw [hd', hh']
        exact ⟨⟨rfl, rfl⟩, rfl, rfl⟩
  · cases braked with
    | true => exact absurd (hpropagate.symm.trans hnone) (by decide)
    | false =>
      refine ⟨hsame _ (hd'.trans hd) (hh'.trans hh), fun honly => ?_, fun hor => ?_⟩
      · rw [hactions] at honly
        exact absurd honly not_onlyPassive_duty
      · rw [hpending] at hor
        rcases hor with hfalse | hfalse <;> cases hfalse

theorem Rested.apply (h : db.Rested braked) {op : Op} (hop : op.LeavesAlone) :
    (db.apply cfg nowUs imu op).1.Rested (op.braked db braked) := by
  cases op with
  | reset xL xR => exact rested_reset db imu xL xR
  | setOrigin angleMdeg => exact ⟨h.distance, h.heading, h.braked_iff⟩
  | setUseGyro mode => exact h.setUseGyro imu mode
  | stop oc => exact rested_stop hop
  | update reading => exact (h.update reading).1
  | driveStraight | turn | driveCurve | driveArcDistance | driveForever => exact hop.elim

theorem rested_of_onlyPassive {reading : Reading} (hpending : reading.reclaimPending = false)
    (honly : OnlyPassive (db.update cfg nowUs imu reading).2) :
    (db.update cfg nowUs imu reading).1.Rested true := by
  rcases @update_cases cfg db nowUs imu reading with
    ⟨hlost, -⟩ | ⟨-, -, hd, hh, -⟩ | ⟨-, -, -, -, left, right, hactions⟩
  · rw [hlost] at hpending
    cases hpending
  · refine ⟨?_, ?_, fun _ => ?_, fun _ => rfl⟩
    · exact hd ▸ Aggregate.resting_stopPassive (.inr rfl)
    · exact hh ▸ Aggregate.resting_stopPassive (.inr rfl)
    · rw [hd, hh]
      exact ⟨⟨rfl, rfl⟩, rfl, rfl⟩
  · rw [hactions] at honly
    exact absurd honly not_onlyPassive_duty

end Base

/-! ## Runs -/

/-- The call is a passive stop, or a tick that ended a move passively. -/
def BecomesPassive (cfg : Settings) (s : State) (e : Event) : Prop :=
  match e.op with
  | .stop oc => oc.Coasts ∨ oc.Brakes
  | .update reading =>
    reading.reclaimPending = false ∧ OnlyPassive ((machine cfg).step s e).2
  | _ => False

def Op.beginsBraked : Op → Bool
  | .stop oc => decide oc.Brakes
  | _ => true

/-- At every tick of the run both axes have latched BRAKE, or a port is lost: the motors were last
made passive with BRAKE, and since then the drivebase was not reset and its gyro not switched. -/
def BrakeLasts (cfg : Settings) : Bool → State → List Event → Prop
  | _, _, [] => True
  | braked, s, e :: es =>
    (∀ reading, e.op = .update reading → braked = true ∨ reading.reclaimPending = true) ∧
      BrakeLasts cfg (e.op.braked s.db braked) ((machine cfg).step s e).1 es

/-- A tick does nothing but coast or brake. -/
def TicksPassively (cfg : Settings) (s : State) (e : Event) : Prop :=
  ∀ reading, e.op = .update reading → OnlyPassive ((machine cfg).step s e).2

variable {cfg : Settings} {s : State} {e : Event} {es : List Event}

theorem rested_of_becomesPassive (h : BecomesPassive cfg s e) :
    ((machine cfg).step s e).1.db.Rested e.op.beginsBraked := by
  obtain ⟨elapsedUs, imu, op⟩ := e
  cases op with
  | stop oc => exact Base.rested_stop h
  | update reading => exact Base.rested_of_onlyPassive h.1 h.2
  | reset | setOrigin | setUseGyro | driveStraight | turn | driveCurve | driveArcDistance
  | driveForever => exact h.elim

theorem ticksPassively_iff_of_rested {braked : Bool} (h : s.db.Rested braked)
    (hes : ∀ e ∈ es, e.op.LeavesAlone) :
    (machine cfg).Throughout (TicksPassively cfg) s es ↔ BrakeLasts cfg braked s es := by
  induction es generalizing s braked with
  | nil => exact Iff.rfl
  | cons e es ih =>
    have hnext : ((machine cfg).step s e).1.db.Rested (e.op.braked s.db braked) :=
      h.apply (hes e mem_cons_self)
    have hlater := ih hnext fun e' he' => hes e' (mem_cons_of_mem e he')
    refine and_congr ⟨fun htick reading hop => ?_, fun htick reading hop => ?_⟩ hlater
    · have honly := htick reading hop
      obtain ⟨elapsedUs, imu, op⟩ := e
      cases hop
      exact (h.update reading).2.mp honly
    · obtain ⟨elapsedUs, imu, op⟩ := e
      cases hop
      exact (h.update reading).2.mpr (htick reading rfl)

/-- **When the motors stay passive**: after a passive stop, or a move that ended passively, the
ticks coast or brake until the next command exactly if BRAKE lasts. -/
theorem staysPassive_iff_brakeLasts (h : BecomesPassive cfg s e)
    (hes : ∀ e ∈ es, e.op.LeavesAlone) :
    (machine cfg).Throughout (TicksPassively cfg) ((machine cfg).step s e).1 es ↔
      BrakeLasts cfg e.op.beginsBraked ((machine cfg).step s e).1 es :=
  ticksPassively_iff_of_rested (rested_of_becomesPassive h) hes

theorem staysPassive_braked :
    (machine .defaults).Throughout (TicksPassively .defaults)
      ((machine .defaults).step .booted { op := .stop .brakeSmart }).1
      [{ elapsedUs := 2000, op := .update {} }, { op := .setOrigin 90000 },
        { elapsedUs := 2000, op := .update { left := ⟨700, 40⟩, reclaimPending := true } },
        { elapsedUs := 2000, op := .update { right := ⟨-900, 0⟩ } }] :=
  (staysPassive_iff_brakeLasts (e := { op := .stop .brakeSmart }) (.inr (.inr rfl)) (by
    intro e he
    simp only [mem_cons, not_mem_nil, or_false] at he
    rcases he with rfl | rfl | rfl | rfl <;> trivial)).mpr
    ⟨fun _ _ => .inl rfl, nofun, fun _ _ => .inl rfl, fun _ _ => .inl rfl, trivial⟩

/-- Motors that were stopped with COAST get a duty in the next tick. -/
theorem not_staysPassive_coasted :
    ¬∀ (cfg : Settings) (wheelDUm axleTUm tickMs nowUs : Nat) (db : Base) (before : List Event)
      (e : Event) (es : List Event), Base.init wheelDUm axleTUm tickMs = .ok db →
      BecomesPassive cfg ((machine cfg).run ⟨db, nowUs⟩ before) e →
      (∀ e ∈ es, e.op.LeavesAlone) →
      (machine cfg).Throughout (TicksPassively cfg)
        ((machine cfg).step ((machine cfg).run ⟨db, nowUs⟩ before) e).1 es := by
  intro h
  have hleaves : ∀ e ∈ [{ elapsedUs := 2000, op := Op.update {} : Event }], e.op.LeavesAlone := by
    intro e he
    cases mem_singleton.mp he
    trivial
  have hticks := h .defaults 56000 112000 2 0 State.booted.db [{ op := .reset 0 0 }]
    { op := .stop .coast } [{ elapsedUs := 2000, op := .update {} }] init_booted (.inl (.inl rfl))
    hleaves
  exact absurd (hticks.1 {} rfl) (by decide +kernel)

end Brickwright.Drivebase
