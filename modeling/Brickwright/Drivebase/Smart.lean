import Brickwright.Drivebase.Base

/-!
# Moves from target to target

A move that begins near the end of the last one begins at that end, so that the errors of the moves
do not add up (`actualOrigin`). The end is remembered as long as the axis follows its trajectory. A
SMART move follows it on after its completion for a while. COAST_SMART goes on remembering then,
since COAST is not passed on; BRAKE_SMART is, as a stop of both axes, and a stop forgets the end.

`Remembers` is the invariant of the ticks, and `target_move` says where one more move goes; the run
theorem is over rounds of ticks and a move.
-/

namespace Brickwright.Drivebase

namespace Aggregate

variable {cfg : Settings} {ctl : Aggregate} {nowUs : Nat} {xMdeg vMdegps : Int} {dtMs : Nat}

/-- The end of the trajectory is remembered exactly as long as it is followed. -/
structure Remembers (ctl : Aggregate) : Prop where
  valid : ctl.prevEndpointValid = ctl.trajectoryActive
  endpoint : ctl.prevEndpointMdeg = ctl.trajectory.x1Mdeg

theorem Remembers.update (h : ctl.Remembers) :
    (ctl.update cfg nowUs xMdeg vMdegps dtMs).1.Remembers := by
  have hsame := @sameMove_update ctl nowUs cfg xMdeg vMdegps dtMs
  constructor
  · rw [hsame.prevEndpointValid, hsame.trajectoryActive]
    exact h.valid
  · rw [hsame.prevEndpointMdeg, hsame.trajectory]
    exact h.endpoint

theorem Remembers.stopPassive (h : ctl.Remembers) (oc actuation : OnCompletion) :
    (ctl.stopPassive oc actuation).Remembers := ⟨rfl, h.endpoint⟩

section drivePosition

variable {originMdeg deltaMdeg vMaxMdegps accelMdegps2 decelMdegps2 : Int} {oc : OnCompletion}

theorem trajectory_drivePosition :
    let moved := ctl.drivePosition cfg nowUs originMdeg deltaMdeg vMaxMdegps accelMdegps2
      decelMdegps2 oc
    moved.trajectory.x0Mdeg = ctl.actualOrigin cfg originMdeg ∧
      moved.trajectory.x1Mdeg = ctl.actualOrigin cfg originMdeg + deltaMdeg :=
  have hspec := Trajectory.initPosition_spec nowUs (ctl.actualOrigin cfg originMdeg)
    (ctl.actualOrigin cfg originMdeg + deltaMdeg) vMaxMdegps accelMdegps2 decelMdegps2
  ⟨hspec.2.1, hspec.2.2.1⟩

theorem remembers_drivePosition :
    (ctl.drivePosition cfg nowUs originMdeg deltaMdeg vMaxMdegps accelMdegps2 decelMdegps2
      oc).Remembers :=
  ⟨rfl, trajectory_drivePosition.2.symm⟩

end drivePosition

/-- The distance up to which a move begins at the end of the last one. -/
def window (cfg : Settings) (ctl : Aggregate) : Int :=
  (cfg.completionAxis ctl.axis).smartContinueWindowMdeg

/-- Near the end of the last move, the next one begins there, if the end is still remembered. -/
theorem actualOrigin_of_near (h : ctl.Remembers) {originMdeg : Int}
    (hnear : abs32 (ctl.trajectory.x1Mdeg - originMdeg) ≤ ctl.window cfg) :
    ctl.actualOrigin cfg originMdeg =
      if ctl.trajectoryActive then ctl.trajectory.x1Mdeg else originMdeg := by
  rw [actualOrigin, h.valid, h.endpoint]
  by_cases hactive : ctl.trajectoryActive = true
  · rw [if_pos ⟨hactive, hnear⟩, if_pos hactive]
  · rw [if_neg fun hand => hactive hand.1, if_neg hactive]

/-- The axis follows a trajectory that does not end with BRAKE. -/
structure NeverBrakes (ctl : Aggregate) : Prop where
  active : ctl.trajectoryActive = true
  completion : ¬ctl.onCompletion.Brakes
  latched : ctl.pid.latchedPassiveDone = true → ctl.pid.latchedActuation ≠ .brake

theorem NeverBrakes.update (h : ctl.NeverBrakes) :
    (ctl.update cfg nowUs xMdeg vMdegps dtMs).1.NeverBrakes ∧
      (ctl.update cfg nowUs xMdeg vMdegps dtMs).2.actuation ≠ .brake := by
  have hsame := @sameMove_update ctl nowUs cfg xMdeg vMdegps dtMs
  have hactive := hsame.trajectoryActive.trans h.active
  have hcompletion := hsame.onCompletion ▸ h.completion
  cases hlatched : ctl.pid.latchedPassiveDone with
  | true =>
    obtain ⟨hpid, hactuation, -⟩ := (@update_latched _ nowUs cfg xMdeg vMdegps dtMs) hlatched
    refine ⟨⟨hactive, hcompletion, fun _ => ?_⟩, ?_⟩
    · rw [hpid]
      exact h.latched hlatched
    · rw [hactuation]
      exact h.latched hlatched
  | false =>
    rcases (@update_running _ nowUs cfg xMdeg vMdegps dtMs) h.active hlatched with
      ⟨hgoes, hhold⟩ | ⟨-, ⟨-, hactuation⟩, ⟨-, hcoast⟩ | ⟨hbrakes, -⟩⟩
    · refine ⟨⟨hactive, hcompletion, fun hnow => ?_⟩, hhold ▸ by decide⟩
      exact absurd (hgoes.symm.trans hnow) Bool.false_ne_true
    · rw [hcoast] at hactuation ⊢
      refine ⟨⟨hactive, hcompletion, fun _ => ?_⟩, OnCompletion.coast_ne_brake⟩
      rw [hactuation]
      exact OnCompletion.coast_ne_brake
    · exact absurd hbrakes h.completion

end Aggregate

/-! ## Rounds -/

def Base.axis (db : Base) : Axis → Aggregate
  | .distance => db.distance
  | .heading => db.heading

/-- Where the axis is, as a command finds it. -/
def Base.measured (db : Base) (imu : Imu) : Axis → Int
  | .distance => ((db.latchUseGyro imu).aggState imu).distanceXMdeg
  | .heading => ((db.latchUseGyro imu).aggState imu).headingXMdeg

/-- A move by a distance or by an angle that ends in a SMART way. -/
structure SmartMove where
  elapsedUs : Nat := 0
  imu : Imu := {}
  amount : Int
  speed : Int := 0
  mode : OnCompletion
  smart : mode = .coastSmart ∨ mode = .brakeSmart

/-- The call that makes the move, on an axis. -/
def SmartMove.event (move : SmartMove) (axis : Axis) : Event where
  elapsedUs := move.elapsedUs
  imu := move.imu
  op :=
    match axis with
    | .distance => .driveStraight move.amount move.speed move.mode
    | .heading => .turn move.amount move.speed move.mode

def SmartMove.delta (move : SmartMove) (axis : Axis) (wheelDUm axleTUm : Nat) : Int :=
  match axis with
  | .distance => mmToMdeg move.amount wheelDUm
  | .heading => headingMdegToStateMdeg (move.amount * 1000) wheelDUm axleTUm

structure Tick where
  elapsedUs : Nat := 2000
  imu : Imu := {}
  reading : Base.Reading

def Tick.event (tick : Tick) : Event where
  elapsedUs := tick.elapsedUs
  imu := tick.imu
  op := .update tick.reading

structure Round where
  ticks : List Tick
  move : SmartMove

/-! ## What a round keeps -/

def Axis.other : Axis → Axis
  | .distance => .heading
  | .heading => .distance

namespace Base

variable {cfg : Settings} {db : Base} {nowUs : Nat} {imu : Imu} {axis : Axis}

/-- The wheels and the track are the same. -/
def SameGeometry (db db' : Base) : Prop := db'.wheelDUm = db.wheelDUm ∧ db'.axleTUm = db.axleTUm

theorem sameGeometry_latchUseGyro (db : Base) (imu : Imu) :
    SameGeometry db (db.latchUseGyro imu) := by
  unfold SameGeometry latchUseGyro
  simp only [apply_ite Base.wheelDUm, apply_ite Base.axleTUm, ite_self, and_self]

theorem sameGeometry_update (reading : Reading) :
    SameGeometry db (db.update cfg nowUs imu reading).1 := by
  unfold SameGeometry update actuate finish
  simp only
  split
  · exact ⟨rfl, rfl⟩
  · split <;> exact ⟨rfl, rfl⟩

/-- Which command is under way does not matter to what the controllers are given. -/
theorem aggState_latchUseGyro (db : Base) (command : ActiveCommand) (imu : Imu) :
    ({ db with activeCommand := command }.latchUseGyro imu).aggState imu =
      (db.latchUseGyro imu).aggState imu := by
  simp only [latchUseGyro]
  rw [apply_ite (fun db : Base => db.aggState imu), apply_ite (fun db : Base => db.aggState imu)]
  rfl

theorem armAxis_primary {ctl : Aggregate} {xMdeg deltaMdeg v : Int} {limits : Limits}
    {oc : OnCompletion} :
    ∃ v' a d, armAxis cfg ctl true nowUs xMdeg deltaMdeg v limits oc =
      ctl.drivePosition cfg nowUs xMdeg deltaMdeg v' a d oc := by
  rw [armAxis, if_neg (by simp)]
  exact ⟨_, _, _, rfl⟩

theorem apply_move (db : Base) (nowUs : Nat) (move : SmartMove) (axis : Axis) :
    let moved := (db.apply cfg nowUs move.imu (move.event axis).op).1
    SameGeometry db moved ∧
      (∃ v a d, moved.axis axis = (db.axis axis).drivePosition cfg nowUs
        (db.measured move.imu axis) (move.delta axis db.wheelDUm db.axleTUm) v a d move.mode) ∧
      ∃ x, moved.axis axis.other = (db.axis axis.other).driveHold nowUs x := by
  cases axis with
  | distance =>
    obtain ⟨hdistance, hheading⟩ :=
      latchUseGyro_axes { db with activeCommand := .straight } move.imu
    refine ⟨sameGeometry_latchUseGyro { db with activeCommand := .straight } move.imu, ?_, ?_⟩
    · obtain ⟨v, a, d, harm⟩ := @armAxis_primary cfg nowUs
          (({ db with activeCommand := .straight }.latchUseGyro move.imu).distance)
          ((({ db with activeCommand := .straight }.latchUseGyro move.imu).aggState
          move.imu).distanceXMdeg) (mmToMdeg move.amount db.wheelDUm)
          (if move.speed ≠ 0 then mmpsToMdegps (abs32 move.speed) db.wheelDUm else 0)
          (distanceLimits ({ db with activeCommand := .straight }.latchUseGyro move.imu).wheelDUm)
          move.mode
      refine ⟨v, a, d, harm.trans ?_⟩
      rw [hdistance, aggState_latchUseGyro]
      rfl
    · exact ⟨_, congrArg (Aggregate.driveHold · nowUs _) hheading⟩
  | heading =>
    obtain ⟨hdistance, hheading⟩ := latchUseGyro_axes { db with activeCommand := .turn } move.imu
    refine ⟨sameGeometry_latchUseGyro { db with activeCommand := .turn } move.imu, ?_, ?_⟩
    · obtain ⟨v, a, d, harm⟩ := @armAxis_primary cfg nowUs
          (({ db with activeCommand := .turn }.latchUseGyro move.imu).heading)
          ((({ db with activeCommand := .turn }.latchUseGyro move.imu).aggState
          move.imu).headingXMdeg) (headingMdegToStateMdeg (move.amount * 1000) db.wheelDUm
          db.axleTUm) (if move.speed ≠ 0 then toInt32 ((abs32 move.speed * 1000 * db.axleTUm).tdiv
          db.wheelDUm) else 0) (headingLimits ({ db with activeCommand := .turn }.latchUseGyro
          move.imu).wheelDUm ({ db with activeCommand := .turn }.latchUseGyro move.imu).axleTUm)
          move.mode
      refine ⟨v, a, d, harm.trans ?_⟩
      rw [hheading, aggState_latchUseGyro]
      rfl
    · exact ⟨_, congrArg (Aggregate.driveHold · nowUs _) hdistance⟩

/-- What a tick does to an axis: an update, or an update and the stop that is passed on. -/
theorem axis_update (reading : Reading) (axis : Axis) :
    ∃ x v, (db.update cfg nowUs imu reading).1.axis axis =
        ((db.axis axis).update cfg nowUs x v db.tickMs).1 ∨
      (db.update cfg nowUs imu reading).1.axis axis =
        ((db.axis axis).update cfg nowUs x v db.tickMs).1.stopPassive .brake .brake := by
  rcases @update_cases cfg db nowUs imu reading with
    ⟨-, hd, hh, -⟩ | ⟨-, -, hd, hh, -⟩ | ⟨-, -, hd, hh, -⟩
  · cases axis with
    | distance => exact ⟨_, _, .inl hd⟩
    | heading => exact ⟨_, _, .inl hh⟩
  · cases axis with
    | distance => exact ⟨_, _, .inr hd⟩
    | heading => exact ⟨_, _, .inr hh⟩
  · cases axis with
    | distance => exact ⟨_, _, .inl hd⟩
    | heading => exact ⟨_, _, .inl hh⟩

/-- The tick keeps the end in mind with the trajectory, and the trajectory where it is. -/
theorem remembers_update (reading : Reading) (h : (db.axis axis).Remembers) :
    ((db.update cfg nowUs imu reading).1.axis axis).Remembers ∧
      ((db.update cfg nowUs imu reading).1.axis axis).trajectory = (db.axis axis).trajectory ∧
      ((db.update cfg nowUs imu reading).1.axis axis).axis = (db.axis axis).axis := by
  obtain ⟨x, v, hgoes | hstops⟩ := @axis_update cfg db nowUs imu
    reading axis
  · rw [hgoes]
    exact ⟨h.update, Aggregate.sameMove_update.trajectory, Aggregate.sameMove_update.axis⟩
  · rw [hstops]
    exact ⟨h.update.stopPassive .brake .brake, Aggregate.sameMove_update.trajectory,
      Aggregate.sameMove_update.axis⟩

theorem neverBrakes_update (reading : Reading) (hd : db.distance.NeverBrakes)
    (hh : db.heading.NeverBrakes) :
    (db.update cfg nowUs imu reading).1.distance.NeverBrakes ∧
      (db.update cfg nowUs imu reading).1.heading.NeverBrakes := by
  have hdistance : (db.tickDistance cfg nowUs imu reading).1.NeverBrakes ∧
      (db.tickDistance cfg nowUs imu reading).2.actuation ≠ .brake := hd.update
  have hheading : (db.tickHeading cfg nowUs imu reading).1.NeverBrakes ∧
      (db.tickHeading cfg nowUs imu reading).2.actuation ≠ .brake := hh.update
  rcases @update_cases cfg db nowUs imu reading with
    ⟨-, hd', hh', -⟩ | ⟨-, hbrake, -⟩ | ⟨-, -, hd', hh', -⟩
  · rw [hd', hh']
    exact ⟨hdistance.1, hheading.1⟩
  · rcases @propagate_cases ((db.tickDistance cfg nowUs imu reading).2)
        ((db.tickHeading cfg nowUs imu reading).2) with ⟨-, -, -, hd' | hh'⟩ | ⟨hnone, -⟩
    · exact absurd hd' hdistance.2
    · exact absurd hh' hheading.2
    · exact absurd (hbrake.symm.trans hnone) (by decide)
  · rw [hd', hh']
    exact ⟨hdistance.1, hheading.1⟩

end Base

/-! ## Rounds of ticks and a move -/

variable {cfg : Settings} {axis : Axis} {s : State} {r : Round}

/-- Where the axis is going, or last went. -/
def target (axis : Axis) (s : State) : Int := (s.db.axis axis).trajectory.x1Mdeg

/-- The drivebase after the ticks of a round. -/
def arrived (cfg : Settings) (s : State) (ticks : List Tick) : State :=
  (machine cfg).run s (ticks.map Tick.event)

theorem arrived_cons (s : State) (tick : Tick) (ticks : List Tick) :
    arrived cfg s (tick :: ticks) =
      arrived cfg
        ⟨(s.db.update cfg (s.nowUs + tick.elapsedUs) tick.imu tick.reading).1,
          s.nowUs + tick.elapsedUs⟩ ticks := by
  rfl

def rounds (cfg : Settings) (axis : Axis) : Machine State Round Unit where
  step s r := (((machine cfg).step (arrived cfg s r.ticks) (r.move.event axis)).1, ())

/-- The move begins within the window of the last target. -/
def Near (cfg : Settings) (axis : Axis) (s : State) (r : Round) : Prop :=
  abs32 (target axis s - (arrived cfg s r.ticks).db.measured r.move.imu axis) ≤
    ((arrived cfg s r.ticks).db.axis axis).window cfg

/-- The last move was to coast, or it is still followed when the next one begins, or it came to
stand on its target exactly. -/
def Continues (cfg : Settings) (axis : Axis) (s : State) (r : Round) : Prop :=
  (s.db.axis axis).onCompletion = .coastSmart ∨
    ((arrived cfg s r.ticks).db.axis axis).trajectoryActive = true ∨
    (arrived cfg s r.ticks).db.measured r.move.imu axis = target axis s

structure Moved (db : Base) (axis : Axis) : Prop where
  remembers : (db.axis axis).Remembers
  active : (db.axis axis).trajectoryActive = true
  fresh : (db.axis axis).pid.latchedPassiveDone = false
  other : (db.axis axis.other).NeverBrakes

theorem moved_move (s : State) (move : SmartMove) (axis : Axis) :
    Moved ((machine cfg).step s (move.event axis)).1.db axis := by
  obtain ⟨-, ⟨v, a, d, hprimary⟩, x, hother⟩ :=
    (@Base.apply_move cfg) s.db (s.nowUs + (move.event axis).elapsedUs) move axis
  have hprimary' : ((machine cfg).step s (move.event axis)).1.db.axis axis = _ := hprimary
  have hother' : ((machine cfg).step s (move.event axis)).1.db.axis axis.other = _ := hother
  refine ⟨?_, ?_, ?_, ?_⟩
  · rw [hprimary']
    exact Aggregate.remembers_drivePosition
  · rw [hprimary']
    rfl
  · rw [hprimary']
    rfl
  · rw [hother']
    refine ⟨rfl, ?_, nofun⟩
    show ¬OnCompletion.hold.Brakes
    decide

theorem remembers_arrived (h : (s.db.axis axis).Remembers) (ticks : List Tick) :
    ((arrived cfg s ticks).db.axis axis).Remembers ∧
      ((arrived cfg s ticks).db.axis axis).trajectory = (s.db.axis axis).trajectory ∧
      Base.SameGeometry s.db (arrived cfg s ticks).db := by
  induction ticks generalizing s with
  | nil => exact ⟨h, rfl, rfl, rfl⟩
  | cons tick ticks ih =>
    rw [arrived_cons]
    obtain ⟨hnext, htrajectory, -⟩ := (@Base.remembers_update cfg s.db (s.nowUs + tick.elapsedUs)
        tick.imu) tick.reading h
    obtain ⟨hwheel, haxle⟩ := (@Base.sameGeometry_update cfg s.db (s.nowUs + tick.elapsedUs)
        tick.imu) tick.reading
    obtain ⟨hlast, htrajectory', hwheel', haxle'⟩ := ih
      (s := ⟨(s.db.update cfg (s.nowUs + tick.elapsedUs) tick.imu tick.reading).1,
        s.nowUs + tick.elapsedUs⟩) hnext
    exact ⟨hlast, htrajectory'.trans htrajectory, hwheel'.trans hwheel, haxle'.trans haxle⟩

theorem neverBrakes_arrived (hd : s.db.distance.NeverBrakes) (hh : s.db.heading.NeverBrakes)
    (ticks : List Tick) :
    (arrived cfg s ticks).db.distance.NeverBrakes ∧
      (arrived cfg s ticks).db.heading.NeverBrakes := by
  induction ticks generalizing s with
  | nil => exact ⟨hd, hh⟩
  | cons tick ticks ih =>
    rw [arrived_cons]
    obtain ⟨hd', hh'⟩ := (@Base.neverBrakes_update cfg s.db (s.nowUs + tick.elapsedUs) tick.imu)
        tick.reading hd hh
    exact ih hd' hh'

/-- A move that is to coast is followed until the next one. -/
theorem Moved.active_arrived (h : Moved s.db axis)
    (hcoast : (s.db.axis axis).onCompletion = .coastSmart) (ticks : List Tick) :
    ((arrived cfg s ticks).db.axis axis).trajectoryActive = true := by
  have hnever : (s.db.axis axis).NeverBrakes := by
    refine ⟨h.active, ?_, fun hlatched => ?_⟩
    · rw [hcoast]
      decide
    · exact absurd (h.fresh.symm.trans hlatched) Bool.false_ne_true
  cases axis with
  | distance => exact (neverBrakes_arrived hnever h.other ticks).1.active
  | heading => exact (neverBrakes_arrived h.other hnever ticks).2.active

/-- **One more move** goes from target to target exactly if it continues the last one. -/
theorem target_round (h : Moved s.db axis) (hnear : Near cfg axis s r) :
    target axis ((rounds cfg axis).step s r).1 =
        target axis s + r.move.delta axis s.db.wheelDUm s.db.axleTUm ↔
      Continues cfg axis s r := by
  obtain ⟨hremembers, htrajectory, hwheel, haxle⟩ :=
    (@remembers_arrived cfg) h.remembers r.ticks
  obtain ⟨-, ⟨v, a, d, hprimary⟩, -⟩ := (@Base.apply_move cfg) (arrived cfg s r.ticks).db
    ((arrived cfg s r.ticks).nowUs + (r.move.event axis).elapsedUs) r.move axis
  have htarget : target axis ((rounds cfg axis).step s r).1 =
      ((arrived cfg s r.ticks).db.axis axis).actualOrigin cfg
        ((arrived cfg s r.ticks).db.measured r.move.imu axis) +
      r.move.delta axis s.db.wheelDUm s.db.axleTUm := by
    rw [← hwheel, ← haxle]
    exact (congrArg (·.trajectory.x1Mdeg) hprimary).trans Aggregate.trajectory_drivePosition.2
  have hprevious : ((arrived cfg s r.ticks).db.axis axis).trajectory.x1Mdeg = target axis s :=
    congrArg (·.x1Mdeg) htrajectory
  have horigin := @Aggregate.actualOrigin_of_near cfg _ hremembers
    ((arrived cfg s r.ticks).db.measured r.move.imu axis) (hprevious ▸ hnear)
  rw [htarget, horigin, hprevious, Int.add_left_inj]
  by_cases hactive : ((arrived cfg s r.ticks).db.axis axis).trajectoryActive = true
  · rw [if_pos hactive]
    exact ⟨fun _ => .inr (.inl hactive), fun _ => rfl⟩
  · rw [if_neg hactive]
    refine ⟨fun heq => .inr (.inr heq), ?_⟩
    rintro (hcoast | hstill | heq)
    · exact absurd (h.active_arrived hcoast r.ticks) hactive
    · exact absurd hstill hactive
    · exact heq

theorem moved_round (s : State) (r : Round) : Moved ((rounds cfg axis).step s r).1.db axis :=
  moved_move (arrived cfg s r.ticks) r.move axis

theorem sameGeometry_round (h : Moved s.db axis) (r : Round) :
    Base.SameGeometry s.db ((rounds cfg axis).step s r).1.db := by
  obtain ⟨-, -, hwheel, haxle⟩ := (@remembers_arrived cfg) h.remembers r.ticks
  obtain ⟨⟨hwheel', haxle'⟩, -⟩ := (@Base.apply_move cfg) (arrived cfg s r.ticks).db
    ((arrived cfg s r.ticks).nowUs + (r.move.event axis).elapsedUs) r.move axis
  exact ⟨Eq.trans hwheel' hwheel, Eq.trans haxle' haxle⟩

def total (axis : Axis) (db : Base) (moves : List SmartMove) : Int :=
  (moves.map fun move => move.delta axis db.wheelDUm db.axleTUm).sum

theorem total_cons (db : Base) (move : SmartMove) (moves : List SmartMove) :
    total axis db (move :: moves) =
      move.delta axis db.wheelDUm db.axleTUm + total axis db moves :=
  rfl

theorem total_congr {db db' : Base} (h : Base.SameGeometry db db') (moves : List SmartMove) :
    total axis db' moves = total axis db moves := by
  rw [total, total, h.1, h.2]

theorem target_rounds {rs : List Round} {start : Int} (h : Moved s.db axis)
    (hnear : (rounds cfg axis).Throughout (Near cfg axis) s rs) :
    (∀ n, target axis ((rounds cfg axis).run s (rs.take n)) =
        start + total axis s.db ((rs.take n).map Round.move)) ↔
      target axis s = start ∧ (rounds cfg axis).Throughout (Continues cfg axis) s rs := by
  induction rs generalizing s start with
  | nil =>
    constructor
    · intro hall
      exact ⟨(hall 0).trans (Int.add_zero start), trivial⟩
    · rintro ⟨hstart, -⟩ n
      rw [List.take_nil]
      exact hstart.trans (Int.add_zero start).symm
  | cons r rs ih =>
    have hround := target_round h hnear.1
    have hrest := @ih _ (start + r.move.delta axis s.db.wheelDUm s.db.axleTUm)
      (moved_round s r) hnear.2
    -- The run after one round counts from one target further on.
    have hshift : ∀ n, start + r.move.delta axis s.db.wheelDUm s.db.axleTUm +
          total axis ((rounds cfg axis).step s r).1.db ((rs.take n).map Round.move) =
        start + total axis s.db ((r :: rs.take n).map Round.move) := by
      intro n
      rw [List.map_cons, total_cons, total_congr (sameGeometry_round h r), Int.add_assoc]
    constructor
    · intro hall
      have hstart : target axis s = start := (hall 0).trans (Int.add_zero start)
      obtain ⟨hnext, hlater⟩ := hrest.mp fun n => (hall (n + 1)).trans (hshift n).symm
      exact ⟨hstart, hround.mp (hstart.symm ▸ hnext), hlater⟩
    · rintro ⟨hstart, hcontinues, hlater⟩ n
      cases n with
      | zero => exact hstart.trans (Int.add_zero start).symm
      | succ n =>
        have hnext := (hround.mpr hcontinues).trans (congrArg (· + _) hstart)
        exact (hrest.mpr ⟨hnext, hlater⟩ n).trans (hshift n)

def origin (axis : Axis) (s : State) : Int := (s.db.axis axis).trajectory.x0Mdeg

/-- **SMART moves go from target to target** exactly if each continues the one before. -/
theorem targets_exact_iff (cfg : Settings) (axis : Axis) (s : State) (first : SmartMove)
    (rs : List Round) (hnear : (rounds cfg axis).Throughout (Near cfg axis)
      ((machine cfg).step s (first.event axis)).1 rs) :
    (∀ n, target axis ((rounds cfg axis).run ((machine cfg).step s (first.event axis)).1
          (rs.take n)) =
        origin axis ((machine cfg).step s (first.event axis)).1 +
          total axis s.db (first :: (rs.take n).map Round.move)) ↔
      (rounds cfg axis).Throughout (Continues cfg axis)
        ((machine cfg).step s (first.event axis)).1 rs := by
  obtain ⟨hgeometry, ⟨v, a, d, hprimary⟩, -⟩ :=
    (@Base.apply_move cfg) s.db (s.nowUs + (first.event axis).elapsedUs) first axis
  have hmoved := (@moved_move cfg) s first axis
  rw [step_machine] at hmoved hnear ⊢
  generalize hs' : (⟨(s.db.apply cfg (s.nowUs + (first.event axis).elapsedUs)
    (first.event axis).imu (first.event axis).op).1,
    s.nowUs + (first.event axis).elapsedUs⟩ : State) = s' at hmoved hnear ⊢
  have hgeometry' : Base.SameGeometry s.db s'.db := hs' ▸ hgeometry
  have hstart : target axis s' = origin axis s' + first.delta axis s.db.wheelDUm s.db.axleTUm := by
    have haxis : s'.db.axis axis = _ := (congrArg (·.db.axis axis) hs').symm.trans hprimary
    obtain ⟨hx0, hx1⟩ := @Aggregate.trajectory_drivePosition cfg (s.db.axis axis)
        (s.nowUs + (first.event axis).elapsedUs) (s.db.measured first.imu axis)
        (first.delta axis s.db.wheelDUm s.db.axleTUm) v a d first.mode
    rw [target, origin, haxis, hx0, hx1]
  have hrounds := @target_rounds _ _ _ _ (target axis s') hmoved hnear
  refine Iff.trans (forall_congr' fun n => ?_) (hrounds.trans (and_iff_right rfl))
  rw [total_cons, hstart, total_congr hgeometry', Int.add_assoc]

def aheadCoasting : SmartMove where
  amount := 100
  mode := .coastSmart
  smart := .inl rfl

def aheadBraking : SmartMove where
  amount := 100
  mode := .brakeSmart
  smart := .inr rfl

/-- Ticks until the move has ended and its hold has run out, with the wheels a degree short of the
target. -/
def aheadTicks : List Tick :=
  { elapsedUs := 3000000, reading := { left := ⟨203627, 0⟩, right := ⟨203627, 0⟩ } } ::
    List.replicate 80 { reading := { left := ⟨203627, 0⟩, right := ⟨203627, 0⟩ } }

theorem targets_exact_coasting :
    target .distance ((rounds .defaults .distance).run
        ((machine .defaults).step .booted (aheadCoasting.event .distance)).1
        [⟨aheadTicks, aheadBraking⟩]) =
      origin .distance ((machine .defaults).step .booted (aheadCoasting.event .distance)).1 +
        total .distance State.booted.db [aheadCoasting, aheadBraking] :=
  (targets_exact_iff .defaults .distance .booted aheadCoasting [⟨aheadTicks, aheadBraking⟩]
    ⟨by unfold Near; decide +kernel, trivial⟩).mpr ⟨.inl (by decide +kernel), trivial⟩ 1

def Completed (cfg : Settings) (s : State) (r : Round) : Prop :=
  (arrived cfg s r.ticks).db.done = true

/-- After a BRAKE_SMART move whose hold has run out the next one begins where the wheels stand. -/
theorem not_targets_exact_braking :
    ¬∀ (cfg : Settings) (axis : Axis) (wheelDUm axleTUm tickMs nowUs : Nat) (db : Base)
      (before : List Event) (first : SmartMove) (rs : List Round),
      Base.init wheelDUm axleTUm tickMs = .ok db →
      let s := (machine cfg).run ⟨db, nowUs⟩ before
      let s' := ((machine cfg).step s (first.event axis)).1
      (rounds cfg axis).Throughout (fun s r => Completed cfg s r ∧ Near cfg axis s r) s' rs →
      target axis ((rounds cfg axis).run s' rs) =
        origin axis s' + total axis db (first :: rs.map Round.move) := by
  intro h
  have htarget := h .defaults .distance 56000 112000 2 0 State.booted.db [] aheadBraking
    [⟨aheadTicks, aheadBraking⟩] init_booted
    ⟨⟨by unfold Completed; decide +kernel, by unfold Near; decide +kernel⟩, trivial⟩
  exact absurd htarget (by decide +kernel)

end Brickwright.Drivebase
