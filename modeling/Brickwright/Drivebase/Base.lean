import Brickwright.Drivebase.Aggregate
import Brickwright.Machine.History

/-!
# The drivebase

`drivebase_drivebase.c`: two motors driven as one vehicle. The distance is the mean of the wheel
angles and the heading half their difference; each has its own axis controller (`Aggregate`). A
command arms both axes, a tick reads the wheels, updates both controllers and drives the motors with
what they say.

The positions and speeds of the wheels are what `drivebase_servo.c` made of the encoder samples, and
may be anything from tick to tick; so may the readings of the gyro, the battery voltage and the
ports that have been lost.
-/

namespace Brickwright.Drivebase

/-- What `db_servo_get_status` says of a wheel. -/
structure Servo where
  actXMdeg : Int := 0
  actVMdegps : Int := 0
  deriving DecidableEq, Repr

/-- What is asked of the gyro: whether there is one, whether it is calibrated, whether its last
sample is too old, and the heading. -/
structure Imu where
  attached : Bool := false
  calibrated : Bool := false
  stale : Bool := false
  headingMdeg : Int := 0
  deriving DecidableEq, Repr

/-- `enum drivebase_use_gyro_e`. -/
def useGyroNone : UInt8 := 0
def useGyro3D : UInt8 := 2

/-- `enum drivebase_active_command_e`. -/
inductive ActiveCommand where
  | none
  | straight
  | curve
  | arc
  | forever
  | turn
  | spike
  | stop
  deriving DecidableEq, Repr

/-- `struct db_ff_state_s`. -/
structure FfState where
  signVHeld : Int := 0
  breakawayConsumed : Bool := false
  breakawaySign : Int := 0
  deriving DecidableEq, Repr

/-- `struct db_drivebase_s`. -/
structure Base where
  wheelDUm : Nat
  axleTUm : Nat
  tickMs : Nat
  servoL : Servo := {}
  servoR : Servo := {}
  distance : Aggregate
  heading : Aggregate
  angleOriginMdeg : Int := 0
  angleMdeg : Int := 0
  activeCommand : ActiveCommand := .none
  done : Bool := false
  useGyroRequested : UInt8 := 0
  useGyroLatched : UInt8 := 0
  lastSetGyroRc : Int := 0
  gyroOriginMdeg : Int := 0
  gyroOriginValid : Bool := false
  ffStateLeft : FfState := {}
  ffStateRight : FfState := {}
  deriving DecidableEq, Repr

/-- `struct db_agg_state_s`. -/
structure AggState where
  distanceXMdeg : Int
  distanceVMdegps : Int
  headingXMdeg : Int
  headingVMdegps : Int

inductive Side where
  | left
  | right
  deriving DecidableEq, Repr

inductive Action where
  | coast
  | brake
  | duty (duty : Int)
  deriving DecidableEq, Repr

/-- `db_servo_apply`. -/
def servoApply (duty : Int) (actuation : OnCompletion) : Action :=
  if actuation = .coast ∨ actuation = .coastSmart then .coast
  else if actuation = .brake ∨ actuation = .brakeSmart then .brake
  else .duty (clampI32 duty (-10000) 10000)

def applyBoth (duty : Int) (actuation : OnCompletion) : List (Side × Action) :=
  [(.left, servoApply duty actuation), (.right, servoApply duty actuation)]

namespace Base

/-- `db_drivebase_init`. -/
def init (wheelDUm axleTUm tickMs : Nat) : Except Int Base :=
  if wheelDUm = 0 ∨ axleTUm = 0 then .error (-EINVAL)
  else
    let tickMs := if tickMs = 0 then 2 else tickMs
    .ok { wheelDUm := wheelDUm, axleTUm := axleTUm, tickMs := tickMs
          distance := .init .distance tickMs, heading := .init .heading tickMs }

def gyroOriginCapturable (db : Base) (imu : Imu) : Bool :=
  imu.attached && db.useGyroRequested != useGyroNone && imu.calibrated && !imu.stale

/-- The heading of `db_drivebase_raw_state`. -/
def rawHeadingMdeg (db : Base) : Int :=
  let lLMm := mdegToMm db.servoL.actXMdeg db.wheelDUm
  let lRMm := mdegToMm db.servoR.actXMdeg db.wheelDUm
  diffMmToHeadingMdeg (lRMm - lLMm) db.axleTUm

/-- `db_drivebase_reset`. The encoders are read afresh. -/
def reset (db : Base) (imu : Imu) (xL xR : Int) : Base :=
  let db := { db with
    servoL := ⟨xL, 0⟩
    servoR := ⟨xR, 0⟩
    distance := db.distance.reset
    heading := db.heading.reset }
  let capturable := db.gyroOriginCapturable imu
  { db with
    angleOriginMdeg := db.rawHeadingMdeg
    angleMdeg := 0
    activeCommand := .none
    done := true
    gyroOriginMdeg := if capturable then imu.headingMdeg else db.gyroOriginMdeg
    gyroOriginValid := capturable }

/-- `db_drivebase_set_origin`. -/
def setOrigin (db : Base) (imu : Imu) (angleMdeg : Int) : Base :=
  let capturable := db.gyroOriginCapturable imu
  { db with
    angleOriginMdeg := db.rawHeadingMdeg - angleMdeg
    angleMdeg := angleMdeg
    gyroOriginMdeg := if capturable then imu.headingMdeg - angleMdeg else db.gyroOriginMdeg
    gyroOriginValid := capturable }

attribute [local instance (high)] instDecidableEqBool

/-- `db_drivebase_set_use_gyro`. -/
def setUseGyro (db : Base) (imu : Imu) (mode : UInt8) : Base :=
  if mode ≠ useGyroNone ∧ mode ≠ useGyro3D then { db with lastSetGyroRc := -EINVAL }
  else if db.activeCommand ≠ .none then { db with lastSetGyroRc := -EBUSY }
  else
    let oldValid := db.gyroOriginValid
    let modeChanged := db.useGyroRequested != mode
    let db := { db with
      useGyroRequested := mode
      heading := if modeChanged then db.heading.reset else db.heading
      lastSetGyroRc := 0 }
    let capturable := db.gyroOriginCapturable imu
    if mode = useGyroNone then { db with gyroOriginValid := false }
    else if !modeChanged && oldValid && capturable then db
    else if capturable then
      { db with gyroOriginMdeg := imu.headingMdeg - db.angleMdeg, gyroOriginValid := true }
    else { db with gyroOriginValid := false }

def collectAggregateState (db : Base) : AggState where
  distanceXMdeg := (db.servoL.actXMdeg + db.servoR.actXMdeg).tdiv 2
  distanceVMdegps := (db.servoL.actVMdegps + db.servoR.actVMdegps).tdiv 2
  headingXMdeg := (db.servoR.actXMdeg - db.servoL.actXMdeg).tdiv 2
  headingVMdegps := (db.servoR.actVMdegps - db.servoL.actVMdegps).tdiv 2

/-- The latching part of `db_drivebase_capture_start_heading`. -/
def latchUseGyro (db : Base) (imu : Imu) : Base :=
  let latched := if db.gyroOriginCapturable imu then db.useGyroRequested else useGyroNone
  let db := { db with useGyroLatched := latched }
  if !db.gyroOriginValid && latched == useGyro3D && imu.attached then
    { db with gyroOriginMdeg := imu.headingMdeg - db.angleMdeg, gyroOriginValid := true }
  else db

/-- The other part: what the controllers are given, with the heading of the gyro when it can be
trusted. -/
def aggState (db : Base) (imu : Imu) : AggState :=
  let state := db.collectAggregateState
  if db.useGyroLatched == useGyro3D && imu.attached && db.gyroOriginValid && imu.calibrated &&
      !imu.stale then
    { state with
      headingXMdeg :=
        headingMdegToStateMdeg (imu.headingMdeg - db.gyroOriginMdeg) db.wheelDUm db.axleTUm }
  else state

/-! ## Commands -/

/-- The axis a command is about moves; the other one is held, unless it moves too. -/
def armAxis (cfg : Settings) (ctl : Aggregate) (primary : Bool) (nowUs : Nat)
    (xMdeg deltaMdeg vOverrideMdegps : Int) (limits : Limits) (onCompletion : OnCompletion) :
    Aggregate :=
  if deltaMdeg = 0 ∧ primary = false then ctl.driveHold nowUs xMdeg
  else
    ctl.drivePosition cfg nowUs xMdeg deltaMdeg
      (if vOverrideMdegps ≠ 0 then vOverrideMdegps else limits.vMaxMdegps)
      limits.accelMdegps2 limits.decelMdegps2 (if primary then onCompletion else .hold)

def setupPositionMove (cfg : Settings) (db : Base) (nowUs : Nat) (imu : Imu)
    (distanceDeltaMdeg headingDeltaMdeg vDistanceOverrideMdegps vHeadingOverrideMdegps : Int)
    (primary : Axis) (onCompletion : OnCompletion) : Base :=
  let db := db.latchUseGyro imu
  let s := db.aggState imu
  { db with
    distance := armAxis cfg db.distance (primary == .distance) nowUs s.distanceXMdeg
      distanceDeltaMdeg vDistanceOverrideMdegps (distanceLimits db.wheelDUm) onCompletion
    heading := armAxis cfg db.heading (primary == .heading) nowUs s.headingXMdeg headingDeltaMdeg
      vHeadingOverrideMdegps (headingLimits db.wheelDUm db.axleTUm) onCompletion }

/-- `db_drivebase_drive_straight`. -/
def driveStraight (cfg : Settings) (db : Base) (nowUs : Nat) (imu : Imu)
    (distanceMm speedMmps : Int) (onCompletion : OnCompletion) : Base :=
  let vOverride := if speedMmps ≠ 0 then mmpsToMdegps (abs32 speedMmps) db.wheelDUm else 0
  setupPositionMove cfg { db with activeCommand := .straight } nowUs imu
    (mmToMdeg distanceMm db.wheelDUm) 0 vOverride 0 .distance onCompletion

/-- `db_drivebase_turn`. -/
def turn (cfg : Settings) (db : Base) (nowUs : Nat) (imu : Imu) (angleDeg turnRateDps : Int)
    (onCompletion : OnCompletion) : Base :=
  let vOverride :=
    if turnRateDps ≠ 0 then
      toInt32 ((abs32 turnRateDps * 1000 * db.axleTUm).tdiv db.wheelDUm)
    else 0
  setupPositionMove cfg { db with activeCommand := .turn } nowUs imu
    0 (headingMdegToStateMdeg (angleDeg * 1000) db.wheelDUm db.axleTUm) 0 vOverride .heading
    onCompletion

/-- The axis whose trajectory is the shorter one is stretched to the other's, when the two differ by
half or more, and when `db_trajectory_stretch_to_total` can do it. -/
def stretchPair (d h : Trajectory) : Trajectory × Trajectory :=
  let stretch (follower : Trajectory) (targetDt : Nat) : Trajectory :=
    if follower.totalDtUs > 0 ∧ targetDt * 1000 < follower.totalDtUs * 1500 then follower
    else
      match follower.stretchToTotal targetDt with
      | .ok stretched => stretched
      | .error _ => follower
  if d.totalDtUs > h.totalDtUs then (d, stretch h d.totalDtUs)
  else if h.totalDtUs > d.totalDtUs then (stretch d h.totalDtUs, h)
  else (d, h)

/-- The end of `db_drivebase_drive_curve`, when both axes move. -/
def driveBoth (cfg : Settings) (db : Base) (nowUs : Nat) (imu : Imu)
    (distanceDeltaMdeg headingDeltaMdeg : Int) (onCompletion : OnCompletion) : Base :=
  let db := { db with activeCommand := .curve }.latchUseGyro imu
  let s := db.aggState imu
  let dl := distanceLimits db.wheelDUm
  let hl := headingLimits db.wheelDUm db.axleTUm
  let d := db.distance.drivePosition cfg nowUs s.distanceXMdeg distanceDeltaMdeg dl.vMaxMdegps
    dl.accelMdegps2 dl.decelMdegps2 onCompletion
  let h := db.heading.drivePosition cfg nowUs s.headingXMdeg headingDeltaMdeg hl.vMaxMdegps
    hl.accelMdegps2 hl.decelMdegps2 onCompletion
  let (trjD, trjH) := stretchPair d.trajectory h.trajectory
  { db with distance := { d with trajectory := trjD }, heading := { h with trajectory := trjH } }

/-- `db_drivebase_drive_curve`. -/
def driveCurve (cfg : Settings) (db : Base) (nowUs : Nat) (imu : Imu) (radiusMm angleDeg : Int)
    (onCompletion : OnCompletion) : Base :=
  if radiusMm = 0 then db.turn cfg nowUs imu angleDeg 0 onCompletion
  else if angleDeg = 0 then { db with activeCommand := .none }
  else
    let dlAvgMm := toInt32 (((radiusMm * angleDeg * 355).tdiv 113).tdiv 180)
    let distDeltaMdeg := mmToMdeg dlAvgMm db.wheelDUm
    let headingDeltaMdeg := headingMdegToStateMdeg (angleDeg * 1000) db.wheelDUm db.axleTUm
    if distDeltaMdeg = 0 ∧ headingDeltaMdeg ≠ 0 then db.turn cfg nowUs imu angleDeg 0 onCompletion
    else if headingDeltaMdeg = 0 ∧ distDeltaMdeg ≠ 0 then
      db.driveStraight cfg nowUs imu dlAvgMm 0 onCompletion
    else if distDeltaMdeg = 0 ∧ headingDeltaMdeg = 0 then { db with activeCommand := .none }
    else db.driveBoth cfg nowUs imu distDeltaMdeg headingDeltaMdeg onCompletion

/-- `db_drivebase_drive_arc_distance`. -/
def driveArcDistance (cfg : Settings) (db : Base) (nowUs : Nat) (imu : Imu)
    (radiusMm distanceMm : Int) (onCompletion : OnCompletion) : Base :=
  if radiusMm = 0 then db.driveStraight cfg nowUs imu distanceMm 0 onCompletion
  else
    let angleMdeg := toInt32 ((distanceMm * 1000 * 180 * 113).tdiv (radiusMm * 355))
    db.driveCurve cfg nowUs imu radiusMm (angleMdeg.tdiv 1000) onCompletion

/-- `db_drivebase_drive_forever`. -/
def driveForever (db : Base) (nowUs : Nat) (imu : Imu) (speedMmps turnRateDps : Int) : Base :=
  let db := if db.activeCommand = .forever then db else db.latchUseGyro imu
  let s := db.aggState imu
  let vDist := mmpsToMdegps speedMmps db.wheelDUm
  let vHdg := toInt32 ((turnRateDps * 1000 * db.axleTUm).tdiv db.wheelDUm)
  { db with
    distance := db.distance.driveForever nowUs s.distanceXMdeg vDist
      (distanceLimits db.wheelDUm).accelMdegps2
    heading := db.heading.driveForever nowUs s.headingXMdeg vHdg
      (headingLimits db.wheelDUm db.axleTUm).accelMdegps2
    activeCommand := .forever }

/-- `db_drivebase_stop`: the drivebase, and what the motors are told at once. -/
def stop (db : Base) (nowUs : Nat) (imu : Imu) (onCompletion : OnCompletion) :
    Base × List (Side × Action) :=
  let s := db.aggState imu
  ({ db with
      activeCommand := .stop
      distance := db.distance.stop nowUs s.distanceXMdeg onCompletion
      heading := db.heading.stop nowUs s.headingXMdeg onCompletion },
    if onCompletion = .coast ∨ onCompletion = .coastSmart then applyBoth 0 .coast
    else if onCompletion = .brake ∨ onCompletion = .brakeSmart then applyBoth 0 .brake
    else [])

/-! ## Ticks -/

def ffSignWithHysteresis (vRefMdegps prev enter exit : Int) : Int :=
  if vRefMdegps ≥ enter then 1
  else if vRefMdegps ≤ -enter then -1
  else if abs32 vRefMdegps < exit then 0
  else prev

def applyBreakawayFloor (floor : Int) (st : FfState) (pre wheelErr : Int) (trajDone : Bool) :
    FfState × Int :=
  if floor = 0 ∨ trajDone = false ∨ st.breakawayConsumed = true then (st, pre)
  else
    let s : Int := if wheelErr > 3000 then 1 else if wheelErr < -3000 then -1 else 0
    if s = 0 then
      (if st.breakawaySign ≠ 0 then { st with breakawayConsumed := true } else st, pre)
    else if st.breakawaySign ≠ 0 ∧ s ≠ st.breakawaySign then
      ({ st with breakawayConsumed := true }, pre)
    else if (s > 0 ∧ pre < 0) ∨ (s < 0 ∧ pre > 0) then (st, pre)
    else if s > 0 ∧ pre < floor then ({ st with breakawaySign := s }, floor)
    else if s < 0 ∧ pre > -floor then ({ st with breakawaySign := s }, -floor)
    else (st, pre)

/-- The duty of one wheel: friction, breakaway and the battery's sag. -/
def wheelDuty (cfg : Settings) (st : FfState) (vRefMdegps cmd wheelErr vbatMv : Int)
    (trajDone : Bool) : FfState × Int :=
  let sign := ffSignWithHysteresis vRefMdegps st.signVHeld cfg.ffMotor.vHystEnterMdegps
    cfg.ffMotor.vHystExitMdegps
  let st := { st with signVHeld := sign }
  let st :=
    if trajDone then st else { st with breakawayConsumed := false, breakawaySign := 0 }
  let (st, floored) := applyBreakawayFloor cfg.ffMotor.terminalBreakaway st
    (cmd + sign * cfg.ffMotor.kS.tdiv 2) wheelErr trajDone
  let pre := clampI32 floored (-10000) 10000
  let vbatMv := if vbatMv < cfg.battery.minMv then cfg.battery.minMv else vbatMv
  (st, clampI32 ((pre * cfg.battery.nominalMv).tdiv vbatMv) (-10000) 10000)

def compose (cfg : Settings) (db : Base) (outD outH : AggregateOutput) (vbatMv : Int) :
    Base × List (Side × Action) :=
  let trajDone := outD.trajectoryDone && outH.trajectoryDone
  let (ffLeft, leftDuty) := wheelDuty cfg db.ffStateLeft (outD.refVMdegps - outH.refVMdegps)
    (outD.duty - outH.duty) (outD.posErrMdeg - outH.posErrMdeg) vbatMv trajDone
  let (ffRight, rightDuty) := wheelDuty cfg db.ffStateRight (outD.refVMdegps + outH.refVMdegps)
    (outD.duty + outH.duty) (outD.posErrMdeg + outH.posErrMdeg) vbatMv trajDone
  ({ db with ffStateLeft := ffLeft, ffStateRight := ffRight },
    [(.left, servoApply leftDuty .hold), (.right, servoApply rightDuty .hold)])

structure Reading where
  left : Servo := {}
  right : Servo := {}
  /-- A lost port is waiting to be reclaimed, when the motors are to be driven. -/
  reclaimPending : Bool := false
  /-- One is after they were. -/
  reclaimAfter : Bool := false
  vbatMv : Int := 7200
  deriving DecidableEq, Repr

/-- What both motors are told because an axis has ended passively; 0 when none has. -/
def propagate (outD outH : AggregateOutput) : OnCompletion :=
  if outD.actuation = .coast ∨ outH.actuation = .coast then .coast
  else if outD.actuation = .brake ∨ outH.actuation = .brake then .brake
  else 0

/-- What the motors are told, and the drivebase afterwards. -/
def actuate (cfg : Settings) (db : Base) (nowUs : Nat) (state : AggState) (reading : Reading)
    (outD outH : AggregateOutput) : Base × List (Side × Action) :=
  let propagated := propagate outD outH
  if reading.reclaimPending then (db, applyBoth 0 .coast)
  else if propagated ≠ 0 then
    ({ db with
        distance := db.distance.stop nowUs state.distanceXMdeg propagated
        heading := db.heading.stop nowUs state.headingXMdeg propagated },
      applyBoth 0 propagated)
  else
    let (db, actions) := db.compose cfg outD outH reading.vbatMv
    (db, actions ++ if reading.reclaimAfter then applyBoth 0 .coast else [])

/-- The end of a tick: the heading that is published, and whether the command is done. -/
def finish (db : Base) (outD outH : AggregateOutput) : Base :=
  let done := outD.done && outH.done
  { db with
    angleMdeg := db.rawHeadingMdeg - db.angleOriginMdeg
    done := done
    activeCommand := if done then .none else db.activeCommand }

/-- `db_drivebase_update`. -/
def update (cfg : Settings) (db : Base) (nowUs : Nat) (imu : Imu) (reading : Reading) :
    Base × List (Side × Action) :=
  let db := { db with servoL := reading.left, servoR := reading.right }
  let state := db.aggState imu
  let (distance, outD) :=
    db.distance.update cfg nowUs state.distanceXMdeg state.distanceVMdegps db.tickMs
  let (heading, outH) :=
    db.heading.update cfg nowUs state.headingXMdeg state.headingVMdegps db.tickMs
  let (db, actions) := actuate cfg { db with distance := distance, heading := heading } nowUs state
    reading outD outH
  (db.finish outD outH, actions)

/-! ## What is armed -/

theorem sameWay_stretchPair (d h : Trajectory) :
    Trajectory.SameWay d (stretchPair d h).1 ∧ Trajectory.SameWay h (stretchPair d h).2 := by
  simp only [stretchPair]
  split
  · refine ⟨.refl d, ?_⟩
    split
    · exact .refl h
    · split
      · next hok => exact (Trajectory.sameWay_stretchToTotal hok).1
      · exact .refl h
  · split
    · refine ⟨?_, .refl h⟩
      split
      · exact .refl d
      · split
        · next hok => exact (Trajectory.sameWay_stretchToTotal hok).1
        · exact .refl d
    · exact ⟨.refl d, .refl h⟩

/-- **A pair that is stretched takes the same time on both axes.** -/
theorem totalDtUs_stretchPair {d h : Trajectory} :
    stretchPair d h ≠ (d, h) →
      (stretchPair d h).1.totalDtUs = (stretchPair d h).2.totalDtUs := by
  simp only [stretchPair]
  split
  · split
    · exact fun hsame => absurd rfl hsame
    · split
      · next hok => exact fun _ => (Trajectory.sameWay_stretchToTotal hok).2.symm
      · exact fun hsame => absurd rfl hsame
  · split
    · split
      · exact fun hsame => absurd rfl hsame
      · split
        · next hok => exact fun _ => (Trajectory.sameWay_stretchToTotal hok).2
        · exact fun hsame => absurd rfl hsame
    · exact fun hsame => absurd rfl hsame

/-- `db_drivebase_set_use_gyro` takes a mode and finds that it is a new one. -/
def switchesGyro (db : Base) (mode : UInt8) : Bool :=
  (mode == useGyroNone || mode == useGyro3D) && db.activeCommand == .none &&
    db.useGyroRequested != mode

/-- The heading of a base that switches its gyro is reset, and nothing else of the axes changes. -/
theorem setUseGyro_axes (db : Base) (imu : Imu) (mode : UInt8) :
    (db.setUseGyro imu mode).distance = db.distance ∧
      (db.setUseGyro imu mode).heading =
        if db.switchesGyro mode then db.heading.reset else db.heading := by
  unfold setUseGyro switchesGyro
  by_cases hknown : mode ≠ useGyroNone ∧ mode ≠ useGyro3D
  · simp [hknown.1, hknown.2]
  · by_cases hactive : db.activeCommand ≠ .none
    · rw [if_neg hknown, if_pos hactive]
      simp [hactive]
    · rw [if_neg hknown, if_neg hactive]
      have hmode : (mode == useGyroNone || mode == useGyro3D) = true := by
        by_cases hnone : mode = useGyroNone
        · simp [hnone]
        · simpa [hnone] using hknown
      have hidle : (db.activeCommand == .none) = true := by simpa using hactive
      simp only [hmode, hidle, Bool.and_self, Bool.true_and]
      rw [apply_ite Base.distance, apply_ite Base.distance, apply_ite Base.distance,
        apply_ite Base.heading, apply_ite Base.heading, apply_ite Base.heading]
      simp only [ite_self, and_self]

theorem latchUseGyro_axes (db : Base) (imu : Imu) :
    (db.latchUseGyro imu).distance = db.distance ∧ (db.latchUseGyro imu).heading = db.heading := by
  unfold latchUseGyro
  simp only [apply_ite Base.distance, apply_ite Base.heading, ite_self, and_self]

/-! ## What a tick can do -/

variable {cfg : Settings} {db : Base} {nowUs : Nat} {imu : Imu} {reading : Reading}
  {outD outH : AggregateOutput}

/-- What the controllers are given in a tick. -/
def tickState (db : Base) (imu : Imu) (reading : Reading) : AggState :=
  { db with servoL := reading.left, servoR := reading.right }.aggState imu

def tickDistance (cfg : Settings) (db : Base) (nowUs : Nat) (imu : Imu) (reading : Reading) :
    Aggregate × AggregateOutput :=
  db.distance.update cfg nowUs (db.tickState imu reading).distanceXMdeg
    (db.tickState imu reading).distanceVMdegps db.tickMs

def tickHeading (cfg : Settings) (db : Base) (nowUs : Nat) (imu : Imu) (reading : Reading) :
    Aggregate × AggregateOutput :=
  db.heading.update cfg nowUs (db.tickState imu reading).headingXMdeg
    (db.tickState imu reading).headingVMdegps db.tickMs

/-- Only BRAKE is passed on, and only if neither axis says COAST. -/
theorem propagate_cases :
    (propagate outD outH = .brake ∧ outD.actuation ≠ .coast ∧ outH.actuation ≠ .coast ∧
      (outD.actuation = .brake ∨ outH.actuation = .brake)) ∨
    (propagate outD outH = 0 ∧ (outD.actuation = .coast ∨ outH.actuation = .coast ∨
      (outD.actuation ≠ .brake ∧ outH.actuation ≠ .brake))) := by
  unfold propagate
  split
  · next hcoast =>
    refine .inr ⟨rfl, ?_⟩
    rcases hcoast with hd | hh
    · exact .inl hd
    · exact .inr (.inl hh)
  · next hcoast =>
    rw [not_or] at hcoast
    split
    · next hbrake => exact .inl ⟨rfl, hcoast.1, hcoast.2, hbrake⟩
    · next hbrake => exact .inr ⟨rfl, .inr (.inr (not_or.mp hbrake))⟩

/-- **What a tick can do**: coast because of a lost port, brake because an axis has, or drive. -/
theorem update_cases :
    (reading.reclaimPending = true ∧
      (db.update cfg nowUs imu reading).1.distance = (db.tickDistance cfg nowUs imu reading).1 ∧
      (db.update cfg nowUs imu reading).1.heading = (db.tickHeading cfg nowUs imu reading).1 ∧
      (db.update cfg nowUs imu reading).2 = applyBoth 0 .coast) ∨
    (reading.reclaimPending = false ∧
      propagate (db.tickDistance cfg nowUs imu reading).2 (db.tickHeading cfg nowUs imu reading).2 =
        .brake ∧
      (db.update cfg nowUs imu reading).1.distance =
        (db.tickDistance cfg nowUs imu reading).1.stopPassive .brake .brake ∧
      (db.update cfg nowUs imu reading).1.heading =
        (db.tickHeading cfg nowUs imu reading).1.stopPassive .brake .brake ∧
      (db.update cfg nowUs imu reading).2 = applyBoth 0 .brake) ∨
    (reading.reclaimPending = false ∧
      propagate (db.tickDistance cfg nowUs imu reading).2 (db.tickHeading cfg nowUs imu reading).2 =
        0 ∧
      (db.update cfg nowUs imu reading).1.distance = (db.tickDistance cfg nowUs imu reading).1 ∧
      (db.update cfg nowUs imu reading).1.heading = (db.tickHeading cfg nowUs imu reading).1 ∧
      ∃ left right, (db.update cfg nowUs imu reading).2 =
        [(.left, .duty left), (.right, .duty right)] ++
          if reading.reclaimAfter then applyBoth 0 .coast else []) := by
  cases hpending : reading.reclaimPending with
  | true =>
    refine .inl ⟨rfl, ?_⟩
    simp only [update, actuate, finish, hpending, if_true]
    exact ⟨rfl, rfl, trivial⟩
  | false =>
    rcases @propagate_cases ((db.tickDistance cfg nowUs imu reading).2)
        ((db.tickHeading cfg nowUs imu reading).2) with ⟨hbrake, -⟩ | ⟨hnone, -⟩
    · refine .inr (.inl ⟨rfl, hbrake, ?_⟩)
      rw [tickDistance, tickHeading, tickState] at hbrake
      simp only [update, actuate, finish, hpending, hbrake, Bool.false_eq_true, if_false]
      exact ⟨rfl, rfl, rfl⟩
    · refine .inr (.inr ⟨rfl, hnone, ?_⟩)
      rw [tickDistance, tickHeading, tickState] at hnone
      simp only [update, actuate, finish, hpending, hnone, Bool.false_eq_true, if_false, ne_eq,
        not_true_eq_false]
      exact ⟨rfl, rfl, _, _, rfl⟩

end Base

/-! ## Runs -/

/-- The calls into a drivebase. The angle of an arc comes as a curve. -/
inductive Op where
  | reset (xL xR : Int)
  | setOrigin (angleMdeg : Int)
  | setUseGyro (mode : UInt8)
  | driveStraight (distanceMm speedMmps : Int) (onCompletion : OnCompletion)
  | turn (angleDeg turnRateDps : Int) (onCompletion : OnCompletion)
  | driveCurve (radiusMm angleDeg : Int) (onCompletion : OnCompletion)
  | driveArcDistance (radiusMm distanceMm : Int) (onCompletion : OnCompletion)
  | driveForever (speedMmps turnRateDps : Int)
  | stop (onCompletion : OnCompletion)
  | update (reading : Base.Reading)

/-- A call, with the time since the last one and what the gyro says. -/
structure Event where
  elapsedUs : Nat := 0
  imu : Imu := {}
  op : Op

structure State where
  db : Base
  nowUs : Nat
  deriving DecidableEq, Repr

/-- One call into the drivebase, at a time. -/
def Base.apply (cfg : Settings) (db : Base) (nowUs : Nat) (imu : Imu) :
    Op → Base × List (Side × Action)
  | .reset xL xR => (db.reset imu xL xR, [])
  | .setOrigin angleMdeg => (db.setOrigin imu angleMdeg, [])
  | .setUseGyro mode => (db.setUseGyro imu mode, [])
  | .driveStraight distanceMm speedMmps oc =>
    (db.driveStraight cfg nowUs imu distanceMm speedMmps oc, [])
  | .turn angleDeg turnRateDps oc => (db.turn cfg nowUs imu angleDeg turnRateDps oc, [])
  | .driveCurve radiusMm angleDeg oc => (db.driveCurve cfg nowUs imu radiusMm angleDeg oc, [])
  | .driveArcDistance radiusMm distanceMm oc =>
    (db.driveArcDistance cfg nowUs imu radiusMm distanceMm oc, [])
  | .driveForever speedMmps turnRateDps => (db.driveForever nowUs imu speedMmps turnRateDps, [])
  | .stop oc => db.stop nowUs imu oc
  | .update reading => db.update cfg nowUs imu reading

def machine (cfg : Settings) : Machine State Event (List (Side × Action)) where
  step s e :=
    let nowUs := s.nowUs + e.elapsedUs
    let (db, actions) := s.db.apply cfg nowUs e.imu e.op
    (⟨db, nowUs⟩, actions)

theorem step_machine (cfg : Settings) (s : State) (e : Event) :
    (machine cfg).step s e =
      (⟨(s.db.apply cfg (s.nowUs + e.elapsedUs) e.imu e.op).1, s.nowUs + e.elapsedUs⟩,
        (s.db.apply cfg (s.nowUs + e.elapsedUs) e.imu e.op).2) := by
  simp only [machine]

/-- A drivebase that has just been started. -/
def State.booted : State where
  db := { wheelDUm := 56000, axleTUm := 112000, tickMs := 2
          distance := .init .distance 2, heading := .init .heading 2 }
  nowUs := 0

theorem init_booted : Base.init 56000 112000 2 = .ok State.booted.db := rfl

/-!
## The motor ports and the wheels

`drivebase_motor.c` and `drivebase_servo.c`. A port is read, and told what to do, through its file.
A disconnect that is read from it, a read that fails and an `ioctl` that fails each arm a request to
take the port back. A wheel keeps its last trusted position, what its observer estimates of its
speed, and the duty it was last driven with.

The world answers every read and every `ioctl` as it likes.

* `Wheel.apply_passive` — a passive actuation is passed on, and leaves no duty.
-/

inductive Command where
  /-- `LEGOSENSOR_SET_PWM`. -/
  | setPwm (duty : Int)
  /-- `LEGOSENSOR_MOTOR_L_COAST` and `LEGOSENSOR_MOTOR_R_COAST`. -/
  | coast
  | brake
  deriving DecidableEq, Repr

def Command.passive : Command → Bool
  | .setPwm _ => false
  | .coast | .brake => true

/-- What a port is told to do an action; a motor may be mounted the other way round. -/
def Action.command (sign : Int) : Action → Command
  | .coast => .coast
  | .brake => .brake
  | .duty d => .setPwm (clampI32 (d * sign) (-10000) 10000)

/-- What `ioctl` returns, with `errno`, after the commands issued so far. -/
abbrev Answers := List (Side × Command) → Side → Command → Int × Int

/-- The statics of `drivebase_motor.c`, and the commands issued in this tick. -/
structure Motors where
  initialised : Bool := true
  reclaimRequest : Side → Bool := fun _ => false
  issued : List (Side × Command) := []

/-- A `struct lump_sample_s`, with its payload decoded. -/
structure LumpSample where
  timestampUs : Nat
  len : Nat
  typeId : UInt8
  modeId : UInt8
  value : Int
  deriving DecidableEq, Repr

/-- What `read` returns; `errno` is positive. -/
inductive Read where
  | failed (errno : Int)
  | batch (samples : List LumpSample)
  deriving DecidableEq, Repr

/-- What `drivebase_motor_drain` returns. -/
inductive Drained where
  | sample (rawValue : Int) (timestampUs : Nat)
  | again
  | disconnected
  | failed (errno : Int)
  deriving DecidableEq, Repr

namespace Motors

def ENODEV : Int := 19
def EAGAIN : Int := 11
def ENODATA : Int := 61

def posMode : UInt8 := 2

/-- `db_side_sign`. -/
def sideSign (invertLeft : Bool) : Side → Int
  | .left => if invertLeft then -1 else 1
  | .right => 1

/-- `drivebase_motor_request_reclaim`. -/
def requestReclaim (m : Motors) (side : Side) : Motors :=
  { m with reclaimRequest := Function.update m.reclaimRequest side true }

/-- `drivebase_motor_reclaim_pending`. -/
def reclaimPending (m : Motors) : Bool := m.reclaimRequest .left || m.reclaimRequest .right

/-- `drivebase_motor_drain`, of a port that is initialised. -/
def drain (invertLeft : Bool) (m : Motors) (side : Side) : Read → Motors × Drained
  | .failed errno =>
    (m, if errno = EAGAIN ∨ errno = ENODATA then .again else .failed errno)
  | .batch samples =>
    if samples.any fun s => s.len == 0 && s.typeId == 0 then (m.requestReclaim side, .disconnected)
    else
      match (samples.filter fun s => s.len != 0 && s.modeId == posMode).getLast? with
      | none => (m, .again)
      | some latest => (m, .sample (latest.value * sideSign invertLeft side) latest.timestampUs)

theorem drain_spec (invertLeft : Bool) (m : Motors) (side : Side) (read : Read) :
    (m.drain invertLeft side read).1.initialised = m.initialised ∧
      (m.drain invertLeft side read).1.issued = m.issued := by
  cases read with
  | failed errno => exact ⟨rfl, rfl⟩
  | batch samples =>
    simp only [drain]
    split
    · exact ⟨rfl, rfl⟩
    · split <;> exact ⟨rfl, rfl⟩

/-- An `ioctl`; one that fails arms the request. -/
def ioctl (answers : Answers) (m : Motors) (side : Side) (command : Command) : Motors × Int :=
  let (ret, errno) := answers m.issued side command
  let m := { m with issued := m.issued ++ [(side, command)] }
  if ret < 0 then (m.requestReclaim side, -errno) else (m, 0)

/-- `drivebase_motor_set_duty`. -/
def setDuty (invertLeft : Bool) (answers : Answers) (m : Motors) (side : Side) (duty : Int) :
    Motors × Int :=
  if !m.initialised then (m, -ENODEV)
  else m.ioctl answers side (.setPwm (clampI32 (duty * sideSign invertLeft side) (-10000) 10000))

/-- `drivebase_motor_coast`. -/
def coast (answers : Answers) (m : Motors) (side : Side) : Motors × Int :=
  if !m.initialised then (m, -ENODEV) else m.ioctl answers side .coast

/-- `drivebase_motor_brake`. -/
def brake (answers : Answers) (m : Motors) (side : Side) : Motors × Int :=
  if !m.initialised then (m, -ENODEV) else m.ioctl answers side .brake

end Motors

/-- `struct db_servo_s`, whose side is its place in the drivebase. The observer is left out; what it
estimates comes with each tick. -/
structure Wheel where
  xActualMdeg : Int := 0
  vEstimateMdegps : Int := 0
  tLastUs : Nat := 0
  lastAppliedDuty : Int := 0
  lastActuation : OnCompletion := .coast
  rejectCandidateMdeg : Int := 0
  candidateRun : Nat := 0

namespace Wheel

def glitchMdeg : Int := 5000000
def agreeMdeg : Int := 100000
def rebaseRun : Nat := 10

/-- The glitch gate of `db_servo_update`. -/
def accept (w : Wheel) (xNew : Int) : Wheel :=
  if (xNew - w.xActualMdeg).natAbs ≤ glitchMdeg then
    { w with candidateRun := 0, xActualMdeg := xNew }
  else
    let run :=
      if w.candidateRun > 0 ∧ (xNew - w.rejectCandidateMdeg).natAbs ≤ agreeMdeg then
        min 255 (w.candidateRun + 1)
      else 1
    let w := { w with candidateRun := run, rejectCandidateMdeg := xNew }
    if run ≥ rebaseRun then { w with candidateRun := 0, xActualMdeg := xNew } else w

/-- `db_servo_update`. -/
def update (invertLeft : Bool) (side : Side) (w : Wheel) (m : Motors) (nowUs : Nat) (read : Read)
    (vEstimateMdegps : Int) : Wheel × Motors × Int :=
  if !m.initialised then (w, m, -Motors.ENODEV)
  else
    let (m, drained) := m.drain invertLeft side read
    let (w, m) :=
      match drained with
      | .sample rawValue _ => (w.accept (degToMdeg rawValue), m)
      | .again => (w, m)
      | .disconnected | .failed _ => (w, m.requestReclaim side)
    ({ w with tLastUs := nowUs, vEstimateMdegps := vEstimateMdegps }, m, 0)

/-- `db_servo_apply`. -/
def apply (invertLeft : Bool) (answers : Answers) (side : Side) (w : Wheel) (m : Motors)
    (duty : Int) (actuation : OnCompletion) : Wheel × Motors :=
  if !m.initialised then (w, m)
  else if actuation = .coast ∨ actuation = .coastSmart then
    ({ w with lastAppliedDuty := 0, lastActuation := .coast }, (m.coast answers side).1)
  else if actuation = .brake ∨ actuation = .brakeSmart then
    ({ w with lastAppliedDuty := 0, lastActuation := .brake }, (m.brake answers side).1)
  else
    let d := clampI32 duty (-10000) 10000
    let (m, rc) := m.setDuty invertLeft answers side d
    ({ w with lastAppliedDuty := if rc = 0 then d else 0, lastActuation := .hold }, m)

/-- `db_servo_get_status`. -/
def getStatus (w : Wheel) : Servo where
  actXMdeg := w.xActualMdeg
  actVMdegps := w.vEstimateMdegps

/-! ### What is passed on to a motor -/

variable {invertLeft : Bool} {answers : Answers} {side : Side} {w : Wheel} {m : Motors} {duty : Int}
  {actuation : OnCompletion}

theorem update_spec (h : m.initialised = true) (nowUs : Nat) (read : Read) (v : Int) :
    ((w.update invertLeft side m nowUs read v).2.1.initialised = true ∧
      (w.update invertLeft side m nowUs read v).2.1.issued = m.issued) ∧
      (w.update invertLeft side m nowUs read v).2.2 = 0 := by
  obtain ⟨hinit, hissued⟩ := Motors.drain_spec invertLeft m side read
  simp only [update, h, Bool.not_true, Bool.false_eq_true, if_false, and_true]
  split <;> exact ⟨hinit.trans h, hissued⟩

theorem apply_spec (h : m.initialised = true) :
    (w.apply invertLeft answers side m duty actuation).2.initialised = true ∧
      (w.apply invertLeft answers side m duty actuation).2.issued =
        m.issued ++
          [(side, (servoApply duty actuation).command (Motors.sideSign invertLeft side))] := by
  have hioctl : ∀ c, (m.ioctl answers side c).1.initialised = true ∧
      (m.ioctl answers side c).1.issued = m.issued ++ [(side, c)] := by
    intro c
    simp only [Motors.ioctl]
    split <;> exact ⟨h, rfl⟩
  simp only [apply, h, Motors.coast, Motors.brake, Motors.setDuty, Action.command, servoApply,
    Bool.not_true, Bool.false_eq_true, if_false]
  split
  · exact hioctl .coast
  · split <;> exact hioctl _

/-- **A passive actuation** is passed on, and leaves no duty. -/
theorem apply_passive (h : m.initialised = true) (hpassive : actuation.Coasts ∨ actuation.Brakes) :
    ((servoApply duty actuation).command (Motors.sideSign invertLeft side)).passive = true ∧
      (w.apply invertLeft answers side m duty actuation).1.lastAppliedDuty = 0 := by
  simp only [apply, h, servoApply, Bool.not_true, Bool.false_eq_true, if_false]
  rcases hpassive with hcoasts | hbrakes
  · unfold OnCompletion.Coasts at hcoasts
    rw [if_pos hcoasts, if_pos hcoasts]
    exact ⟨rfl, rfl⟩
  · have hnot := hbrakes.not_coasts
    unfold OnCompletion.Coasts at hnot
    unfold OnCompletion.Brakes at hbrakes
    rw [if_neg hnot, if_neg hnot, if_pos hbrakes, if_pos hbrakes]
    exact ⟨rfl, rfl⟩

end Wheel

end Brickwright.Drivebase
