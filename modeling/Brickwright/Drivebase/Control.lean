import Mathlib.Algebra.Ring.Int.Defs

/-!
# The position controller of the drivebase

Its angles and lengths, its settings, and one update.
-/

/-!
## Angles and lengths of the drivebase

The integer arithmetic of `drivebase_angle.h`: wheel angles in thousandths of a degree, lengths in
millimetres, the geometry in micrometres, and π as 355/113. Signed arithmetic is on unbounded
integers; the conversions of the source that may change a value are written out.
-/

namespace Brickwright.Drivebase

def int32Max : Int := 2147483647
def int32Min : Int := -2147483648

/-- `(int32_t)v`. -/
def toInt32 (v : Int) : Int := Int.bmod v 4294967296

theorem toInt32_of_fits {v : Int} (h : int32Min ≤ v ∧ v ≤ int32Max) : toInt32 v = v := by
  unfold int32Min int32Max at h
  exact Int.bmod_eq_of_le_mul_two (by omega) (by omega)

theorem toInt32_range (v : Int) : int32Min ≤ toInt32 v ∧ toInt32 v ≤ int32Max := by
  have hlow := @Int.le_bmod v 4294967296 (by decide)
  have hhigh := @Int.bmod_lt v 4294967296 (by decide)
  unfold toInt32 int32Min int32Max
  omega

/-- `(int64_t)v`. -/
def toInt64 (v : Int) : Int := Int.bmod v 18446744073709551616

theorem toInt64_of_fits {v : Int}
    (h : -9223372036854775808 ≤ v ∧ v ≤ 9223372036854775807) : toInt64 v = v := by
  apply Int.bmod_eq_of_le_mul_two <;> omega

/-- `(uint64_t)v`. -/
def toUint64 (v : Int) : Nat := (v % 18446744073709551616).toNat

/-- `(uint32_t)v`. -/
def toUint32 (v : Int) : Nat := (v % 4294967296).toNat

def clampI32 (v lo hi : Int) : Int := if v < lo then lo else if v > hi then hi else v

def abs32 (v : Int) : Int := if v < 0 then -v else v

def degToMdeg (deg : Int) : Int := deg * 1000

/-- Division to the nearest, away from zero in the middle. -/
def divRound (num den : Int) : Int :=
  if num ≥ 0 then (num + den.tdiv 2).tdiv den else (num - den.tdiv 2).tdiv den

def mdegToMm (mdeg : Int) (wheelDUm : Nat) : Int :=
  let piMdeg := divRound (mdeg * 355) 113
  toInt32 (divRound (piMdeg * wheelDUm) 360000000)

def mmToMdeg (mm : Int) (wheelDUm : Nat) : Int :=
  if wheelDUm = 0 then 0
  else
    let piMm := divRound (mm * 360000000) wheelDUm
    divRound (piMm * 113) 355

def mmpsToMdegps (mmps : Int) (wheelDUm : Nat) : Int :=
  clampI32 (mmToMdeg mmps wheelDUm) int32Min int32Max

/-- A heading of the robot as half the difference of the wheel angles. -/
def headingMdegToStateMdeg (headingMdeg : Int) (wheelDUm axleTUm : Nat) : Int :=
  if wheelDUm = 0 then 0 else (headingMdeg * axleTUm).tdiv wheelDUm

/-- The heading, from the difference of the wheels' ways. -/
def diffMmToHeadingMdeg (diffMm : Int) (axleTUm : Nat) : Int :=
  if axleTUm = 0 then 0
  else
    let piDiff := divRound (diffMm * 180000000) axleTUm
    toInt32 (divRound (piDiff * 113) 355)

/-!
## Settings of the drivebase

`drivebase_settings.c`. The values may be overridden from a file before the control loop starts and
are frozen then, so a running drivebase is given them once (`Settings`). A negative tolerance or
window stands for a derived one.
-/

/-- `enum drivebase_on_completion_e`, as the byte that users send. -/
abbrev OnCompletion := UInt8

namespace OnCompletion

def coast : OnCompletion := 0
def brake : OnCompletion := 1
def hold : OnCompletion := 2
def continue_ : OnCompletion := 3
def coastSmart : OnCompletion := 4
def brakeSmart : OnCompletion := 5

def Coasts (oc : OnCompletion) : Prop := oc = .coast ∨ oc = .coastSmart

def Brakes (oc : OnCompletion) : Prop := oc = .brake ∨ oc = .brakeSmart

instance (oc : OnCompletion) : Decidable oc.Coasts := inferInstanceAs (Decidable (_ ∨ _))

instance (oc : OnCompletion) : Decidable oc.Brakes := inferInstanceAs (Decidable (_ ∨ _))

theorem coast_ne_brake : OnCompletion.coast ≠ OnCompletion.brake := by decide

theorem Brakes.not_coasts {oc : OnCompletion} (h : oc.Brakes) : ¬oc.Coasts := by
  rcases h with rfl | rfl <;> decide

end OnCompletion

inductive Axis where
  | distance
  | heading
  deriving DecidableEq, Repr

/-- `struct db_servo_gains_s`. -/
structure Gains where
  kpPos : Int
  kiPos : Int
  kdPos : Int
  kpSpeed : Int
  kiSpeed : Int
  deadbandMdeg : Int
  outMin : Int
  outMax : Int
  deriving DecidableEq, Repr

/-- `struct db_completion_settings_s`. -/
structure Completion where
  posToleranceMdeg : Int
  speedToleranceMdegps : Int
  smartContinueWindowMdeg : Int
  doneWindowMs : Nat
  smartPassiveHoldMs : Nat
  deriving DecidableEq, Repr

/-- `struct db_ff_axis_gains_s`. -/
structure FfAxis where
  kV : Int
  kA : Int
  deriving DecidableEq, Repr

/-- `struct db_ff_motor_friction_s`. -/
structure Friction where
  kS : Int
  vHystEnterMdegps : Int
  vHystExitMdegps : Int
  terminalBreakaway : Int
  deriving DecidableEq, Repr

/-- `struct db_battery_settings_s`. -/
structure Battery where
  nominalMv : Int
  minMv : Int
  deriving DecidableEq, Repr

/-- `struct db_traj_limits_s`. -/
structure Limits where
  vMaxMdegps : Int
  accelMdegps2 : Int
  decelMdegps2 : Int
  deriving DecidableEq, Repr

structure Settings where
  gains : Axis → Gains
  completion : Axis → Completion
  ffAxis : Axis → FfAxis
  ffMotor : Friction
  battery : Battery

namespace Settings

def defaults : Settings where
  gains
    | .distance => ⟨50, 5, 0, 5, 0, 3000, -10000, 10000⟩
    | .heading => ⟨50, 15, 0, 5, 0, 3000, -8000, 8000⟩
  completion _ := ⟨-1, 30000, -1, 50, 100⟩
  ffAxis
    | .distance => ⟨9, 0⟩
    | .heading => ⟨6, 0⟩
  ffMotor := ⟨700, 5000, 1000, 2600⟩
  battery := ⟨7200, 6000⟩

def derivePosToleranceMdeg (kpPos : Int) : Int :=
  let derived := ((400 : Int) * 1000).tdiv kpPos
  if derived > 1000 then derived else 1000

/-- `db_settings_completion_axis`. -/
def completionAxis (cfg : Settings) (axis : Axis) : Completion :=
  let src := cfg.completion axis
  { src with
    posToleranceMdeg :=
      if src.posToleranceMdeg < 0 then derivePosToleranceMdeg (cfg.gains axis).kpPos
      else src.posToleranceMdeg
    smartContinueWindowMdeg :=
      if src.smartContinueWindowMdeg < 0 then 6000 else src.smartContinueWindowMdeg }

end Settings

/-- The default speed of a wheel in mm/s. -/
def driveMmps (wheelDUm : Nat) : Int := toInt32 ((wheelDUm + 500) % 4294967296 / 1000 : Nat) * 4

/-- `db_settings_distance_limits`. -/
def distanceLimits (wheelDUm : Nat) : Limits :=
  let vMax := mmpsToMdegps (driveMmps wheelDUm) wheelDUm
  ⟨vMax, vMax * 4, vMax * 4⟩

/-- `db_settings_heading_limits`. -/
def headingLimits (wheelDUm axleTUm : Nat) : Limits :=
  let vWheel := mmpsToMdegps (driveMmps wheelDUm) wheelDUm
  let vHeading := if axleTUm = 0 then 0 else (vWheel * wheelDUm).tdiv axleTUm
  let vHeading := if vHeading > int32Max then int32Max else vHeading
  ⟨toInt32 vHeading, toInt32 (vHeading * 4), toInt32 (vHeading * 4)⟩

/-!
## The position controller

`drivebase_control.c`: a PID controller with anti-windup and the end of a move. A move that is done
(`done`) is over in the way its `on_completion` says. The passive ways latch: from then on the
controller gives no duty and repeats the actuation it latched, until it is reset.

`update_cases` says what one update can do to the latch.
-/

/-- `struct db_pid_state_s`. -/
structure Pid where
  iAcc : Int := 0
  prevPosErrMdeg : Int := 0
  paused : Bool := false
  outputSaturatedHigh : Bool := false
  outputSaturatedLow : Bool := false
  doneStreakMs : Nat := 0
  done : Bool := false
  smartHoldStreakMs : Nat := 0
  smartHoldActive : Bool := false
  smartHoldExpired : Bool := false
  latchedPassiveDone : Bool := false
  latchedActuation : OnCompletion := 0
  deriving DecidableEq, Repr

/-- `struct db_pid_input_s`. -/
structure PidInput where
  refXMdeg : Int
  refVMdegps : Int
  actXMdeg : Int
  actVMdegps : Int
  dtMs : Nat
  gains : Gains
  completion : Completion
  dutyFf : Int
  trajectoryDone : Bool
  onCompletion : OnCompletion

/-- `struct db_pid_output_s`. -/
structure PidOutput where
  duty : Int
  actuation : OnCompletion
  done : Bool
  deriving DecidableEq, Repr

namespace Pid

/-- `db_pid_reset`. -/
def reset : Pid := {}

/-- `db_pid_pause`. -/
def pause (st : Pid) (paused : Bool) : Pid :=
  if paused then { st with paused := true }
  else { st with paused := false, latchedPassiveDone := false, latchedActuation := 0 }

/-- `db_pid_stop_passive`. -/
def stopPassive : Pid := { reset with paused := true, done := true }

def shouldFreezeIntegrator (st : Pid) (g : Gains) (posErr : Int) (satHigh satLow : Bool) : Bool :=
  st.paused || decide (abs32 posErr ≤ g.deadbandMdeg) || (satHigh && decide (posErr > 0)) ||
    (satLow && decide (posErr < 0))

def integrate (st : Pid) (inp : PidInput) (posErr speedErr : Int) : Int :=
  let iAcc := st.iAcc + (inp.gains.kiPos * posErr * inp.dtMs).tdiv 1000 +
    (inp.gains.kiSpeed * speedErr * inp.dtMs).tdiv 1000
  let iClip := inp.gains.outMax * 256
  let iAcc := if iAcc > iClip then iClip else iAcc
  if iAcc < -iClip then -iClip else iAcc

/-- The duty, and the controller with its integrator and error brought up to date. -/
def control (st : Pid) (inp : PidInput) (posErr speedErr : Int) : Pid × Int :=
  let pTerm := (inp.gains.kpPos * posErr).tdiv 1000
  let dTerm :=
    if inp.dtMs > 0 then (inp.gains.kdPos * (posErr - st.prevPosErrMdeg)).tdiv inp.dtMs else 0
  let kpv := (inp.gains.kpSpeed * speedErr).tdiv 1000
  let outUnsat := pTerm + dTerm + kpv + st.iAcc.tdiv 256 + inp.dutyFf
  let satHigh := decide (outUnsat > inp.gains.outMax)
  let satLow := decide (outUnsat < inp.gains.outMin)
  ({ st with
      iAcc :=
        if st.shouldFreezeIntegrator inp.gains posErr satHigh satLow then st.iAcc
        else st.integrate inp posErr speedErr
      prevPosErrMdeg := posErr
      outputSaturatedHigh := satHigh
      outputSaturatedLow := satLow },
    clampI32 outUnsat inp.gains.outMin inp.gains.outMax)

/-- The move is done when its trajectory has ended and the errors have been small for a while. -/
def bookkeep (st : Pid) (inp : PidInput) (posErr speedErr : Int) : Pid :=
  if inp.trajectoryDone ∧ abs32 posErr ≤ inp.completion.posToleranceMdeg ∧
      abs32 speedErr ≤ inp.completion.speedToleranceMdegps then
    let streak := (st.doneStreakMs + inp.dtMs) % 4294967296
    { st with
      doneStreakMs := streak
      done := st.done || decide (streak ≥ inp.completion.doneWindowMs) }
  else { st with doneStreakMs := 0, done := false }

def latch (st : Pid) (actuation : OnCompletion) : Pid :=
  { st.pause true with latchedPassiveDone := true, latchedActuation := actuation }

/-- The hold of the SMART ways, one update further. -/
def smartHold (st : Pid) (inp : PidInput) : Pid :=
  let st :=
    if !st.smartHoldActive && !st.smartHoldExpired then
      { st with smartHoldActive := true, smartHoldStreakMs := 0 }
    else st
  if st.smartHoldActive then
    let streak := (st.smartHoldStreakMs + inp.dtMs) % 4294967296
    if streak ≥ inp.completion.smartPassiveHoldMs then
      { st with smartHoldStreakMs := streak, smartHoldActive := false, smartHoldExpired := true }
    else { st with smartHoldStreakMs := streak }
  else st

/-- What becomes of a move that is done. -/
def arbitrate (st : Pid) (inp : PidInput) (duty : Int) : Pid × PidOutput :=
  if st.done then
    if inp.onCompletion = .coast then (st.latch .coast, ⟨0, .coast, true⟩)
    else if inp.onCompletion = .brake then (st.latch .brake, ⟨0, .brake, true⟩)
    else if inp.onCompletion = .coastSmart ∨ inp.onCompletion = .brakeSmart then
      let st := st.smartHold inp
      if st.smartHoldExpired then
        let actuation := if inp.onCompletion = .brakeSmart then .brake else .coast
        (st.latch actuation, ⟨0, actuation, true⟩)
      else (st, ⟨duty, .hold, true⟩)
    else (st, ⟨duty, .hold, true⟩)
  else (st, ⟨duty, .hold, false⟩)

/-- `db_pid_update`. -/
def update (st : Pid) (inp : PidInput) : Pid × PidOutput :=
  if st.latchedPassiveDone then (st, ⟨0, st.latchedActuation, true⟩)
  else
    let posErr := clampI32 (inp.refXMdeg - inp.actXMdeg) int32Min int32Max
    let speedErr := inp.refVMdegps - inp.actVMdegps
    let (st, duty) := st.control inp posErr speedErr
    (st.bookkeep inp posErr speedErr).arbitrate inp duty

/-! ### The latch -/

variable {st : Pid} {inp : PidInput}

theorem update_of_latched (h : st.latchedPassiveDone = true) :
    st.update inp = (st, ⟨0, st.latchedActuation, true⟩) := by
  rw [update, if_pos h]

theorem latched_smartHold (st : Pid) (inp : PidInput) :
    (st.smartHold inp).latchedPassiveDone = st.latchedPassiveDone := by
  simp only [smartHold]
  split <;> split <;> try split
  all_goals rfl

theorem bookkeep_done {posErr speedErr : Int}
    (h : (st.bookkeep inp posErr speedErr).done = true) : inp.trajectoryDone = true := by
  unfold bookkeep at h
  split at h
  · next hsmall => exact hsmall.1
  · cases h

theorem latched_bookkeep (st : Pid) (inp : PidInput) (posErr speedErr : Int) :
    (st.bookkeep inp posErr speedErr).latchedPassiveDone = st.latchedPassiveDone := by
  unfold bookkeep
  split <;> rfl

/-- A controller gives up its duty for good. -/
structure Latches (st : Pid) (out : PidOutput) (actuation : OnCompletion) : Prop where
  latched : st.latchedPassiveDone = true
  latchedActuation : st.latchedActuation = actuation
  actuation : out.actuation = actuation
  duty : out.duty = 0

theorem arbitrate_cases (hlatched : st.latchedPassiveDone = false) (duty : Int) :
    ((st.arbitrate inp duty).1.latchedPassiveDone = false ∧
      (st.arbitrate inp duty).2.actuation = .hold) ∨
    (st.done = true ∧ ((inp.onCompletion = .coast ∨ inp.onCompletion = .coastSmart) ∧
        Latches (st.arbitrate inp duty).1 (st.arbitrate inp duty).2 .coast ∨
      (inp.onCompletion = .brake ∨ inp.onCompletion = .brakeSmart) ∧
        Latches (st.arbitrate inp duty).1 (st.arbitrate inp duty).2 .brake)) := by
  unfold arbitrate
  split
  · next hdone =>
    split
    · next hcoast => exact .inr ⟨hdone, .inl ⟨.inl hcoast, ⟨rfl, rfl, rfl, rfl⟩⟩⟩
    · split
      · next hbrake => exact .inr ⟨hdone, .inr ⟨.inl hbrake, ⟨rfl, rfl, rfl, rfl⟩⟩⟩
      · split
        · next hsmart =>
          simp only
          split
          · by_cases hbrake : inp.onCompletion = .brakeSmart
            · simp only [if_pos hbrake]
              exact .inr ⟨hdone, .inr ⟨.inr hbrake, ⟨rfl, rfl, rfl, rfl⟩⟩⟩
            · simp only [if_neg hbrake]
              have hcoast := hsmart.resolve_right hbrake
              exact .inr ⟨hdone, .inl ⟨.inr hcoast, ⟨rfl, rfl, rfl, rfl⟩⟩⟩
          · exact .inl ⟨(latched_smartHold st inp).trans hlatched, rfl⟩
        · exact .inl ⟨hlatched, rfl⟩
  · exact .inl ⟨hlatched, rfl⟩

/-- **What an update can do**: drive on, or latch at the end of the trajectory, the way the move
says. -/
theorem update_cases (hlatched : st.latchedPassiveDone = false) :
    ((st.update inp).1.latchedPassiveDone = false ∧ (st.update inp).2.actuation = .hold) ∨
    (inp.trajectoryDone = true ∧ ((inp.onCompletion = .coast ∨ inp.onCompletion = .coastSmart) ∧
        Latches (st.update inp).1 (st.update inp).2 .coast ∨
      (inp.onCompletion = .brake ∨ inp.onCompletion = .brakeSmart) ∧
        Latches (st.update inp).1 (st.update inp).2 .brake)) := by
  rw [update, if_neg (by simp [hlatched])]
  generalize clampI32 (inp.refXMdeg - inp.actXMdeg) int32Min int32Max = posErr
  generalize inp.refVMdegps - inp.actVMdegps = speedErr
  have hbookkeep : (((st.control inp posErr speedErr).1.bookkeep inp posErr
      speedErr).latchedPassiveDone) = false := by
    rw [latched_bookkeep]
    exact hlatched
  rcases (@arbitrate_cases _ inp) hbookkeep (st.control inp posErr speedErr).2 with
    hhold | ⟨hdone, hlatch⟩
  · exact .inl hhold
  · exact .inr ⟨bookkeep_done hdone, hlatch⟩

end Pid

end Brickwright.Drivebase
