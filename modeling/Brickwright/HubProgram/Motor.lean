import Mathlib.Data.UInt
import Brickwright.Bits.Checked

/-!
# The motor controller (`apps/hubprogram/motor.c`)

The speed loop of a motor: a ramped reference and a model that follows it, feed-forward from the
model, and a proportional and an integral part on the difference to the encoder. Positions are in
thousandths of a degree, speeds in degrees per second, the duty is in ten thousandths of full scale.

Every operation on an `int64_t` or `int32_t` is checked, and a call that overflows, divides by zero
or leaves the window of past positions has no value.
-/

namespace Brickwright.HubProgram.Motor

open Checked

def speedWindow : Nat := 2
def ffNum : Int := 10010
def ffDen : Int := 1055
def tauMs : Int := 53
def tauMMs : Int := 50
def kp : Int := 8
def ki : Int := 55
def integrateBelow : Int := 50
def accel : Int := 11100
def decel : Int := 7400
def nominalMv : Int := 7200
def supplyMinMv : Int := 5500
def supplyMaxMv : Int := 9000
def dutyMax : Int := 10000
def integralMax : Int := (dutyMax * 1000).tdiv ki

/-- `struct bw_motor_control`. -/
structure Control where
  requested : Int := 0
  reference : Int := 0
  duty : Int := 0
  windowSpeed : Int := 0
  target : Int := 0
  integral : Int := 0
  model : Int := 0
  modelPrevious : Int := 0
  acceleration : Int := 0
  lastPosition : Int := 0
  windowPosition : List Int := List.replicate speedWindow 0
  windowTime : List UInt64 := List.replicate speedWindow 0
  last : UInt64 := 0
  positioning : Bool := false
  active : Bool := false
  settled : Nat := 0
  timed : Bool := false
  windowFill : Nat := 0
  deriving DecidableEq, Repr

def clamp (v low high : Int) : Int := if v < low then low else if v > high then high else v

/-- `(int64_t)` of a `uint64_t`. -/
def toInt64 (t : UInt64) : Int := t.toInt64.toInt

/-! ## Commands -/

def bwMotorSpeed (m : Control) (speed : Int) : Control :=
  let m := if m.active then m else {}
  { m with requested := speed, positioning := false, active := true, settled := 0 }

def bwMotorPosition (m : Control) (pos delta speed : Int) : Option Control := do
  let m := if m.active then m else {}
  let target ← int64 (pos + (← int64 (delta * 1000)))
  some { m with target, requested := speed, positioning := true, active := true, settled := 0 }

/-! ## The step -/

/-- The battery voltage the output is scaled by. -/
def supplyOf (supplyMv : Int) : Int :=
  if supplyMv ≥ supplyMinMv ∧ supplyMv ≤ supplyMaxMv then supplyMv else nominalMv

/-- `limit`: full scale in duty at the nominal voltage. -/
def fullScale (supply : Int) : Option Int := do
  quot (← int64 (dutyMax * supply)) nominalMv

/-- `dt`, before it is capped. -/
def elapsed (m : Control) (now : UInt64) : UInt64 :=
  if m.timed then if now > m.last then now - m.last else 0 else 10

/-- The clock of the controller, brought to `now`. -/
def arrive (m : Control) (now : UInt64) (pos : Int) : Control :=
  let m' := if m.timed then m else { m with lastPosition := pos }
  let m' := if ¬ m.timed ∨ now > m.last then { m' with last := now } else m'
  { m' with timed := true }

/-- `desired`, the speed asked for; nothing when the motor has settled at its target. -/
def approach (m : Control) (dt : UInt64) (pos speed : Int) : Option (Option Int × Control) :=
  if m.positioning then do
    let remaining ← int64 (m.target - pos)
    let far ← quot (← int64 (remaining * 2)) 1000
    let desired ← int32 (clamp far (← int32 (- m.requested)) m.requested)
    if remaining ≥ -1000 ∧ remaining ≤ 1000 ∧ speed ≥ -20 ∧ speed ≤ 20 then
      if dt ≠ 0 then
        let m := { m with settled := m.settled + 1 }
        if m.settled ≥ 3 then some (none, { m with active := false })
        else some (some desired, m)
      else some (some desired, m)
    else some (some desired, { m with settled := 0 })
  else some (some m.requested, m)

/-- `rate`: a reference on its way to zero falls at its own rate. -/
def rateTo (desired ref : Int) : Int :=
  if (ref > 0 ∧ desired < ref) ∨ (ref < 0 ∧ desired > ref) then decel else accel

/-- The ramp of the reference, and the model behind it. -/
def follow (m : Control) (desired dt : Int) : Option Control := do
  let ref := m.reference
  let step ← quot (← int64 (rateTo desired ref * dt)) 1000
  let reference ← int32 (clamp desired (← int64 (ref - step)) (← int64 (ref + step)))
  let gap ← int64 ((← int64 (reference * 1000)) - m.model)
  let model ← int64 (m.model + (← quot (← int64 (gap * dt)) (← int64 (tauMMs + dt))))
  let acceleration ← quot (← int64 (model - m.model)) dt
  some { m with reference, modelPrevious := m.model, model, acceleration }

/-- `candidate`: what the integral would be. It advances while the model is steady. -/
def advance (m : Control) (dt pos : Int) : Option Int :=
  if m.acceleration ≤ integrateBelow ∧ m.acceleration ≥ - integrateBelow then do
    let way ← quot (← int64 (m.modelPrevious * dt)) 1000
    int64 (m.integral + (← int64 (way - (← int64 (pos - m.lastPosition)))))
  else some m.integral

/-- The speed over the window of past positions. -/
def windowed (m : Control) (now : UInt64) (pos : Int) : Option Int := do
  let position ← load m.windowPosition 0
  let time ← load m.windowTime 0
  if now > time then
    let v ← quot (← int64 (pos - position)) (toInt64 (now - time))
    some (clamp v (-2147483648) 2147483647)
  else some m.windowSpeed

/-- The entries of a window, each one place towards the front. -/
def shift {α : Type} (window : List α) : Option (List α) :=
  (List.range' 1 (speedWindow - 1)).foldlM
    (fun window i => do store window (i - 1) (← load window i)) window

/-- The measured speed; a full window loses its first entry. -/
def estimate (m : Control) (now : UInt64) (pos speed : Int) : Option Control :=
  if m.windowFill = speedWindow then do
    let windowSpeed ← windowed m now pos
    let windowPosition ← shift m.windowPosition
    let windowTime ← shift m.windowTime
    some { m with windowSpeed, windowPosition, windowTime, windowFill := m.windowFill - 1 }
  else some { m with windowSpeed := speed }

/-- The measured speed, and the window with the position of this call. -/
def measure (m : Control) (now : UInt64) (pos speed : Int) : Option Control := do
  let m ← estimate m now pos speed
  let windowPosition ← store m.windowPosition m.windowFill pos
  let windowTime ← store m.windowTime m.windowFill now
  some { m with windowPosition, windowTime, windowFill := m.windowFill + 1 }

/-- The reference, the candidate and the speed of a call that finds time has passed. -/
def track (m : Control) (desired : Int) (dt now : UInt64) (pos speed : Int) :
    Option (Int × Control) :=
  if dt ≠ 0 then do
    let m ← follow m desired (toInt64 dt)
    let candidate ← advance m (toInt64 dt) pos
    some (candidate, ← measure m now pos speed)
  else some (m.integral, m)

/-- `ff + error * KP`. -/
def drive (m : Control) : Option Int := do
  let error ← int64 ((← quot m.modelPrevious 1000) - m.windowSpeed)
  let lead ← int64 (m.model + (← int64 (tauMs * m.acceleration)))
  let ff ← quot (← int64 (lead * ffNum)) (← int64 (ffDen * 1000))
  int64 (ff + (← int64 (error * kp)))

def outputWith (base integral : Int) : Option Int := do
  int64 (base + (← quot (← int64 (integral * ki)) 1000))

/-- `output`, before it is scaled to the battery, and the integral. -/
def correct (m : Control) (candidate limit : Int) : Option (Int × Control) := do
  let base ← drive m
  let output ← outputWith base candidate
  if (output > limit ∧ candidate > m.integral) ∨ (output < - limit ∧ candidate < m.integral) then
    some (← outputWith base m.integral, m)
  else some (output, { m with integral := clamp candidate (- integralMax) integralMax })

/-- `bw_motor_step` up to the scaling of its output; no output when it returns early. -/
def bwMotorOutput (supplyMv : Int) (m : Control) (now : UInt64) (pos speed : Int) :
    Option (Option Int × Control) := do
  let limit ← fullScale (supplyOf supplyMv)
  let dt := if elapsed m now > 50 then 50 else elapsed m now
  let m := arrive m now pos
  if ¬ m.active then some (none, m)
  else
    match ← approach m dt pos speed with
    | (none, m) => some (none, m)
    | (some desired, m) =>
      let (candidate, m) ← track m desired dt now pos speed
      let (output, m) ← correct { m with lastPosition := pos } candidate limit
      some (some output, m)

def bwMotorStep (supplyMv : Int) (m : Control) (now : UInt64) (pos speed : Int) :
    Option (Int × Control) := do
  match ← bwMotorOutput supplyMv m now pos speed with
  | (none, m) => some (0, { m with duty := 0 })
  | (some output, m) =>
    let scaled ← quot (← int64 (output * nominalMv)) (supplyOf supplyMv)
    let duty ← int32 (clamp scaled (- dutyMax) dutyMax)
    some (duty, { m with duty })

/-! ## The calls of a program -/

/-- The battery voltage and a controller. -/
structure State where
  supplyMv : Int := 0
  control : Control := {}
  deriving DecidableEq, Repr

/-- A call into the module; positions are whole degrees. -/
inductive Call where
  | supply (millivolts : Int32)
  | speed (v : Int)
  | position (degrees : Int32) (delta v : Int)
  | step (now : UInt64) (degrees speed : Int32)

def Call.Legal : Call → Prop
  | .speed v => v.natAbs ≤ 1110
  | .position _ delta v => delta.natAbs ≤ 36000 ∧ 1 ≤ v ∧ v ≤ 1110
  | _ => True

def mdeg (degrees : Int32) : Int := degrees.toInt * 1000

def State.call (state : State) : Call → Option State
  | .supply millivolts => some { state with supplyMv := millivolts.toInt }
  | .speed v => some { state with control := bwMotorSpeed state.control v }
  | .position degrees delta v => do
    some { state with control := ← bwMotorPosition state.control (mdeg degrees) delta v }
  | .step now degrees speed => do
    let (_, control) ← bwMotorStep state.supplyMv state.control now (mdeg degrees) speed.toInt
    some { state with control }

/-- The calls of a program from the start of the firmware on. -/
def calls (cs : List Call) : Option State := cs.foldlM State.call {}

/-!
## The motor controller never overflows and never winds up

`Tame` bounds every number a controller holds, by what its calls may give it: no speed behind the
rated one, positions within an `int32_t` of degrees. A step from a tame controller has a value
whatever the clock says, so none of its operations overflows or divides by zero, and what it leaves
is tame again; the duty and the integral are within their limits, and an output behind full scale
does not move the integral further out.
-/

open List

/-- The most thousandths of a degree a position of whole degrees has. -/
def mdegMax : Nat := 2147483648000

theorem natAbs_mdeg_le (degrees : Int32) : (mdeg degrees).natAbs ≤ mdegMax := by
  have hlow := degrees.le_toInt
  have hhigh := degrees.toInt_lt
  rw [mdeg, mdegMax]
  omega

structure Tame (m : Control) : Prop where
  requested : m.requested.natAbs ≤ 1110
  reference : m.reference.natAbs ≤ 1110
  windowSpeed : m.windowSpeed.natAbs ≤ 2147483648
  target : m.target.natAbs ≤ mdegMax + 36000000
  integral : m.integral.natAbs ≤ 181818
  model : m.model.natAbs ≤ 1110000
  modelPrevious : m.modelPrevious.natAbs ≤ 1110000
  acceleration : m.acceleration.natAbs ≤ 2220000
  lastPosition : m.lastPosition.natAbs ≤ mdegMax
  windowPosition : ∀ x ∈ m.windowPosition, x.natAbs ≤ mdegMax
  positions : m.windowPosition.length = speedWindow
  times : m.windowTime.length = speedWindow
  windowFill : m.windowFill ≤ speedWindow

theorem tame_default : Tame {} := by
  constructor <;> decide

/-! ### Clamps -/

theorem clamp_symmetric (v : Int) (N : Nat) : (clamp v (- N) N).natAbs ≤ N := by
  unfold clamp
  split
  · omega
  split
  · omega
  · omega

/-! ### Commands -/

variable {m : Control}

theorem Tame.commanded (h : Tame m) : Tame (if m.active then m else {}) := by
  split
  · exact h
  · exact tame_default

theorem tame_bwMotorSpeed (h : Tame m) {speed : Int} (hspeed : speed.natAbs ≤ 1110) :
    Tame (bwMotorSpeed m speed) :=
  { h.commanded with requested := hspeed }

theorem bwMotorPosition_yields (h : Tame m) {pos delta speed : Int}
    (hpos : pos.natAbs ≤ mdegMax) (hdelta : delta.natAbs ≤ 36000) (hlow : 1 ≤ speed)
    (hhigh : speed ≤ 1110) : Yields (bwMotorPosition m pos delta speed) Tame := by
  unfold bwMotorPosition mdegMax at *
  apply yields_int64 (by omega)
  apply yields_int64 (by omega)
  have hrequested : speed.natAbs ≤ 1110 := by omega
  have htarget : (pos + delta * 1000).natAbs ≤ mdegMax + 36000000 := by
    rw [mdegMax]
    omega
  exact yields_some { h.commanded with requested := hrequested, target := htarget }

/-! ### The parts of a step -/

theorem supplyOf_bounds (supplyMv : Int) :
    5500 ≤ supplyOf supplyMv ∧ supplyOf supplyMv ≤ 9000 := by
  unfold supplyOf
  split
  next h => exact h
  · decide

theorem fullScale_eq (supplyMv : Int) : fullScale (supplyOf supplyMv) =
    some ((10000 * supplyOf supplyMv).tdiv 7200) := by
  have hs := supplyOf_bounds supplyMv
  have hprod : int64 (dutyMax * supplyOf supplyMv) = some (10000 * supplyOf supplyMv) :=
    int64_eq_some (by rw [dutyMax]; omega)
  rw [fullScale, hprod]
  exact quot_eq_some (b := 7200) (by decide) (by omega)

theorem tame_arrive (h : Tame m) (now : UInt64) {pos : Int}
    (hpos : pos.natAbs ≤ mdegMax) : Tame (arrive m now pos) := by
  unfold arrive
  split
  · split
    · exact { h with }
    · exact { h with }
  · split
    · exact { h with lastPosition := hpos }
    · exact { h with lastPosition := hpos }

theorem arrive_integral (m : Control) (now : UInt64) (pos : Int) :
    (arrive m now pos).integral = m.integral := by
  unfold arrive
  split
  · split
    · rfl
    · rfl
  · split
    · rfl
    · rfl

/-- What the way to the target leaves: the controller but for its flags, and a speed to go at. -/
theorem approach_yields (h : Tame m) (dt : UInt64) {pos : Int} (speed : Int)
    (hpos : pos.natAbs ≤ mdegMax) :
    Yields (approach m dt pos speed) fun r => Tame r.2 ∧ r.2.integral = m.integral ∧
      ∀ desired ∈ r.1, desired.natAbs ≤ 1110 := by
  unfold approach
  split
  · have htarget := h.target
    have hrequested := h.requested
    unfold mdegMax at hpos htarget
    apply yields_int64 (by omega)
    apply yields_int64 (by omega)
    apply yields_quot (by decide) (by omega)
    apply yields_int32 (by omega)
    have hdesired : (clamp (((m.target - pos) * 2).tdiv 1000) (- m.requested)
        m.requested).natAbs ≤ 1110 := by
      unfold clamp
      split
      · omega
      split
      · omega
      · omega
    apply yields_int32 (by omega)
    split
    · split
      · dsimp only
        split
        · exact yields_some ⟨{ h with }, rfl, fun d hd => by cases hd⟩
        · exact yields_some ⟨{ h with }, rfl, fun d hd => by cases hd; exact hdesired⟩
      · exact yields_some ⟨h, rfl, fun d hd => by cases hd; exact hdesired⟩
    · exact yields_some ⟨{ h with }, rfl, fun d hd => by cases hd; exact hdesired⟩
  · exact yields_some ⟨h, rfl, fun d hd => by cases hd; exact h.requested⟩

/-- The next reference lies between the last one and the speed asked for, or a step behind. -/
theorem ramp_natAbs_le {desired ref step : Int} (hdesired : desired.natAbs ≤ 1110)
    (href : ref.natAbs ≤ 1110) (hstep : 0 ≤ step) :
    (clamp desired (ref - step) (ref + step)).natAbs ≤ 1110 := by
  unfold clamp
  split
  · omega
  split
  · omega
  · omega

theorem rateTo_bounds (desired ref : Int) :
    0 ≤ rateTo desired ref ∧ (rateTo desired ref).natAbs ≤ 11100 := by
  unfold rateTo
  split
  · decide
  · decide

theorem follow_yields (h : Tame m) {desired dt : Int}
    (hdesired : desired.natAbs ≤ 1110) (hlow : 0 < dt) (hhigh : dt ≤ 50) :
    Yields (follow m desired dt) fun m' => Tame m' ∧ m'.integral = m.integral := by
  have href := h.reference
  have hmodel := h.model
  obtain ⟨hrate, hrate'⟩ := rateTo_bounds desired m.reference
  have hprod : (rateTo desired m.reference * dt).natAbs ≤ 11100 * 50 :=
    natAbs_mul_le hrate' (by omega)
  have hstep : 0 ≤ (rateTo desired m.reference * dt).tdiv 1000 :=
    Int.tdiv_nonneg (Int.mul_nonneg hrate hlow.le) (by decide)
  have hstep' := natAbs_tdiv_le 1000 hprod
  unfold follow
  apply yields_int64 (by omega)
  apply yields_quot (by decide) (by omega)
  apply yields_int64 (by omega)
  apply yields_int64 (by omega)
  have hnext := ramp_natAbs_le hdesired href hstep
  apply yields_int32 (by omega)
  generalize clamp desired _ _ = reference at hnext
  apply yields_int64 (by omega)
  apply yields_int64 (by omega)
  have hgap : ((reference * 1000 - m.model) * dt).natAbs ≤ 2220000 * 50 :=
    natAbs_mul_le (by omega) (by omega)
  apply yields_int64 (by omega)
  apply yields_int64 (by unfold tauMMs; omega)
  apply yields_quot (by unfold tauMMs; omega) (by omega)
  have hmodel' : (m.model + ((reference * 1000 - m.model) * dt).tdiv (tauMMs + dt)).natAbs ≤
      1110000 := by
    obtain ⟨k, rfl⟩ := Int.eq_ofNat_of_zero_le hlow.le
    exact natAbs_add_tdiv_le (n := 50 + k) (by omega) hmodel (by omega)
  apply yields_int64 (by omega)
  generalize m.model + _ = model at hmodel'
  apply yields_int64 (by omega)
  apply yields_quot (by omega) (by omega)
  have hacceleration : ((model - m.model).tdiv dt).natAbs ≤ 2220000 :=
    natAbs_tdiv_le dt (by omega)
  exact yields_some ⟨{ h with
    reference := hnext
    model := hmodel'
    modelPrevious := hmodel
    acceleration := hacceleration }, rfl⟩

theorem advance_yields (h : Tame m) {dt pos : Int} (hlow : 0 < dt) (hhigh : dt ≤ 50)
    (hpos : pos.natAbs ≤ mdegMax) :
    Yields (advance m dt pos) fun candidate => candidate.natAbs ≤ 5000000000000 := by
  have hintegral := h.integral
  unfold advance
  split
  · have hlast := h.lastPosition
    have hway : (m.modelPrevious * dt).natAbs ≤ 1110000 * 50 :=
      natAbs_mul_le h.modelPrevious (by omega)
    have hway' := natAbs_tdiv_le 1000 hway
    unfold mdegMax at hpos hlast
    apply yields_int64 (by omega)
    apply yields_quot (by decide) (by omega)
    apply yields_int64 (by omega)
    apply yields_int64 (by omega)
    refine ⟨_, int64_eq_some (by omega), by omega⟩
  · exact yields_some (by omega)

/-! ### The window -/

theorem toInt64_ne_zero {t : UInt64} (h : t ≠ 0) : toInt64 t ≠ 0 := by
  intro hzero
  apply h
  have hconv : t.toInt64 = 0 := Int64.toInt.inj hzero
  rw [← t.toUInt64_toInt64, hconv]
  rfl

theorem windowed_yields (h : Tame m) (now : UInt64) {pos : Int} (hpos : pos.natAbs ≤ mdegMax) :
    Yields (windowed m now pos) fun v => v.natAbs ≤ 2147483648 := by
  have hpositions : 0 < m.windowPosition.length := by
    rw [h.positions]
    decide
  have htimes : 0 < m.windowTime.length := by
    rw [h.times]
    decide
  have hfirst := h.windowPosition _ (getElem_mem hpositions)
  unfold windowed
  apply yields_load hpositions
  apply yields_load htimes
  generalize m.windowTime[0] = time
  split
  next hlate =>
    unfold mdegMax at hpos hfirst
    have hspan : now - time ≠ 0 := by
      intro hzero
      have heq : now = time := sub_eq_zero.mp hzero
      rw [heq] at hlate
      exact UInt64.lt_irrefl _ hlate
    apply yields_int64 (by omega)
    apply yields_quot (toInt64_ne_zero hspan) (by omega)
    apply yields_some
    unfold clamp
    split
    · decide
    split
    · decide
    · omega
  · exact yields_some h.windowSpeed

theorem shift_yields {α : Type} {window : List α} (h : window.length = speedWindow) :
    Yields (shift window) fun window' => window'.length = speedWindow ∧
      ∀ x ∈ window', x ∈ window := by
  match window, h with
  | [a, b], _ => exact ⟨[b, b], rfl, rfl, by simp⟩

variable {pos speed : Int}

theorem estimate_yields (h : Tame m) (now : UInt64)
    (hpos : pos.natAbs ≤ mdegMax) (hspeed : speed.natAbs ≤ 2147483648) :
    Yields (estimate m now pos speed) fun m' => Tame m' ∧ m'.integral = m.integral ∧
      m'.windowFill < speedWindow := by
  unfold estimate
  split
  next hfull =>
    apply Yields.bind (windowed_yields h now hpos)
    intro windowSpeed hwindowSpeed
    apply Yields.bind (shift_yields h.positions)
    rintro windowPosition ⟨hpositions, hmem⟩
    apply Yields.bind (shift_yields h.times)
    rintro windowTime ⟨htimes, -⟩
    have hfill : m.windowFill - 1 < speedWindow := by
      rw [hfull]
      decide
    exact yields_some ⟨{ h with
      windowSpeed := hwindowSpeed
      windowPosition := fun x hx => h.windowPosition x (hmem x hx)
      positions := hpositions
      times := htimes
      windowFill := hfill.le }, rfl, hfill⟩
  next hfull =>
    have hfill : m.windowFill < speedWindow := Nat.lt_of_le_of_ne h.windowFill hfull
    exact yields_some ⟨{ h with windowSpeed := hspeed }, rfl, hfill⟩

theorem measure_yields (h : Tame m) (now : UInt64)
    (hpos : pos.natAbs ≤ mdegMax) (hspeed : speed.natAbs ≤ 2147483648) :
    Yields (measure m now pos speed) fun m' => Tame m' ∧ m'.integral = m.integral := by
  unfold measure
  apply Yields.bind (estimate_yields h now hpos hspeed)
  rintro m' ⟨h', hintegral, hfill⟩
  apply yields_store (by rw [h'.positions]; exact hfill)
  apply yields_store (by rw [h'.times]; exact hfill)
  refine yields_some ⟨{ h' with
    windowPosition := ?_
    positions := ?_
    times := ?_
    windowFill := hfill }, hintegral⟩
  · intro x hx
    rcases mem_or_eq_of_mem_set hx with hx | rfl
    · exact h'.windowPosition x hx
    · exact hpos
  · rw [length_set]
    exact h'.positions
  · rw [length_set]
    exact h'.times

theorem toInt64_small {t : UInt64} (h : t ≤ 50) : toInt64 t = t.toNat := by
  have hle : t.toNat ≤ 50 := UInt64.le_iff_toNat_le.mp h
  exact BitVec.toInt_eq_toNat_of_lt (show 2 * t.toNat < 2 ^ 64 by omega)

theorem track_yields (h : Tame m) {desired : Int} {dt : UInt64} (now : UInt64)
    (hdesired : desired.natAbs ≤ 1110) (hdt : dt ≤ 50)
    (hpos : pos.natAbs ≤ mdegMax) (hspeed : speed.natAbs ≤ 2147483648) :
    Yields (track m desired dt now pos speed) fun r => r.1.natAbs ≤ 5000000000000 ∧ Tame r.2 ∧
      r.2.integral = m.integral := by
  unfold track
  split
  next htime =>
    have hlow : 0 < toInt64 dt := by
      have hne := toInt64_ne_zero htime
      rw [toInt64_small hdt] at hne ⊢
      omega
    have hhigh : toInt64 dt ≤ 50 := by
      have hle : dt.toNat ≤ 50 := UInt64.le_iff_toNat_le.mp hdt
      rw [toInt64_small hdt]
      omega
    apply Yields.bind (follow_yields h hdesired hlow hhigh)
    rintro m₁ ⟨h₁, hintegral₁⟩
    apply Yields.bind (advance_yields h₁ hlow hhigh hpos)
    intro candidate hcandidate
    apply Yields.bind (measure_yields h₁ now hpos hspeed)
    rintro m₂ ⟨h₂, hintegral₂⟩
    exact yields_some ⟨hcandidate, h₂, hintegral₂.trans hintegral₁⟩
  · exact yields_some ⟨Nat.le_trans h.integral (by decide), h, rfl⟩

/-! ### The output -/

theorem drive_yields (h : Tame m) :
    Yields (drive m) fun base => base.natAbs ≤ 2000000000000 := by
  have hmodel := h.model
  have hwindow := h.windowSpeed
  have hmodelPrevious := h.modelPrevious
  have hprevious := natAbs_tdiv_le 1000 h.modelPrevious
  have htau : (tauMs * m.acceleration).natAbs ≤ 53 * 2220000 :=
    natAbs_mul_le (by decide) h.acceleration
  have hlead : ((m.model + tauMs * m.acceleration) * ffNum).natAbs ≤ 118770000 * 10010 :=
    natAbs_mul_le (by omega) (by decide)
  have hff := natAbs_tdiv_le (ffDen * 1000) hlead
  have herror : ((m.modelPrevious.tdiv 1000 - m.windowSpeed) * kp).natAbs ≤ 2150000000 * 8 :=
    natAbs_mul_le (by omega) (by decide)
  unfold drive
  apply yields_quot (by decide) (by omega)
  apply yields_int64 (by omega)
  apply yields_int64 (by omega)
  apply yields_int64 (by omega)
  apply yields_int64 (by omega)
  apply yields_int64 (by decide)
  apply yields_quot (by decide) (by omega)
  apply yields_int64 (by omega)
  exact ⟨_, int64_eq_some (by omega), by omega⟩

theorem outputWith_yields {base integral : Int} (hbase : base.natAbs ≤ 2000000000000)
    (hintegral : integral.natAbs ≤ 5000000000000) :
    Yields (outputWith base integral) fun output => output.natAbs ≤ 277000000000000 := by
  have hterm : (integral * ki).natAbs ≤ 5000000000000 * 55 := natAbs_mul_le hintegral (by decide)
  have hterm' := natAbs_tdiv_le 1000 hterm
  unfold outputWith
  apply yields_int64 (by omega)
  apply yields_quot (by decide) (by omega)
  exact ⟨_, int64_eq_some (by omega), by omega⟩

/-- An integral that winds up moves out while the output is behind full scale. -/
def Unwound (limit output integral integral' : Int) : Prop :=
  (limit < output → integral' ≤ integral) ∧ (output < - limit → integral ≤ integral')

theorem correct_yields (h : Tame m) {candidate limit : Int}
    (hcandidate : candidate.natAbs ≤ 5000000000000) :
    Yields (correct m candidate limit) fun r => r.1.natAbs ≤ 277000000000000 ∧ Tame r.2 ∧
      Unwound limit r.1 m.integral r.2.integral := by
  have hintegral := h.integral
  unfold correct
  apply Yields.bind (drive_yields h)
  intro base hbase
  apply Yields.bind (outputWith_yields hbase hcandidate)
  intro output houtput
  split
  · apply Yields.bind (outputWith_yields hbase (Nat.le_trans hintegral (by decide)))
    intro held hheld
    exact yields_some ⟨hheld, h, fun _ => Int.le_refl _, fun _ => Int.le_refl _⟩
  next hfree =>
    have hmax : integralMax = (181818 : Nat) := by decide
    have hclamped := clamp_symmetric candidate 181818
    refine yields_some ⟨houtput, { h with integral := ?_ }, ?_, ?_⟩
    · exact hclamped
    · intro hover
      have hle : candidate ≤ m.integral := by
        by_contra hgt
        exact hfree (Or.inl ⟨hover, by omega⟩)
      show clamp candidate (- integralMax) integralMax ≤ m.integral
      unfold clamp
      split
      · omega
      split
      · omega
      · exact hle
    · intro hunder
      have hle : m.integral ≤ candidate := by
        by_contra hgt
        exact hfree (Or.inr ⟨hunder, by omega⟩)
      show m.integral ≤ clamp candidate (- integralMax) integralMax
      unfold clamp
      split
      · omega
      split
      · omega
      · exact hle

theorem bwMotorOutput_yields (h : Tame m) (supplyMv : Int) (now : UInt64)
    (hpos : pos.natAbs ≤ mdegMax) (hspeed : speed.natAbs ≤ 2147483648) :
    Yields (bwMotorOutput supplyMv m now pos speed) fun r => Tame r.2 ∧
      ∀ output ∈ r.1, output.natAbs ≤ 277000000000000 ∧
        ∀ limit ∈ fullScale (supplyOf supplyMv),
          Unwound limit output m.integral r.2.integral := by
  have hdt : (if elapsed m now > 50 then 50 else elapsed m now) ≤ 50 := by
    split
    · decide
    next hle => exact UInt64.not_lt.mp hle
  unfold bwMotorOutput
  have hfull : Yields (fullScale (supplyOf supplyMv)) (· ∈ fullScale (supplyOf supplyMv)) :=
    ⟨_, fullScale_eq supplyMv, fullScale_eq supplyMv⟩
  apply Yields.bind hfull
  intro limit hlimit
  dsimp only
  generalize (if elapsed m now > 50 then 50 else elapsed m now) = dt at hdt
  split
  · exact yields_some ⟨tame_arrive h now hpos, fun output houtput => by cases houtput⟩
  · apply Yields.bind (approach_yields (tame_arrive h now hpos) dt speed hpos)
    rintro ⟨desired?, m₁⟩ ⟨h₁, hintegral₁, hdesired⟩
    cases desired? with
    | none => exact yields_some ⟨h₁, fun output houtput => by cases houtput⟩
    | some desired =>
      apply Yields.bind (track_yields h₁ now (hdesired desired rfl) hdt hpos hspeed)
      rintro ⟨candidate, m₂⟩ ⟨hcandidate, h₂, hintegral₂⟩
      have h₃ : Tame { m₂ with lastPosition := pos } := { h₂ with lastPosition := hpos }
      apply Yields.bind (correct_yields h₃ hcandidate)
      rintro ⟨output, m₄⟩ ⟨houtput, h₄, hunwound⟩
      refine yields_some ⟨h₄, fun output' heq => ?_⟩
      cases heq
      refine ⟨houtput, fun limit' hlimit' => ?_⟩
      have hsame : limit' = limit := Option.some.inj (hlimit'.symm.trans hlimit)
      rw [hsame, ← arrive_integral m now pos, ← hintegral₁, ← hintegral₂]
      exact hunwound

/-! ### The step and the run -/

/-- What a step of a controller leaves: the duty it answers, and the controller. -/
structure Within (drawn : Int) (m : Control) : Prop where
  duty : m.duty = drawn ∧ drawn.natAbs ≤ 10000
  integral : m.integral.natAbs ≤ integralMax.natAbs
  reference : m.reference.natAbs ≤ 1110

theorem within_of_tame {drawn : Int} (h : Tame m) (hdrawn : drawn.natAbs ≤ 10000) :
    Within drawn { m with duty := drawn } where
  duty := ⟨rfl, hdrawn⟩
  integral := h.integral
  reference := h.reference

/-- What the output of a step does: within full scale it is drawn as it is, and behind it the
integral moves no further out. -/
structure Saturates (supply output drawn integral integral' limit : Int) : Prop where
  uncut : output.natAbs ≤ limit → drawn = (output * nominalMv).tdiv supply
  unwound : Unwound limit output integral integral'

theorem natAbs_scaled_le {supply output : Int} (hsupply : 0 < supply)
    (h : output.natAbs ≤ (10000 * supply).tdiv 7200) :
    ((output * nominalMv).tdiv supply).natAbs ≤ 10000 := by
  rw [Int.tdiv_eq_ediv_of_nonneg (by omega)] at h
  rw [Int.natAbs_tdiv]
  apply Nat.div_le_of_le_mul
  rw [nominalMv]
  omega

theorem clamp_eq_self {v : Int} {N : Nat} (h : v.natAbs ≤ N) : clamp v (- N) N = v := by
  rw [clamp, if_neg (by omega), if_neg (by omega)]

theorem bwMotorStep_yields (h : Tame m) (supplyMv : Int) (now : UInt64)
    (hpos : pos.natAbs ≤ mdegMax) (hspeed : speed.natAbs ≤ 2147483648) :
    Yields (bwMotorStep supplyMv m now pos speed) fun r => Tame r.2 ∧ Within r.1 r.2 ∧
      ∀ output m', bwMotorOutput supplyMv m now pos speed = some (some output, m') →
        ∀ limit ∈ fullScale (supplyOf supplyMv),
          Saturates (supplyOf supplyMv) output r.1 m.integral r.2.integral limit := by
  obtain ⟨⟨output?, m'⟩, hvalue, hm', houtput⟩ :=
    bwMotorOutput_yields h supplyMv now hpos hspeed
  have hs := supplyOf_bounds supplyMv
  unfold bwMotorStep
  rw [hvalue]
  cases output? with
  | none =>
    have hwithin : Within 0 { m' with duty := 0 } := within_of_tame hm' (by decide)
    refine yields_some ⟨{ hm' with }, hwithin, fun output m'' heq => ?_⟩
    cases heq
  | some output =>
    obtain ⟨hbound, hunwound⟩ := houtput output rfl
    have hscaled : (output * nominalMv).natAbs ≤ 277000000000000 * 7200 :=
      natAbs_mul_le hbound (by decide)
    have hduty := clamp_symmetric ((output * nominalMv).tdiv (supplyOf supplyMv)) 10000
    apply yields_int64 (by omega)
    apply yields_quot (by omega) (by omega)
    apply yields_int32 (Nat.lt_of_le_of_lt hduty (by decide))
    refine yields_some ⟨{ hm' with }, within_of_tame hm' hduty, fun output' m'' heq => ?_⟩
    cases heq
    refine fun limit hlimit => ⟨fun hle => ?_, hunwound limit hlimit⟩
    apply clamp_eq_self (N := 10000)
    apply natAbs_scaled_le (by omega)
    rw [fullScale_eq] at hlimit
    cases hlimit
    exact hle

theorem natAbs_toInt_le (speed : Int32) : speed.toInt.natAbs ≤ 2147483648 := by
  have hlow := speed.le_toInt
  have hhigh := speed.toInt_lt
  omega

theorem call_yields {state : State} (h : Tame state.control) {c : Call} (hc : c.Legal) :
    Yields (state.call c) fun state' => Tame state'.control := by
  cases c with
  | supply millivolts => exact yields_some h
  | speed v => exact yields_some (tame_bwMotorSpeed h hc)
  | position degrees delta v =>
    obtain ⟨hdelta, hlow, hhigh⟩ := hc
    apply Yields.bind (bwMotorPosition_yields h (natAbs_mdeg_le degrees) hdelta hlow hhigh)
    intro control hcontrol
    exact yields_some hcontrol
  | step now degrees speed =>
    have hstep := bwMotorStep_yields h state.supplyMv now (natAbs_mdeg_le degrees)
      (natAbs_toInt_le speed)
    apply Yields.bind hstep
    rintro ⟨drawn, control⟩ ⟨hcontrol, -⟩
    exact yields_some hcontrol

theorem calls_yields {cs : List Call} (hcs : ∀ c ∈ cs, c.Legal) {state : State}
    (h : Tame state.control) :
    Yields (cs.foldlM State.call state) fun state' => Tame state'.control := by
  induction cs generalizing state with
  | nil => exact yields_some h
  | cons c cs ih =>
    apply Yields.bind (call_yields h (hcs c mem_cons_self))
    intro state' h'
    exact ih (fun d hd => hcs d (mem_cons_of_mem c hd)) h'

/-- **Bounds and anti-windup.** After any calls a program may give, a step at any time, position,
speed and battery voltage makes no operation that overflows or divides by zero, keeps the duty, the
integral and the reference within their limits, and does not move the integral further out while the
output is behind full scale. -/
theorem bwMotorStep_bounded (cs : List Call) (hcs : ∀ c ∈ cs, c.Legal) (now : UInt64)
    (degrees speed : Int32) :
    ∃ state duty m, calls cs = some state ∧
      bwMotorStep state.supplyMv state.control now (mdeg degrees) speed.toInt = some (duty, m) ∧
      Within duty m ∧
      ∀ output m',
        bwMotorOutput state.supplyMv state.control now (mdeg degrees) speed.toInt =
          some (some output, m') →
        ∀ limit ∈ fullScale (supplyOf state.supplyMv),
          Saturates (supplyOf state.supplyMv) output duty state.control.integral m.integral
            limit := by
  have hstart : Tame ({} : State).control := tame_default
  obtain ⟨state, hstate, htame⟩ := calls_yields hcs hstart
  obtain ⟨⟨duty, m⟩, hstep, -, hwithin, hsaturates⟩ := bwMotorStep_yields htame state.supplyMv now
    (natAbs_mdeg_le degrees) (natAbs_toInt_le speed)
  exact ⟨state, duty, m, hstate, hstep, hwithin, hsaturates⟩

/-- A wheel held at full speed against a load. -/
theorem bwMotorStep_bounded_stalled :
    ∃ state duty m, calls [.supply 7200, .speed 1110, .step 10 0 0] = some state ∧
      bwMotorStep state.supplyMv state.control 20 (mdeg 0) (0 : Int32).toInt = some (duty, m) ∧
      Within duty m := by
  have hlegal : ∀ c ∈ [Call.supply 7200, .speed 1110, .step 10 0 0], c.Legal := by
    intro c hc
    rcases mem_cons.mp hc with rfl | hc
    · trivial
    rcases mem_cons.mp hc with rfl | hc
    · show (1110 : Int).natAbs ≤ 1110
      decide
    · rw [mem_singleton.mp hc]
      trivial
  obtain ⟨state, duty, m, hstate, hstep, hwithin, -⟩ :=
    bwMotorStep_bounded [.supply 7200, .speed 1110, .step 10 0 0] hlegal 20 0 0
  exact ⟨state, duty, m, hstate, hstep, hwithin⟩

end Brickwright.HubProgram.Motor
