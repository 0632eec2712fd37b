import Brickwright.Drivebase.Control
import Brickwright.Machine.Basic

/-!
# The speed of a wheel

`drivebase_observer.c` keeps the last samples of an encoder in a ring and takes the slope over its
newest part for the speed of the wheel, 0 when it is small. The slope is one of the samples in the
ring alone: `db_observer_idle_tick` is given the time that went by without a sample, and uses it
only for the stall. So the estimate stays what it was when the samples stopped (`idle_keeps`), and
comes to 0 only when it was 0 then (`decays_iff`).
-/

namespace Brickwright.Drivebase

/-- `DB_OBSERVER_RING_DEPTH`. -/
abbrev ringDepth : Nat := 128

/-- `struct db_observer_sample_s`. -/
structure Observer.Sample where
  tUs : UInt64
  xMdeg : Int
  deriving DecidableEq

/-- `struct db_observer_s`. Places in the ring are counted round. -/
structure Observer where
  ring : Vector Observer.Sample ringDepth
  head : Fin ringDepth
  count : Nat
  vEstMdegps : Int
  minWindowUs : UInt64
  primed : Bool
  snappedToZero : Bool
  stallLowSpeedMdegps : UInt32
  stallMinDuty : UInt32
  stallWindowMs : UInt32
  stallStreakMs : UInt32
  stalled : Bool

namespace Observer

def usPerS : Int := 1000000
def defaultMs : UInt32 := 30

/-- `DB_OBSERVER_MIN_LSB_COUNT`, in thousandths of a degree. -/
def lsbThr : Nat := 3 * 1000

def vHystLowMdegps : Nat := 30000
def vHystHighMdegps : Nat := 60000

def newest (o : Observer) : Fin ringDepth := o.head - 1

/-- The walk back over `n` more samples, from the `i`-th before the newest on. -/
def walkBack (ring : Vector Sample ringDepth) (newest : Fin ringDepth) (minWindowUs : UInt64) :
    Nat → Nat → Fin ringDepth → Fin ringDepth
  | 0, _, pick => pick
  | n + 1, i, _ =>
    let idx := newest - Fin.ofNat ringDepth i
    let elapsedUs := ring[newest].tUs - ring[idx].tUs
    let dxAbs := (ring[newest].xMdeg - ring[idx].xMdeg).natAbs
    if elapsedUs ≥ minWindowUs ∧ dxAbs ≥ lsbThr then idx
    else walkBack ring newest minWindowUs n (i + 1) idx

/-- `v_slope_raw_mdegps`. The differences of an encoder's positions fit in 64 bits, in millionths
too. -/
def vSlopeRawMdegps (o : Observer) : Int :=
  if o.count < 2 then 0
  else
    let pick := walkBack o.ring o.newest o.minWindowUs (o.count - 1) 1 o.newest
    if pick = o.newest then 0
    else
      let dt := (o.ring[o.newest].tUs - o.ring[pick].tUs).toInt64.toInt
      if dt ≤ 0 then 0
      else
        let dx := o.ring[o.newest].xMdeg - o.ring[pick].xMdeg
        clampI32 ((dx * usPerS).tdiv dt) int32Min int32Max

/-- `apply_zero_hysteresis`: whether the estimate is snapped to zero, and the estimate. -/
def applyZeroHysteresis (snappedToZero : Bool) (vRawMdegps : Int) : Bool × Int :=
  let vAbs := vRawMdegps.natAbs
  if snappedToZero then
    if vAbs > vHystHighMdegps then (false, vRawMdegps) else (true, 0)
  else if vAbs < vHystLowMdegps then (true, 0)
  else (false, vRawMdegps)

/-- The estimate anew, with `v_slope_mdegps`. -/
def estimate (o : Observer) : Observer :=
  let (snappedToZero, vEstMdegps) := applyZeroHysteresis o.snappedToZero o.vSlopeRawMdegps
  { o with snappedToZero := snappedToZero, vEstMdegps := vEstMdegps }

def updateStall (o : Observer) (dtMs appliedDutyAbs : UInt32) : Observer :=
  let vAbs := UInt32.ofNat o.vEstMdegps.natAbs
  if vAbs < o.stallLowSpeedMdegps ∧ appliedDutyAbs > o.stallMinDuty then
    let stallStreakMs := o.stallStreakMs + dtMs
    { o with
      stallStreakMs := stallStreakMs
      stalled := if stallStreakMs ≥ o.stallWindowMs then true else o.stalled }
  else { o with stallStreakMs := 0, stalled := false }

def zeroed : Observer where
  ring := Vector.replicate ringDepth ⟨0, 0⟩
  head := 0
  count := 0
  vEstMdegps := 0
  minWindowUs := 0
  primed := false
  snappedToZero := false
  stallLowSpeedMdegps := 0
  stallMinDuty := 0
  stallWindowMs := 0
  stallStreakMs := 0
  stalled := false

/-- `db_observer_init`. -/
def init (o : Observer) (lowSpeedMdegps minDuty stallWindowMs windowMs : UInt32) : Observer where
  ring := o.ring
  head := 0
  count := 0
  vEstMdegps := 0
  minWindowUs := (if windowMs ≠ 0 then windowMs else defaultMs).toUInt64 * 1000
  primed := false
  snappedToZero := true
  stallLowSpeedMdegps := lowSpeedMdegps
  stallMinDuty := minDuty
  stallWindowMs := stallWindowMs
  stallStreakMs := 0
  stalled := false

def seed (o : Observer) (xMdeg : Int) (tUs : UInt64) : Observer :=
  { o with ring := o.ring.set 0 ⟨tUs, xMdeg⟩, head := 1, count := 1, primed := true }

/-- `db_observer_reset`. -/
def reset (o : Observer) (xMdeg : Int) (tUs : UInt64) : Observer :=
  { o.seed xMdeg tUs with
    vEstMdegps := 0
    snappedToZero := true
    stallStreakMs := 0
    stalled := false }

/-- `db_observer_update_sample`. -/
def updateSample (o : Observer) (xMdeg : Int) (tUs : UInt64) (appliedDutyAbs : UInt32) : Observer :=
  if !o.primed then o.seed xMdeg tUs
  else
    let prev := o.ring[o.newest].tUs
    if tUs ≤ prev then o
    else
      let o := { o with
        ring := o.ring.set o.head ⟨tUs, xMdeg⟩
        head := o.head + 1
        count := if o.count < ringDepth then o.count + 1 else o.count }
      o.estimate.updateStall ((tUs - prev + 500) / 1000).toUInt32 appliedDutyAbs

/-- `db_observer_idle_tick`. -/
def idleTick (o : Observer) (dtMs appliedDutyAbs : UInt32) : Observer :=
  if !o.primed then o else o.estimate.updateStall dtMs appliedDutyAbs

/-! ## Histories -/

inductive Call where
  | reset (xMdeg : Int) (tUs : UInt64)
  | updateSample (xMdeg : Int) (tUs : UInt64) (appliedDutyAbs : UInt32)
  | idleTick (dtMs appliedDutyAbs : UInt32)

def call (o : Observer) : Call → Observer
  | .reset xMdeg tUs => o.reset xMdeg tUs
  | .updateSample xMdeg tUs appliedDutyAbs => o.updateSample xMdeg tUs appliedDutyAbs
  | .idleTick dtMs appliedDutyAbs => o.idleTick dtMs appliedDutyAbs

def machine : Machine Observer Call Unit where
  step o c := (o.call c, ())

/-- Ticks without a sample: the time since the last one, and the duty. -/
def idle (o : Observer) (ticks : List (UInt32 × UInt32)) : Observer :=
  machine.run o (ticks.map fun tick => .idleTick tick.1 tick.2)

/-- The time the samples in the ring span. -/
def spanUs (o : Observer) : UInt64 :=
  o.ring[o.newest].tUs - o.ring[o.newest - Fin.ofNat ringDepth (o.count - 1)].tUs

/-- Without samples for longer than the ring and the window reach back, the estimate comes to 0. -/
def Decays (o : Observer) : Prop :=
  ∀ ticks : List (UInt32 × UInt32),
    o.spanUs.toNat + o.minWindowUs.toNat < 1000 * (ticks.map fun tick => tick.1.toNat).sum →
      (o.idle ticks).vEstMdegps = 0

/-- The estimate is the slope of the samples in the ring, but for the hysteresis. -/
structure Latched (o : Observer) : Prop where
  est : o.vEstMdegps = if o.snappedToZero then 0 else o.vSlopeRawMdegps
  snapped : o.snappedToZero = true → o.vSlopeRawMdegps.natAbs ≤ vHystHighMdegps
  moving : o.snappedToZero = false → vHystLowMdegps ≤ o.vSlopeRawMdegps.natAbs
  unprimed : o.primed = false → o.count = 0

variable {o : Observer}

theorem applyZeroHysteresis_spec (s : Bool) (v : Int) :
    (applyZeroHysteresis s v).2 = (if (applyZeroHysteresis s v).1 then 0 else v) ∧
      ((applyZeroHysteresis s v).1 = true → v.natAbs ≤ vHystHighMdegps) ∧
      ((applyZeroHysteresis s v).1 = false → vHystLowMdegps ≤ v.natAbs) := by
  unfold applyZeroHysteresis vHystHighMdegps vHystLowMdegps
  cases s with
  | true =>
    by_cases hhigh : v.natAbs > 60000
    · simp only [if_true, if_pos hhigh]
      exact ⟨rfl, nofun, fun _ => by omega⟩
    · simp only [if_true, if_neg hhigh]
      exact ⟨trivial, fun _ => Nat.not_lt.mp hhigh, nofun⟩
  | false =>
    by_cases hlow : v.natAbs < 30000
    · simp only [Bool.false_eq_true, if_false, if_pos hlow]
      exact ⟨rfl, fun _ => by omega, nofun⟩
    · simp only [Bool.false_eq_true, if_false, if_neg hlow]
      exact ⟨trivial, nofun, fun _ => Nat.not_lt.mp hlow⟩

theorem applyZeroHysteresis_again {s : Bool} {v : Int}
    (hsnapped : s = true → v.natAbs ≤ vHystHighMdegps)
    (hmoving : s = false → vHystLowMdegps ≤ v.natAbs) :
    applyZeroHysteresis s v = (s, if s then 0 else v) := by
  cases s with
  | true => simp [applyZeroHysteresis, Nat.not_lt.mpr (hsnapped rfl)]
  | false => simp [applyZeroHysteresis, Nat.not_lt.mpr (hmoving rfl)]

theorem updateStall_keeps (o : Observer) (dtMs appliedDutyAbs : UInt32) :
    (o.updateStall dtMs appliedDutyAbs).vEstMdegps = o.vEstMdegps ∧
      (o.updateStall dtMs appliedDutyAbs).snappedToZero = o.snappedToZero ∧
      (o.updateStall dtMs appliedDutyAbs).vSlopeRawMdegps = o.vSlopeRawMdegps ∧
      (o.updateStall dtMs appliedDutyAbs).primed = o.primed ∧
      (o.updateStall dtMs appliedDutyAbs).count = o.count := by
  simp only [updateStall]
  split <;> exact ⟨rfl, rfl, rfl, rfl, rfl⟩

theorem slope_of_few (h : o.count < 2) : o.vSlopeRawMdegps = 0 := if_pos h

namespace Latched

theorem estimate (o : Observer) (hprimed : o.primed = true) (dtMs appliedDutyAbs : UInt32) :
    Latched (o.estimate.updateStall dtMs appliedDutyAbs) := by
  obtain ⟨hest, hsnapped, hmoving⟩ := applyZeroHysteresis_spec o.snappedToZero o.vSlopeRawMdegps
  obtain ⟨hv, hs, hslope, hprimed', -⟩ := updateStall_keeps o.estimate dtMs appliedDutyAbs
  refine ⟨?_, ?_, ?_, ?_⟩
  · rw [hv, hs, hslope]
    exact hest
  · rw [hs, hslope]
    exact hsnapped
  · rw [hs, hslope]
    exact hmoving
  · rw [hprimed']
    intro hnot
    exact absurd (hprimed.symm.trans hnot) (by decide)

theorem of_few (hcount : o.count < 2) (hv : o.vEstMdegps = 0) (hs : o.snappedToZero = true)
    (hunprimed : o.primed = false → o.count = 0) : Latched o := by
  have hslope := slope_of_few hcount
  refine ⟨?_, ?_, ?_, hunprimed⟩
  · rw [hs, if_pos rfl, hv]
  · intro _
    rw [hslope]
    exact Nat.zero_le _
  · intro hnot
    exact absurd (hs.symm.trans hnot) (by decide)

theorem at_rest (h : Latched o) (hcount : o.count < 2) :
    o.vEstMdegps = 0 ∧ o.snappedToZero = true := by
  have hs : o.snappedToZero = true := by
    cases hsnapped : o.snappedToZero with
    | true => rfl
    | false =>
      have hslow := h.moving hsnapped
      rw [slope_of_few hcount] at hslow
      exact absurd hslow (by decide)
  refine ⟨?_, hs⟩
  rw [h.est, hs, if_pos rfl]

/-- **A tick without a sample** leaves the estimate where it is. -/
theorem idleTick (h : Latched o) (dtMs appliedDutyAbs : UInt32) :
    Latched (o.idleTick dtMs appliedDutyAbs) ∧
      (o.idleTick dtMs appliedDutyAbs).vEstMdegps = o.vEstMdegps ∧
      (o.idleTick dtMs appliedDutyAbs).snappedToZero = o.snappedToZero := by
  unfold Observer.idleTick
  cases hprimed : o.primed with
  | false => exact ⟨h, rfl, rfl⟩
  | true =>
    refine ⟨estimate o hprimed dtMs appliedDutyAbs, ?_⟩
    obtain ⟨hv, hs, -⟩ := updateStall_keeps o.estimate dtMs appliedDutyAbs
    have hagain := applyZeroHysteresis_again h.snapped h.moving
    refine ⟨hv.trans ?_, hs.trans ?_⟩
    · rw [Observer.estimate, hagain, h.est]
    · rw [Observer.estimate, hagain]

/-- **Every call** keeps the estimate at the slope. -/
theorem call (h : Latched o) (c : Call) : Latched (o.call c) := by
  cases c with
  | reset xMdeg tUs => exact of_few Nat.one_lt_two rfl rfl nofun
  | updateSample xMdeg tUs appliedDutyAbs =>
    unfold Observer.call updateSample
    cases hprimed : o.primed with
    | false =>
      obtain ⟨hv, hs⟩ := h.at_rest (by rw [h.unprimed hprimed]; decide)
      exact of_few Nat.one_lt_two hv hs nofun
    | true =>
      simp only [Bool.not_true, Bool.false_eq_true, if_false]
      split
      · exact h
      · exact estimate _ rfl _ _
  | idleTick dtMs appliedDutyAbs => exact (h.idleTick dtMs appliedDutyAbs).1

/-- **Ticks without samples** leave the estimate where it is. -/
theorem idle (h : Latched o) (ticks : List (UInt32 × UInt32)) :
    (o.idle ticks).vEstMdegps = o.vEstMdegps := by
  induction ticks generalizing o with
  | nil => rfl
  | cons tick ticks ih =>
    obtain ⟨hnext, hv, -⟩ := h.idleTick tick.1 tick.2
    exact (ih hnext).trans hv

theorem vEst_eq_zero_iff (h : Latched o) : o.vEstMdegps = 0 ↔ o.snappedToZero = true := by
  rw [h.est]
  cases hsnapped : o.snappedToZero with
  | true => simp
  | false =>
    have hslow := h.moving hsnapped
    unfold vHystLowMdegps at hslow
    simp only [Bool.false_eq_true, if_false, iff_false]
    omega

end Latched

theorem latched_run (o : Observer) (lowSpeedMdegps minDuty stallWindowMs windowMs : UInt32)
    (cs : List Call) :
    Latched (machine.run (o.init lowSpeedMdegps minDuty stallWindowMs windowMs) cs) := by
  have hstep : ∀ o c, Latched o → Latched (machine.step o c).1 := fun _ c h => h.call c
  refine machine.run_invariant hstep _ cs ?_
  exact Latched.of_few Nat.two_pos rfl rfl fun _ => rfl

theorem exists_ticks (n : Nat) :
    ∃ ticks : List (UInt32 × UInt32), n < 1000 * (ticks.map fun tick => tick.1.toNat).sum := by
  refine ⟨List.replicate (n + 1) (1, 0), ?_⟩
  rw [List.map_replicate, List.sum_replicate_nat, UInt32.toNat_one]
  omega

/-- **The estimate comes to 0 without samples** when it was snapped to zero before. -/
theorem decays_iff (o : Observer) (lowSpeedMdegps minDuty stallWindowMs windowMs : UInt32)
    (cs : List Call) :
    (machine.run (o.init lowSpeedMdegps minDuty stallWindowMs windowMs) cs).Decays ↔
      (machine.run (o.init lowSpeedMdegps minDuty stallWindowMs windowMs) cs).snappedToZero =
        true := by
  have hlatched := latched_run o lowSpeedMdegps minDuty stallWindowMs windowMs cs
  rw [← hlatched.vEst_eq_zero_iff]
  constructor
  · intro hdecays
    obtain ⟨ticks, hlong⟩ := exists_ticks _
    rw [← hlatched.idle ticks]
    exact hdecays ticks hlong
  · intro hzero ticks _
    rw [hlatched.idle ticks, hzero]

/-- A wheel at 1000 degrees in a second whose samples stop: the estimate does not come to 0 in
the second after them. -/
theorem not_decays :
    ¬(machine.run (zeroed.init 30000 6000 200 30)
      [.reset 0 0, .updateSample 10000 10000 0, .updateSample 20000 20000 0]).Decays := by
  intro hdecays
  have hzero := hdecays [(1000, 0)] (by decide)
  exact absurd hzero (by decide)

end Observer

end Brickwright.Drivebase
