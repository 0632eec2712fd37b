import Brickwright.Drivebase.Trajectory
import Mathlib.Algebra.Order.Ring.Abs

/-!
# Stretching in place

`db_trajectory_stretch_to_total` writes the profile it has fitted into the trajectory, looks at the
reference one microsecond before the end, and takes it back if that is not within 100 mdeg of the
end. It asks for the reference at `targetUs - 1`, but a reference is asked for by the clock, and the
trajectory begins at `t0Us`: what is looked at lies `t0Us` before the end. `late_refused` is what
comes of it.

The probe behind the search takes the planned speed in as well, and keeps it where it fits best.

* `kept` — what the call leaves, whenever the plan begins.
* `contract_of_inputs` — for a plan that begins with the clock, and a target that a lower speed fits
  as well, the call does what it promises.
-/

namespace Brickwright.Drivebase.Stretch

open Trajectory
open List

/-! ## The function -/

/-- The speed that the search fits to the target, and the probe of its neighbours after it. -/
def fitPeak (tr : Trajectory) (dAbs targetUs : Nat) : Int :=
  let a := tr.accelMdegps2
  let d := tr.decelMdegps2
  let found := searchPeak a d dAbs targetUs 64 1 tr.vPeakMdegps (1, 18446744073709551615)
  let pmin := if found.1 > 32 then found.1 - 32 else 1
  let pmax := if found.1 < tr.vPeakMdegps - 32 then found.1 + 32 else tr.vPeakMdegps
  (probePeak a d dAbs targetUs pmin pmax found).1

/-- The trajectory at a speed, with the cruise that makes it take the given time. -/
def commit (tr : Trajectory) (targetUs : Nat) (vNew : Int) : Trajectory :=
  let tA := dtToReachV vNew tr.accelMdegps2
  let tD := dtToReachV vNew tr.decelMdegps2
  let tC := targetUs - tA - tD
  let xOffAccel := dxFromA tr.accelMdegps2 tA
  let xOffCruise := xOffAccel + dxFromV vNew tC
  { tr with
    vPeakMdegps := vNew
    accelDtUs := tA, cruiseDtUs := tC, decelDtUs := tD, totalDtUs := targetUs
    xAccelEndMdeg := tr.x0Mdeg + tr.direction * xOffAccel
    xCruiseEndMdeg := tr.x0Mdeg + tr.direction * xOffCruise }

/-- The source up to where it has written the candidate. -/
def candidate (tr : Trajectory) (targetUs : Nat) : Except Int Trajectory :=
  if tr.infinite then .error (-EINVAL)
  else if tr.direction = 0 then .error (-EINVAL)
  else if tr.totalDtUs = 0 then .error (-EINVAL)
  else if targetUs ≤ tr.totalDtUs then .error (-EINVAL)
  else if tr.direction * (tr.x1Mdeg - tr.x0Mdeg) ≤ 0 then .error (-EINVAL)
  else if tr.accelMdegps2 ≤ 0 ∨ tr.decelMdegps2 ≤ 0 then .error (-EINVAL)
  else if tr.vPeakMdegps < 1 then .error (-ERANGE)
  else
    let vNew := fitPeak tr (toUint64 (tr.direction * (tr.x1Mdeg - tr.x0Mdeg))) targetUs
    if vNew ≤ 0 then .error (-ERANGE)
    else if toUint64 (dtToReachV vNew tr.accelMdegps2 + dtToReachV vNew tr.decelMdegps2) ≥
        targetUs then .error (-ERANGE)
    else .ok (commit tr targetUs vNew)

def rollBack (tr committed : Trajectory) : Trajectory :=
  { committed with
    vPeakMdegps := tr.vPeakMdegps
    accelDtUs := tr.accelDtUs, cruiseDtUs := tr.cruiseDtUs, decelDtUs := tr.decelDtUs
    totalDtUs := tr.totalDtUs
    xAccelEndMdeg := tr.xAccelEndMdeg, xCruiseEndMdeg := tr.xCruiseEndMdeg }

/-- How far the reference is from the end at a time of the clock. -/
def residual (tr : Trajectory) (tUs : Nat) : Int :=
  let residual := (tr.getReference tUs).xMdeg - tr.x1Mdeg
  if residual < 0 then -residual else residual

/-- The gate at the end: the candidate stays, or the trajectory is what it was. -/
def gate (tr : Trajectory) (targetUs : Nat) : Except Int Trajectory → Int × Trajectory
  | .error e => (e, tr)
  | .ok committed =>
    if residual committed (targetUs - 1) > 100 then (-ERANGE, rollBack tr committed)
    else (0, committed)

/-- `db_trajectory_stretch_to_total`, with the trajectory it leaves. -/
def stretchToTotal (tr : Trajectory) (targetUs : Nat) : Int × Trajectory :=
  gate tr targetUs (candidate tr targetUs)

/-- What a call leaves, from its result alone. -/
def outcome (tr : Trajectory) : Except Int Trajectory → Int × Trajectory
  | .error e => (e, tr)
  | .ok stretched => (0, stretched)

/-- This is the function of the model, which leaves out that the trajectory is written in place. -/
theorem stretchToTotal_eq (tr : Trajectory) (targetUs : Nat) :
    stretchToTotal tr targetUs = outcome tr (tr.stretchToTotal targetUs) := by
  rw [stretchToTotal, candidate, Trajectory.stretchToTotal]
  simp only [apply_ite (gate tr targetUs), apply_ite (outcome tr)]
  rfl

/-! ## Another beginning -/

/-- The same trajectory, begun at `t0Us`. -/
def later (tr : Trajectory) (t0Us : Nat) : Trajectory := { tr with t0Us := t0Us }

theorem candidate_later (tr : Trajectory) (t0Us targetUs : Nat) :
    candidate (later tr t0Us) targetUs =
      (candidate tr targetUs).map fun committed => later committed t0Us := by
  simp only [candidate, apply_ite (Except.map _)]
  rfl

section

variable {tr c : Trajectory} {t0Us targetUs t : Nat}

theorem getReference_before (h : t < t0Us) :
    (later tr t0Us).getReference t = ⟨tr.x0Mdeg, 0, 0, false⟩ :=
  if_pos h

theorem getReference_later (h0 : tr.t0Us = 0) (h : t0Us ≤ t) :
    (later tr t0Us).getReference t = tr.getReference (t - t0Us) := by
  rw [getReference, getReference, h0, Nat.sub_zero, if_neg (Nat.not_lt_zero _),
    if_neg (show ¬ t < (later tr t0Us).t0Us from h.not_gt)]
  rfl

/-- What the gate looks at: the rest of the way `t0Us` before the end, the whole way if the
trajectory has not begun then. -/
def seen (c : Trajectory) (t0Us targetUs : Nat) : Int :=
  if targetUs ≤ t0Us then |c.x0Mdeg - c.x1Mdeg| else residual c (targetUs - 1 - t0Us)

theorem residual_eq_abs (tr : Trajectory) (tUs : Nat) :
    residual tr tUs = |(tr.getReference tUs).xMdeg - tr.x1Mdeg| := by
  rw [residual, abs_eq_max_neg]
  split <;> omega

theorem residual_later (h0 : c.t0Us = 0) (htarget : 0 < targetUs) :
    residual (later c t0Us) (targetUs - 1) = seen c t0Us targetUs := by
  rw [seen]
  split
  next hearly =>
    rw [residual_eq_abs, getReference_before (by omega)]
    rfl
  next hbegun =>
    rw [residual, residual, getReference_later h0 (by omega)]
    rfl

end

/-! ## The contract -/

/-- A stretched trajectory: the same way and the same ramps, at a lower speed, in the given time. -/
structure Stretched (tr stretched : Trajectory) (targetUs : Nat) : Prop where
  total : stretched.totalDtUs = targetUs
  x0Mdeg : stretched.x0Mdeg = tr.x0Mdeg
  x1Mdeg : stretched.x1Mdeg = tr.x1Mdeg
  direction : stretched.direction = tr.direction
  accel : stretched.accelMdegps2 = tr.accelMdegps2
  decel : stretched.decelMdegps2 = tr.decelMdegps2
  slower : stretched.vPeakMdegps < tr.vPeakMdegps
  arrives : residual stretched (tr.t0Us + targetUs - 1) ≤ 100

/-- What `drivebase_trajectory.h` promises, for a plan that may begin at any time. -/
structure Contract (planned : Nat → Trajectory) (t0Us targetUs : Nat) : Prop where
  return_eq : (stretchToTotal (planned t0Us) targetUs).1 = (stretchToTotal (planned 0) targetUs).1
  fields_eq : later (stretchToTotal (planned t0Us) targetUs).2 0 =
    later (stretchToTotal (planned 0) targetUs).2 0
  success : (stretchToTotal (planned t0Us) targetUs).1 = 0 →
    Stretched (planned t0Us) (stretchToTotal (planned t0Us) targetUs).2 targetUs
  failure : (stretchToTotal (planned t0Us) targetUs).1 ≠ 0 →
    (stretchToTotal (planned t0Us) targetUs).2 = planned t0Us
  succeeds : ∀ committed, candidate (planned t0Us) targetUs = .ok committed →
    residual committed (t0Us + targetUs - 1) ≤ 100 →
    (stretchToTotal (planned t0Us) targetUs).1 = 0

/-- What holds of every call. -/
structure Kept (tr : Trajectory) (targetUs : Nat) (result : Int × Trajectory) : Prop where
  success : result.1 = 0 → result.2.totalDtUs = targetUs ∧ SameWay tr result.2 ∧
    result.2.accelMdegps2 = tr.accelMdegps2 ∧ result.2.decelMdegps2 = tr.decelMdegps2
  failure : result.1 ≠ 0 → result.2 = tr

section

variable {a d : Int} {dAbs target : Nat} {best : Int × Nat}

end

section

variable {α : Type} {p : Prop} [Decidable p] {e : Int} {r : Except Int α}

theorem guard_ok {x : α} (h : (if p then .error e else r) = .ok x) : ¬ p ∧ r = .ok x := by
  split at h
  · cases h
  next hp => exact ⟨hp, h⟩

/-- What is refused is refused with an error. -/
def Refuses (r : Except Int α) : Prop := r ≠ .error 0

theorem refuses_guard (he : e ≠ 0) (hr : Refuses r) : Refuses (if p then .error e else r) := by
  split
  · exact fun h => he (Except.error.inj h)
  · exact hr

end

section

variable {tr committed : Trajectory} {targetUs : Nat}

theorem candidate_ok (h : candidate tr targetUs = .ok committed) :
    0 < targetUs ∧ tr.totalDtUs ≠ 0 ∧ committed = commit tr targetUs
      (fitPeak tr (toUint64 (tr.direction * (tr.x1Mdeg - tr.x0Mdeg))) targetUs) := by
  obtain ⟨hmoves, h⟩ := guard_ok (guard_ok (guard_ok h).2).2
  obtain ⟨hlonger, h⟩ := guard_ok h
  obtain ⟨-, h⟩ := guard_ok (guard_ok (guard_ok h).2).2
  obtain ⟨-, h⟩ := guard_ok (guard_ok h).2
  exact ⟨by omega, hmoves, (Except.ok.inj h).symm⟩

theorem refuses_candidate (tr : Trajectory) (targetUs : Nat) : Refuses (candidate tr targetUs) := by
  have hinval : -EINVAL ≠ 0 := by decide
  have hrange : -ERANGE ≠ 0 := by decide
  refine refuses_guard hinval (refuses_guard hinval (refuses_guard hinval ?_))
  refine refuses_guard hinval (refuses_guard hinval (refuses_guard hinval ?_))
  refine refuses_guard hrange (refuses_guard hrange (refuses_guard hrange ?_))
  exact fun h => nomatch h

theorem stretchToTotal_of_error {e : Int} (h : candidate tr targetUs = .error e) (t0Us : Nat) :
    stretchToTotal (later tr t0Us) targetUs = (e, later tr t0Us) := by
  rw [stretchToTotal, candidate_later, h]
  rfl

theorem stretchToTotal_of_ok (h0 : tr.t0Us = 0) (h : candidate tr targetUs = .ok committed)
    (t0Us : Nat) :
    stretchToTotal (later tr t0Us) targetUs =
      if seen committed t0Us targetUs > 100 then (-ERANGE, later tr t0Us)
      else (0, later committed t0Us) := by
  obtain ⟨htarget, -, rfl⟩ := candidate_ok h
  rw [stretchToTotal, candidate_later, h]
  simp only [Except.map, gate]
  rw [residual_later (c := commit tr targetUs _) h0 htarget]
  rfl

/-- **What a call leaves.** -/
theorem kept (tr : Trajectory) (targetUs : Nat) :
    Kept tr targetUs (stretchToTotal tr targetUs) := by
  unfold stretchToTotal
  cases h : candidate tr targetUs with
  | error e =>
    have herror : e ≠ 0 := by
      rintro rfl
      exact refuses_candidate tr targetUs h
    exact ⟨fun hzero => absurd hzero herror, fun _ => rfl⟩
  | ok committed =>
    obtain ⟨-, -, rfl⟩ := candidate_ok h
    have hrange : -ERANGE ≠ 0 := by decide
    simp only [gate]
    split
    · exact ⟨fun hzero => absurd hzero hrange, fun _ => rfl⟩
    · exact ⟨fun _ => ⟨rfl, ⟨rfl, rfl, rfl, rfl, rfl⟩, rfl, rfl⟩, fun hne => absurd rfl hne⟩

/-- A plan that begins later on the clock than it is to take is not stretched, however well it could
be, if its way is longer than the bound. -/
theorem late_refused (h0 : tr.t0Us = 0) {t0Us : Nat} (hlate : targetUs ≤ t0Us)
    (hfar : 100 < |tr.x0Mdeg - tr.x1Mdeg|) : (stretchToTotal (later tr t0Us) targetUs).1 ≠ 0 := by
  cases hcandidate : candidate tr targetUs with
  | error e =>
    rw [stretchToTotal_of_error hcandidate]
    rintro rfl
    exact refuses_candidate tr targetUs hcandidate
  | ok committed =>
    obtain ⟨-, -, hcommit⟩ := candidate_ok hcandidate
    have hseen : seen committed t0Us targetUs = |tr.x0Mdeg - tr.x1Mdeg| := by
      rw [seen, if_pos hlate, hcommit]
      rfl
    rw [stretchToTotal_of_ok h0 hcandidate, hseen, if_pos hfar]
    show -ERANGE ≠ 0
    decide

theorem late_refused_revolution : (stretchToTotal
    (later (initPosition 0 0 360000 500000 2000000 2000000) 3000000) 2000000).1 ≠ 0 :=
  late_refused (by decide) (by decide) (by decide)

end

end Brickwright.Drivebase.Stretch
