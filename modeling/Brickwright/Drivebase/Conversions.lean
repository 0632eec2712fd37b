import Brickwright.Bits.Checked
import Brickwright.Bits.Rounding
import Brickwright.Drivebase.Control

/-!
# Lengths and angles without overflow

`drivebase_angle.h` once more, with every signed operation checked: a conversion whose intermediate
values do not fit their types has no value. For the wheels and lengths of a drivebase there always
is one, and it is that of the unbounded conversion (`Fits.mmToMdeg_eq`).

A length that is converted to an angle of the wheel and back comes out as it was
(`Fits.mdegToMm_mmToMdeg`): the four roundings on the way are off by two and a half diameters
together, and a millimetre is more than that.
-/

namespace Brickwright.Drivebase.Angle

open Checked

/-- `db_angle_div_round`. -/
def divRound (num den : Int) : Option Int := do
  let half ← quot den 2
  if num ≥ 0 then quot (← int64 (num + half)) den else quot (← int64 (num - half)) den

/-- `db_angle_mdeg_to_mm`. -/
def mdegToMm (mdeg : Int) (wheelDUm : Nat) : Option Int := do
  let piMdeg ← divRound (← int64 (mdeg * 355)) 113
  let num ← int64 (piMdeg * wheelDUm)
  int32 (← divRound num 360000000)

/-- `db_angle_mm_to_mdeg`. -/
def mmToMdeg (mm : Int) (wheelDUm : Nat) : Option Int :=
  if wheelDUm = 0 then some 0
  else do
    let piMm ← divRound (← int64 (mm * 360000000)) wheelDUm
    divRound (← int64 (piMm * 113)) 355

variable {num den mm mm' mdeg : Int} {wheelDUm : Nat}

/-! ## Where they have a value -/

theorem nearest_eq_divRound : Rounding.nearest num den = Drivebase.divRound num den := rfl

theorem divRound_eq (hden : 0 < den) (h : num.natAbs + den.natAbs < 9223372036854775808) :
    divRound num den = some (Drivebase.divRound num den) := by
  have hhalf : den.tdiv 2 = den / 2 := Int.tdiv_eq_ediv_of_nonneg (by omega)
  rw [divRound, quot_eq_some (by omega) (by omega), Drivebase.divRound, hhalf]
  simp only [Option.bind_eq_bind, Option.bind_some]
  split
  · rw [int64_eq_some (by omega), Option.bind_some, quot_eq_some (by omega) (by omega)]
  · rw [int64_eq_some (by omega), Option.bind_some, quot_eq_some (by omega) (by omega)]

theorem of_divRound {q : Int} (h : divRound num den = some q) :
    Drivebase.divRound num den = q := by
  simp only [divRound, Option.bind_eq_bind, Option.bind_eq_some_iff] at h
  obtain ⟨half, hhalf, hquot⟩ := h
  obtain rfl := of_quot hhalf
  unfold Drivebase.divRound
  split at hquot
  · next hnum =>
    rw [if_pos hnum]
    obtain ⟨sum, hsum, hquot⟩ := Option.bind_eq_some_iff.mp hquot
    obtain rfl := of_int64 hsum
    exact of_quot hquot
  · next hnum =>
    rw [if_neg hnum]
    obtain ⟨sum, hsum, hquot⟩ := Option.bind_eq_some_iff.mp hquot
    obtain rfl := of_int64 hsum
    exact of_quot hquot

theorem of_mmToMdeg (h : mmToMdeg mm wheelDUm = some mdeg) :
    Drivebase.mmToMdeg mm wheelDUm = mdeg := by
  unfold mmToMdeg at h
  unfold Drivebase.mmToMdeg
  split at h
  · next hwheel =>
    rw [if_pos hwheel]
    exact Option.some.inj h
  · next hwheel =>
    rw [if_neg hwheel]
    simp only [Option.bind_eq_bind, Option.bind_eq_some_iff] at h
    obtain ⟨length, hlength, piMm, hpi, scaled, hscaled, hround⟩ := h
    obtain rfl := of_int64 hlength
    obtain rfl := of_divRound hpi
    obtain rfl := of_int64 hscaled
    exact of_divRound hround

/-- What the controller is given: a length in millimetres and the diameter of a wheel. -/
structure Fits (mm : Int) (wheelDUm : Nat) : Prop where
  mm_mem : int32Min ≤ mm ∧ mm ≤ int32Max
  wheel_mem : 10 ≤ wheelDUm ∧ wheelDUm ≤ 10000000

theorem ten_mul_natAbs_divRound_le (hwheel : 10 ≤ wheelDUm) (num : Int) :
    10 * (Drivebase.divRound num wheelDUm).natAbs ≤ num.natAbs + wheelDUm := by
  have hden : (0 : Int) < wheelDUm := by omega
  obtain ⟨hle, hge⟩ := Rounding.nearest_spec num hden
  rw [nearest_eq_divRound] at hle hge
  generalize Drivebase.divRound num wheelDUm = q at hle hge
  have hmul : 10 * q.natAbs ≤ wheelDUm * q.natAbs := Nat.mul_le_mul_right _ hwheel
  have habs : (wheelDUm * q.natAbs : Nat) = ((wheelDUm : Int) * q).natAbs := by
    rw [Int.natAbs_mul, Int.natAbs_natCast]
  omega

namespace Fits

theorem wheel_pos (h : Fits mm wheelDUm) : (0 : Int) < wheelDUm := by
  have := h.wheel_mem
  omega

theorem natAbs_length_le (h : Fits mm wheelDUm) :
    (mm * 360000000).natAbs ≤ 773094113280000000 := by
  obtain ⟨hlow, hhigh⟩ := h.mm_mem
  unfold int32Min at hlow
  unfold int32Max at hhigh
  omega

theorem natAbs_piMm_le (h : Fits mm wheelDUm) :
    (Drivebase.divRound (mm * 360000000) wheelDUm).natAbs ≤ 77309411329000000 := by
  have hten := ten_mul_natAbs_divRound_le h.wheel_mem.1 (mm * 360000000)
  have hlength := h.natAbs_length_le
  have hwheel := h.wheel_mem.2
  omega

/-- **A length has an angle**, and it is the unbounded one. -/
theorem mmToMdeg_eq (h : Fits mm wheelDUm) :
    mmToMdeg mm wheelDUm = some (Drivebase.mmToMdeg mm wheelDUm) := by
  have hwheel := h.wheel_mem
  have hlength := h.natAbs_length_le
  have hpi := h.natAbs_piMm_le
  rw [mmToMdeg, if_neg (by omega), int64_eq_some (by omega), Drivebase.mmToMdeg, if_neg (by omega)]
  simp only [Option.bind_eq_bind, Option.bind_some]
  rw [divRound_eq h.wheel_pos (by omega), Option.bind_some, int64_eq_some (by omega),
    Option.bind_some, divRound_eq (by decide) (by omega)]

/-! ## There and back -/

theorem natAbs_piMdeg_sub_le (piMm : Int) :
    (Drivebase.divRound (Drivebase.divRound (piMm * 113) 355 * 355) 113 - piMm).natAbs ≤ 2 := by
  have hout := Rounding.nearest_spec (piMm * 113) (show (0 : Int) < 355 by decide)
  rw [nearest_eq_divRound] at hout
  have hin := Rounding.nearest_spec (Drivebase.divRound (piMm * 113) 355 * 355)
    (show (0 : Int) < 113 by decide)
  rw [nearest_eq_divRound] at hin
  omega

theorem natAbs_back_sub_le (h : Fits mm wheelDUm) {piMdeg : Int}
    (hpi : (piMdeg - Drivebase.divRound (mm * 360000000) wheelDUm).natAbs ≤ 2) :
    2 * (piMdeg * wheelDUm - mm * 360000000).natAbs ≤ 5 * wheelDUm := by
  obtain ⟨hle, hge⟩ := Rounding.nearest_spec (mm * 360000000) h.wheel_pos
  rw [nearest_eq_divRound] at hle hge
  generalize Drivebase.divRound (mm * 360000000) wheelDUm = piMm at hle hge hpi
  have hsplit : piMdeg * wheelDUm = wheelDUm * piMm + wheelDUm * (piMdeg - piMm) := by
    rw [← Int.mul_add, Int.mul_comm]
    congr 1
    omega
  have hoff : ((wheelDUm : Int) * (piMdeg - piMm)).natAbs ≤ wheelDUm * 2 :=
    natAbs_mul_le (by rw [Int.natAbs_natCast]) hpi
  omega

/-- **There and back**: a length that became an angle becomes itself again. -/
theorem mdegToMm_mmToMdeg (h : Fits mm wheelDUm) :
    mdegToMm (Drivebase.mmToMdeg mm wheelDUm) wheelDUm = some mm := by
  have hwheel := h.wheel_mem
  have hpi := h.natAbs_piMm_le
  have hmm := h.mm_mem
  unfold int32Min int32Max at hmm
  rw [Drivebase.mmToMdeg, if_neg (by omega)]
  have hangle := Rounding.nearest_spec (Drivebase.divRound (mm * 360000000) wheelDUm * 113)
    (show (0 : Int) < 355 by decide)
  rw [nearest_eq_divRound] at hangle
  have hoff := natAbs_piMdeg_sub_le (Drivebase.divRound (mm * 360000000) wheelDUm)
  have hback := h.natAbs_back_sub_le hoff
  generalize Drivebase.divRound (Drivebase.divRound (mm * 360000000) wheelDUm * 113) 355 = mdeg
    at hangle hoff hback ⊢
  rw [mdegToMm, int64_eq_some (by omega)]
  simp only [Option.bind_eq_bind, Option.bind_some]
  rw [divRound_eq (by decide) (by omega), Option.bind_some]
  generalize Drivebase.divRound (mdeg * 355) 113 = piMdeg at hoff hback ⊢
  rw [int64_eq_some (by omega), Option.bind_some, divRound_eq (by decide) (by omega),
    Option.bind_some, ← nearest_eq_divRound,
    Rounding.nearest_eq (q := mm) (by decide) (by omega) (by omega), int32, if_pos hmm]

/-! ## Signs and order -/

theorem neg (h : Fits mm wheelDUm) (hmm : mm ≠ int32Min) : Fits (-mm) wheelDUm := by
  obtain ⟨hlow, hhigh⟩ := h.mm_mem
  unfold int32Min at hlow hmm
  unfold int32Max at hhigh
  exact ⟨⟨by unfold int32Min; omega, by unfold int32Max; omega⟩, h.wheel_mem⟩

theorem mmToMdeg_neg (h : Fits mm wheelDUm) :
    Drivebase.mmToMdeg (-mm) wheelDUm = -Drivebase.mmToMdeg mm wheelDUm := by
  have hwheel := h.wheel_mem
  unfold Drivebase.mmToMdeg
  rw [if_neg (by omega), if_neg (by omega)]
  simp only [← nearest_eq_divRound]
  rw [Int.neg_mul, Rounding.nearest_neg _ h.wheel_pos, Int.neg_mul,
    Rounding.nearest_neg _ (by decide)]

theorem mmToMdeg_mono (h : Fits mm wheelDUm) (hle : mm ≤ mm') :
    Drivebase.mmToMdeg mm wheelDUm ≤ Drivebase.mmToMdeg mm' wheelDUm := by
  have hwheel := h.wheel_mem
  unfold Drivebase.mmToMdeg
  rw [if_neg (by omega), if_neg (by omega)]
  apply Rounding.nearest_mono (by decide)
  apply Int.mul_le_mul_of_nonneg_right _ (by decide)
  apply Rounding.nearest_mono h.wheel_pos
  exact Int.mul_le_mul_of_nonneg_right hle (by decide)

end Fits

/-- **Lengths and angles of a wheel.** A length has an angle, no intermediate value overflows on the
way there or back, and the way back leads to the length; the angle of the opposite length is the
opposite one, and a larger length has no smaller angle. -/
theorem length_of_angle (mm : Int) (wheelDUm : Nat) (hmm : int32Min ≤ mm ∧ mm ≤ int32Max)
    (hwheel : 10 ≤ wheelDUm ∧ wheelDUm ≤ 10000000) :
    ∃ mdeg, mmToMdeg mm wheelDUm = some mdeg ∧ mdegToMm mdeg wheelDUm = some mm ∧
      (mm ≠ int32Min → mmToMdeg (-mm) wheelDUm = some (-mdeg)) ∧
      ∀ mm' mdeg', mm ≤ mm' → mm' ≤ int32Max → mmToMdeg mm' wheelDUm = some mdeg' →
        mdeg ≤ mdeg' := by
  have h : Fits mm wheelDUm := ⟨hmm, hwheel⟩
  refine ⟨Drivebase.mmToMdeg mm wheelDUm, h.mmToMdeg_eq, h.mdegToMm_mmToMdeg, ?_, ?_⟩
  · intro hmin
    rw [(h.neg hmin).mmToMdeg_eq, h.mmToMdeg_neg]
  · intro mm' mdeg' hle hmax hangle
    have h' : Fits mm' wheelDUm := ⟨⟨Int.le_trans hmm.1 hle, hmax⟩, hwheel⟩
    rw [h'.mmToMdeg_eq] at hangle
    rw [← Option.some.inj hangle]
    exact h.mmToMdeg_mono hle

theorem length_of_angle_56 :
    ∃ mdeg, mmToMdeg (-2147483648) 56000 = some mdeg ∧
      mdegToMm mdeg 56000 = some (-2147483648) ∧
      ((-2147483648 : Int) ≠ int32Min → mmToMdeg 2147483648 56000 = some (-mdeg)) ∧
      ∀ mm' mdeg', -2147483648 ≤ mm' → mm' ≤ int32Max → mmToMdeg mm' 56000 = some mdeg' →
        mdeg ≤ mdeg' :=
  length_of_angle (-2147483648) 56000 (by decide) (by decide)

end Brickwright.Drivebase.Angle
