import Mathlib.Data.Int.Order.Basic
import Mathlib.Order.Basic

/-!
# Division to the nearest

The quotient that is next to the exact one, with a middle going away from zero, computed from a
division that drops the remainder. What a chain of such divisions is off by is read off
`nearest_spec` for each of them; that none of them overtakes another, and that they treat both signs
alike, is `nearest_mono` and `nearest_neg`.
-/

namespace Rounding

/-- `num / den`, to the nearest. -/
def nearest (num den : Int) : Int :=
  if num ≥ 0 then (num + den.tdiv 2).tdiv den else (num - den.tdiv 2).tdiv den

variable {num num' den q : Int}

theorem nearest_of_nonneg (hnum : 0 ≤ num) (hden : 0 < den) :
    nearest num den = (num + den / 2) / den := by
  have hhalf : den.tdiv 2 = den / 2 := Int.tdiv_eq_ediv_of_nonneg (by omega)
  rw [nearest, if_pos hnum, hhalf, Int.tdiv_eq_ediv_of_nonneg (by omega)]

/-- **Both signs are treated alike.** -/
theorem nearest_neg (num : Int) (hden : 0 < den) : nearest (-num) den = -nearest num den := by
  unfold nearest
  rcases Int.lt_trichotomy num 0 with hneg | rfl | hpos
  · rw [if_pos (by omega), if_neg (by omega), ← Int.neg_tdiv]
    congr 1
    omega
  · have hhalf : den.tdiv 2 = den / 2 := Int.tdiv_eq_ediv_of_nonneg (by omega)
    have hzero : (den.tdiv 2).tdiv den = 0 :=
      Int.tdiv_eq_zero_of_lt (by omega) (by omega)
    rw [Int.neg_zero, if_pos (Int.le_refl 0), Int.zero_add, hzero, Int.neg_zero]
  · rw [if_neg (by omega), if_pos (by omega), ← Int.neg_tdiv]
    congr 1
    omega

theorem nearest_nonneg (hnum : 0 ≤ num) (hden : 0 < den) : 0 ≤ nearest num den := by
  rw [nearest_of_nonneg hnum hden]
  exact Int.ediv_nonneg (by omega) (Int.le_of_lt hden)

theorem nearest_spec_of_nonneg (hnum : 0 ≤ num) (hden : 0 < den) :
    2 * (den * nearest num den) ≤ 2 * num + den ∧ 2 * num ≤ 2 * (den * nearest num den) + den := by
  rw [nearest_of_nonneg hnum hden]
  have hrem := Int.emod_add_mul_ediv (num + den / 2) den
  have hlt := Int.emod_lt_of_pos (num + den / 2) hden
  have hnonneg := Int.emod_nonneg (num + den / 2) (Int.ne_of_gt hden)
  generalize den * ((num + den / 2) / den) = whole at hrem ⊢
  omega

/-- **The quotient is off by a half at most.** -/
theorem nearest_spec (num : Int) (hden : 0 < den) :
    2 * (den * nearest num den) ≤ 2 * num + den ∧ 2 * num ≤ 2 * (den * nearest num den) + den := by
  rcases Int.le_total 0 num with hnum | hnum
  · exact nearest_spec_of_nonneg hnum hden
  · obtain ⟨hle, hge⟩ := @nearest_spec_of_nonneg (-num) den (by omega) hden
    rw [nearest_neg num hden, Int.mul_neg den] at hle hge
    omega

/-- **A larger numerator does not give a smaller quotient.** -/
theorem nearest_mono (hden : 0 < den) (h : num ≤ num') : nearest num den ≤ nearest num' den := by
  have hup : ∀ {a b : Int}, 0 ≤ a → a ≤ b → nearest a den ≤ nearest b den := by
    intro a b ha hab
    rw [nearest_of_nonneg ha hden, nearest_of_nonneg (Int.le_trans ha hab) hden]
    exact Int.ediv_le_ediv hden (by omega)
  rcases Int.le_total 0 num with hnum | hnum
  · exact hup hnum h
  · rcases Int.le_total 0 num' with hnum' | hnum'
    · have hneg := @nearest_nonneg (-num) den (by omega) hden
      have hpos := nearest_nonneg hnum' hden
      rw [nearest_neg num hden] at hneg
      omega
    · have hle := hup (a := -num') (b := -num) (by omega) (by omega)
      rw [nearest_neg num hden, nearest_neg num' hden] at hle
      omega

/-- A numerator that is off from a multiple by less than a half gives the multiple back. -/
theorem nearest_eq (hden : 0 < den) (hlt : 2 * num < 2 * (den * q) + den)
    (hgt : 2 * (den * q) < 2 * num + den) : nearest num den = q := by
  obtain ⟨hle, hge⟩ := nearest_spec num hden
  have hdiff : den * (nearest num den - q) = den * nearest num den - den * q := Int.mul_sub ..
  have hlow : -1 < nearest num den - q := by
    by_contra hnot
    have := Int.mul_le_mul_of_nonneg_left (show nearest num den - q ≤ -1 by omega)
      (Int.le_of_lt hden)
    omega
  have hhigh : nearest num den - q < 1 := by
    by_contra hnot
    have := Int.mul_le_mul_of_nonneg_left (show 1 ≤ nearest num den - q by omega)
      (Int.le_of_lt hden)
    omega
  omega

end Rounding
