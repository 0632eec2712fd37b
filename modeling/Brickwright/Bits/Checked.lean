import Brickwright.Bytes.Buffers

/-!
# Arithmetic that must not overflow

C leaves a signed operation undefined when its value does not fit its type, and so it does a
division by zero and an access behind the end of an array. Here such a step has no value, and a
program that has one has made none of them.

* `Yields` — a program has a value, and the value meets a condition; `Yields.bind` puts the parts of
  a program together, and `yields_int64`, `yields_quot` and the others are its steps.
* `natAbs_mul_le`, `natAbs_tdiv_le`, `natAbs_add_tdiv_le` — how bounds go through the operations.
-/

namespace Checked

/-! ## The operations -/

def int64 (x : Int) : Option Int :=
  if -9223372036854775808 ≤ x ∧ x ≤ 9223372036854775807 then some x else none

def int32 (x : Int) : Option Int := if -2147483648 ≤ x ∧ x ≤ 2147483647 then some x else none

/-- `a / b` of two `int64_t`. -/
def quot (a b : Int) : Option Int := if b = 0 then none else int64 (a.tdiv b)

section

variable {α β : Type}

def load (xs : List α) (i : Nat) : Option α := xs[i]?

def store (xs : List α) (i : Nat) (a : α) : Option (List α) :=
  if i < xs.length then some (xs.set i a) else none

/-- The `n` entries from `off` on. -/
def span (xs : List α) (off n : Nat) : Option (List α) :=
  if off + n ≤ xs.length then some (xs.window off n) else none

/-- `memcpy` into an array. -/
def copy (xs : List α) (off : Nat) (ys : List α) : Option (List α) :=
  if off + ys.length ≤ xs.length then some (xs.overlay off ys) else none

/-! ## Programs with a value -/

/-- The program has a value, and the value meets `Q`. -/
def Yields (p : Option α) (Q : α → Prop) : Prop := ∃ a, p = some a ∧ Q a

variable {p : Option α} {f : α → Option β} {Q : α → Prop} {R : β → Prop}

theorem yields_some {a : α} (h : Q a) : Yields (some a) Q := ⟨a, rfl, h⟩

theorem Yields.bind (hp : Yields p Q) (hf : ∀ a, Q a → Yields (f a) R) : Yields (p >>= f) R := by
  obtain ⟨a, rfl, ha⟩ := hp
  exact hf a ha

theorem load_eq_some {xs : List α} {i : Nat} (hi : i < xs.length) (d : α) :
    load xs i = some (xs.getD i d) := by
  rw [load, List.getD, List.getElem?_eq_getElem hi, Option.getD_some]

theorem store_eq_some {xs : List α} {i : Nat} (hi : i < xs.length) (a : α) :
    store xs i a = some (xs.set i a) := if_pos hi

theorem span_eq_some {xs : List α} {off n : Nat} (h : off + n ≤ xs.length) :
    span xs off n = some (xs.window off n) := if_pos h

theorem copy_eq_some {xs ys : List α} {off : Nat} (h : off + ys.length ≤ xs.length) :
    copy xs off ys = some (xs.overlay off ys) := if_pos h

theorem yields_load {xs : List α} {i : Nat} (hi : i < xs.length) (hf : Yields (f xs[i]) R) :
    Yields (load xs i >>= f) R := by
  refine Yields.bind (Q := (· = xs[i])) ⟨xs[i], List.getElem?_eq_getElem hi, rfl⟩ fun a ha => ?_
  rwa [ha]

theorem yields_store {xs : List α} {i : Nat} {a : α} {g : List α → Option β} (hi : i < xs.length)
    (hg : Yields (g (xs.set i a)) R) : Yields (store xs i a >>= g) R := by
  rw [store_eq_some hi]
  exact hg

end

section

variable {β : Type} {f : Int → Option β} {R : β → Prop} {x a b : Int}

theorem int64_eq_some (h : x.natAbs < 9223372036854775808) : int64 x = some x := by
  rw [int64, if_pos]
  omega

theorem int32_eq_some (h : x.natAbs < 2147483648) : int32 x = some x := by
  rw [int32, if_pos]
  omega

theorem quot_eq_some (hb : b ≠ 0) (h : a.natAbs < 9223372036854775808) :
    quot a b = some (a.tdiv b) := by
  rw [quot, if_neg hb]
  apply int64_eq_some
  rw [Int.natAbs_tdiv]
  exact Nat.lt_of_le_of_lt (Nat.div_le_self _ _) h

theorem of_int64 {y : Int} (h : int64 x = some y) : x = y := by
  unfold int64 at h
  split at h
  · exact Option.some.inj h
  · cases h

theorem of_int32 {y : Int} (h : int32 x = some y) : x = y ∧ -2147483648 ≤ x ∧ x ≤ 2147483647 := by
  unfold int32 at h
  split at h
  · next hfits => exact ⟨Option.some.inj h, hfits⟩
  · cases h

theorem of_quot {y : Int} (h : quot a b = some y) : a.tdiv b = y := by
  unfold quot at h
  split at h
  · cases h
  · exact of_int64 h

theorem yields_int64 (h : x.natAbs < 9223372036854775808) (hf : Yields (f x) R) :
    Yields (int64 x >>= f) R := by
  rw [int64_eq_some h]
  exact hf

theorem yields_int32 (h : x.natAbs < 2147483648) (hf : Yields (f x) R) :
    Yields (int32 x >>= f) R := by
  rw [int32_eq_some h]
  exact hf

theorem yields_quot (hb : b ≠ 0) (h : a.natAbs < 9223372036854775808)
    (hf : Yields (f (a.tdiv b)) R) : Yields (quot a b >>= f) R := by
  rw [quot_eq_some hb h]
  exact hf

end

theorem tdiv_tdiv (a b c : Int) : (a.tdiv b).tdiv c = a.tdiv (b * c) := by
  have hnat : ∀ n m k : Nat, ((n : Int).tdiv m).tdiv k = (n : Int).tdiv (m * k) := by
    intro n m k
    rw [← Int.ofNat_tdiv, ← Int.ofNat_tdiv, ← Int.natCast_mul, ← Int.ofNat_tdiv,
      Nat.div_div_eq_div_mul]
  obtain ⟨n, rfl | rfl⟩ := Int.eq_nat_or_neg a <;> obtain ⟨m, rfl | rfl⟩ := Int.eq_nat_or_neg b <;>
    obtain ⟨k, rfl | rfl⟩ := Int.eq_nat_or_neg c <;>
    simp [Int.neg_tdiv, Int.tdiv_neg, -Int.natCast_tdiv_eq_ediv, hnat]

/-! ## Bounds -/

section

variable {a b : Int} {A B : Nat}

theorem natAbs_mul_le (ha : a.natAbs ≤ A) (hb : b.natAbs ≤ B) : (a * b).natAbs ≤ A * B := by
  rw [Int.natAbs_mul]
  exact Nat.mul_le_mul ha hb

theorem natAbs_tdiv_le (b : Int) (ha : a.natAbs ≤ A) : (a.tdiv b).natAbs ≤ A := by
  rw [Int.natAbs_tdiv]
  exact Nat.le_trans (Nat.div_le_self _ _) ha

theorem natAbs_add_tdiv_le {k n : Nat} (hk : k ≤ n) (ha : a.natAbs ≤ A) (hb : b.natAbs ≤ A) :
    (a + ((b - a) * k).tdiv n).natAbs ≤ A := by
  have hpart : (((b - a) * k).tdiv n).natAbs ≤ (b - a).natAbs := by
    rw [Int.natAbs_tdiv, Int.natAbs_mul, Int.natAbs_natCast, Int.natAbs_natCast]
    apply Nat.div_le_of_le_mul
    rw [Nat.mul_comm n]
    exact Nat.mul_le_mul_left _ hk
  rcases Int.le_total a b with hle | hle
  · have hsign : 0 ≤ ((b - a) * k).tdiv n :=
      Int.tdiv_nonneg (Int.mul_nonneg (by omega) (by omega)) (by omega)
    omega
  · have hsign : 0 ≤ ((a - b) * k).tdiv n :=
      Int.tdiv_nonneg (Int.mul_nonneg (by omega) (by omega)) (by omega)
    have hneg : ((b - a) * k).tdiv n = - ((a - b) * k).tdiv n := by
      rw [← Int.neg_tdiv, ← Int.neg_mul, Int.neg_sub]
    omega

end

end Checked
