import Mathlib.Data.Nat.Digits.Lemmas

/-!
# Decimal numbers as text

`decimal` and `signed` are the canonical renderings: no leading zero, no sign of a zero. The value
of a run of digits is read from the left, as a reader that takes one byte after the other does.

* `value_decimal` and `decimal_value` — the rendering and the value undo each other.
-/

namespace Decimal

open List

def text (s : String) : List UInt8 := s.toList.map fun c => c.toNat.toUInt8

theorem text_ofList (chars : List Char) :
    text (String.ofList chars) = chars.map fun c => c.toNat.toUInt8 :=
  congrArg (List.map _) String.toList_ofList

def IsDigit (b : UInt8) : Prop := 48 ≤ b ∧ b ≤ 57

instance (b : UInt8) : Decidable (IsDigit b) := inferInstanceAs (Decidable (_ ∧ _))

def digit (d : Nat) : UInt8 := 48 + d.toUInt8

def digitValue (b : UInt8) : Nat := (b - 48).toNat

theorem isDigit_digit {d : Nat} (h : d < 10) : IsDigit (digit d) := by
  have hall : ∀ d < 10, IsDigit (digit d) := by decide
  exact hall d h

theorem digitValue_digit {d : Nat} (h : d < 10) : digitValue (digit d) = d := by
  have hall : ∀ d < 10, digitValue (digit d) = d := by decide
  exact hall d h

theorem digitValue_lt {b : UInt8} (h : IsDigit b) : digitValue b < 10 := by
  have h9 : b.toNat ≤ 57 := h.2
  rw [digitValue, UInt8.toNat_sub_of_le _ _ h.1]
  change b.toNat - 48 < 10
  omega

theorem digit_digitValue (b : UInt8) : digit (digitValue b) = b := by
  rw [digit, digitValue, Nat.toUInt8, UInt8.ofNat_toNat, UInt8.add_comm, UInt8.sub_add_cancel]

def shift (value : Nat) (b : UInt8) : Nat := value * 10 + digitValue b

/-- The value of a run of digits behind a number. -/
def value (start : Nat) (digits : List UInt8) : Nat := digits.foldl shift start

@[simp] theorem value_nil (start : Nat) : value start [] = start := rfl

@[simp] theorem value_cons (start : Nat) (b : UInt8) (digits : List UInt8) :
    value start (b :: digits) = value (shift start b) digits := rfl

theorem le_shift (start : Nat) (b : UInt8) : start ≤ shift start b := by
  rw [shift]
  omega

theorem le_value (start : Nat) (digits : List UInt8) : start ≤ value start digits := by
  induction digits generalizing start with
  | nil => exact Nat.le_refl _
  | cons b digits ih => exact (le_shift start b).trans (ih _)

theorem value_reverse (digits : List UInt8) :
    value 0 digits.reverse = Nat.ofDigits 10 (digits.map digitValue) := by
  rw [value, foldl_reverse, Nat.ofDigits_eq_foldr, foldr_map]
  congr 1
  funext b rest
  rw [shift, Nat.cast_id]
  omega

/-- The canonical rendering of a natural number. -/
def decimal (n : Nat) : List UInt8 :=
  if n = 0 then [48] else ((Nat.digits 10 n).map digit).reverse

theorem decimal_of_ne_zero {n : Nat} (h : n ≠ 0) :
    decimal n = ((Nat.digits 10 n).map digit).reverse := if_neg h

theorem map_digitValue_digits (n : Nat) :
    ((Nat.digits 10 n).map digit).map digitValue = Nat.digits 10 n := by
  rw [map_map]
  calc (Nat.digits 10 n).map (digitValue ∘ digit)
      = (Nat.digits 10 n).map id :=
        map_congr_left fun d hd => digitValue_digit (Nat.digits_lt_base (by decide) hd)
    _ = Nat.digits 10 n := map_id _

@[simp] theorem value_decimal (n : Nat) : value 0 (decimal n) = n := by
  by_cases hn : n = 0
  · subst hn
    rfl
  · rw [decimal_of_ne_zero hn, value_reverse, map_digitValue_digits, Nat.ofDigits_digits]

theorem isDigit_of_mem_decimal {n : Nat} {b : UInt8} (h : b ∈ decimal n) : IsDigit b := by
  by_cases hn : n = 0
  · subst hn
    cases mem_singleton.mp h
    decide
  · rw [decimal_of_ne_zero hn, mem_reverse] at h
    obtain ⟨d, hd, rfl⟩ := mem_map.mp h
    exact isDigit_digit (Nat.digits_lt_base (by decide) hd)

theorem decimal_ne_nil (n : Nat) : decimal n ≠ [] := by
  by_cases hn : n = 0
  · subst hn
    decide
  · rw [decimal_of_ne_zero hn, Ne, reverse_eq_nil_iff, map_eq_nil_iff]
    exact Nat.digits_ne_nil_iff_ne_zero.mpr hn

/-- No leading zero, unless the number is zero. -/
theorem head?_decimal {n : Nat} (h : n ≠ 0) : (decimal n).head? ≠ some 48 := by
  have hlast : (Nat.digits 10 n).getLast? =
      some ((Nat.digits 10 n).getLast (Nat.digits_ne_nil_iff_ne_zero.mpr h)) :=
    List.getLast?_eq_some_getLast _
  rw [decimal_of_ne_zero h, List.head?_reverse, List.getLast?_map, hlast, Option.map_some]
  intro hzero
  have hlt : _ < 10 := Nat.digits_lt_base (by decide)
    (getLast_mem (Nat.digits_ne_nil_iff_ne_zero.mpr h))
  have hvalue := congrArg digitValue (Option.some.inj hzero)
  rw [digitValue_digit hlt] at hvalue
  exact Nat.getLast_digit_ne_zero 10 h hvalue

theorem decimal_digitValue {b : UInt8} (h : IsDigit b) : decimal (digitValue b) = [b] := by
  have hall : ∀ d < 10, decimal d = [digit d] := by decide
  rw [hall _ (digitValue_lt h), digit_digitValue]

/-- **Canonical digits are the rendering of their value.** -/
theorem decimal_value {digits : List UInt8} (hdigits : ∀ b ∈ digits, IsDigit b)
    (hne : digits ≠ []) (hzero : 1 < digits.length → digits.head? ≠ some 48) :
    decimal (value 0 digits) = digits := by
  cases digits with
  | nil => exact absurd rfl hne
  | cons b rest =>
    by_cases hrest : rest = []
    · subst hrest
      rw [value_cons, value_nil, shift, Nat.zero_mul, Nat.zero_add]
      exact decimal_digitValue (hdigits b mem_cons_self)
    · -- the digits from the right, the last of them not zero
      have hhead : b ≠ 48 := fun hb => hzero
        (by simpa using length_pos_iff.mpr hrest) (by rw [List.head?_cons, hb])
      have hlast : digitValue b ≠ 0 := fun h => hhead (by
        rw [← digit_digitValue b, h]
        rfl)
      have hofDigits : Nat.digits 10 (value 0 (b :: rest)) =
          (b :: rest).reverse.map digitValue := by
        have hvalue := value_reverse (b :: rest).reverse
        rw [reverse_reverse] at hvalue
        rw [hvalue]
        refine Nat.digits_ofDigits 10 (by decide) _ (fun d hd => ?_) (fun h => ?_)
        · obtain ⟨c, hc, rfl⟩ := mem_map.mp hd
          exact digitValue_lt (hdigits c (mem_reverse.mp hc))
        · simpa using hlast
      have hnonzero : value 0 (b :: rest) ≠ 0 := by
        intro h
        rw [h] at hofDigits
        simp at hofDigits
      rw [decimal_of_ne_zero hnonzero, hofDigits, map_reverse, map_reverse,
        reverse_reverse, map_map]
      calc (b :: rest).map (digit ∘ digitValue)
          = (b :: rest).map id :=
            map_congr_left fun c _ => digit_digitValue c
        _ = b :: rest := map_id _

theorem exists_decimal_eq_cons (n : Nat) : ∃ b rest, decimal n = b :: rest ∧ IsDigit b := by
  obtain ⟨b, rest, h⟩ := exists_cons_of_ne_nil (decimal_ne_nil n)
  exact ⟨b, rest, h, isDigit_of_mem_decimal (h ▸ mem_cons_self)⟩

theorem length_decimal_le {n k : Nat} (hk : 0 < k) (h : n < 10 ^ k) : (decimal n).length ≤ k := by
  by_cases hn : n = 0
  · subst hn
    exact hk
  · rw [decimal_of_ne_zero hn, length_reverse, length_map]
    exact (Nat.digits_length_le_iff (by decide) n).mpr h

/-- The canonical rendering of an integer. -/
def signed : Int → List UInt8
  | .ofNat n => decimal n
  | .negSucc n => 45 :: decimal (n + 1)

@[simp] theorem signed_ofNat (n : Nat) : signed n = decimal n := rfl

theorem signed_neg {n : Nat} (h : n ≠ 0) : signed (-n) = 45 :: decimal n := by
  cases n with
  | zero => exact absurd rfl h
  | succ n => rfl

theorem length_signed_le {v : Int} {k : Nat} (hk : 0 < k) (h : v.natAbs < 10 ^ k) :
    (signed v).length ≤ k + 1 := by
  cases v with
  | ofNat n => exact (length_decimal_le hk h).trans (Nat.le_succ k)
  | negSucc n => exact Nat.succ_le_succ (length_decimal_le hk h)

end Decimal
