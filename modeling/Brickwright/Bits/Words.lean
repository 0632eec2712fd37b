import Mathlib.Data.List.Chain
import Mathlib.Data.Nat.Bitwise
import Mathlib.Data.UInt

/-!
# Machine words

Counters that come round, flags in a word, and the position behind a counter.
-/

/-!
## Counters that come round

A word counts up to its width: the same word after fewer steps than that is the same number.
-/

namespace UInt32

theorem ofNat_add_one (n : Nat) : UInt32.ofNat n + 1 = UInt32.ofNat (n + 1) :=
  (UInt32.ofNat_add n 1).symm

theorem ofNat_succ_sub_one (n : Nat) : UInt32.ofNat (n + 1) - 1 = UInt32.ofNat n := by
  rw [← ofNat_add_one]
  exact UInt32.add_sub_cancel _ _

theorem eq_of_ofNat_eq {m n : Nat} (hle : m ≤ n) (heq : UInt32.ofNat m = UInt32.ofNat n)
    (hlt : n < m + 2 ^ 32) : m = n := by
  have hmod : m % 2 ^ 32 = n % 2 ^ 32 := by
    have hnat := congrArg UInt32.toNat heq
    rwa [UInt32.toNat_ofNat', UInt32.toNat_ofNat'] at hnat
  omega

end UInt32

/-!
## Words of flags

A flag is a mask, and it is set in a word when the word meets the mask. Setting or clearing one flag
leaves the disjoint ones alone, and a word with all flags of a mask has each of them.
-/

namespace UInt32

variable {x c m : UInt32}

theorem or_and : (x ||| c) &&& m = (x &&& m) ||| (c &&& m) :=
  UInt32.toBitVec_inj.1 BitVec.and_or_distrib_right

theorem or_and_of_disjoint (h : c &&& m = 0) : (x ||| c) &&& m = x &&& m := by
  rw [or_and, h, UInt32.or_zero]

theorem and_not_and_of_disjoint (h : ~~~c &&& m = m) : x &&& ~~~c &&& m = x &&& m := by
  rw [UInt32.and_assoc, h]

theorem or_self_and_ne_zero (h : m ≠ 0) : (x ||| m) &&& m ≠ 0 := by
  rw [or_and, UInt32.and_self]
  intro hzero
  exact h (UInt32.or_eq_zero_iff.mp hzero).2

theorem and_ne_zero_of_and_eq (hall : x &&& m = m) (hflag : m &&& c = c) (hc : c ≠ 0) :
    x &&& c ≠ 0 := by
  rw [← hflag, ← UInt32.and_assoc, hall, hflag]
  exact hc

end UInt32

namespace UInt8

theorem or_and {x c m : UInt8} : (x ||| c) &&& m = (x &&& m) ||| (c &&& m) :=
  UInt8.toBitVec_inj.1 BitVec.and_or_distrib_right

theorem or_and_of_disjoint {x c m : UInt8} (h : c &&& m = 0) : (x ||| c) &&& m = x &&& m := by
  rw [or_and, h, UInt8.or_zero]

end UInt8

/-!
## Positions behind a counter of 32 bits

A counter shows the low bits of a position. From one reading to the next its difference is that of
the positions if they are less than half of its range apart; exactly half of the range has no
direction. Positions are listed with the newest first.

* `toInt64_sub` — the difference of two readings is that of the positions.
* `natAbs_travelled_le` — how far a list of positions gets.
-/

namespace Unwrapped

open List

/-! ### Lists of positions -/

/-- From the oldest position to the newest. -/
def travelled : List Int → Int
  | [] => 0
  | p :: ps => p - ps.getLastD p

def Near (p q : Int) : Prop := (p - q).natAbs < 2147483648

/-- Half of the range apart, as far as the counter shows. -/
def HalfStep (p q : Int) : Prop := (p - q) % 4294967296 = 2147483648

instance (p q : Int) : Decidable (Near p q) := inferInstanceAs (Decidable (_ < _))
instance (p q : Int) : Decidable (HalfStep p q) := inferInstanceAs (Decidable (_ = _))

/-- Each position is near the one before. -/
def Steady (ps : List Int) : Prop := ps.IsChain Near

def Unambiguous (ps : List Int) : Prop := ps.IsChain fun p q => ¬ HalfStep p q

theorem Near.not_halfStep {p q : Int} (h : Near p q) : ¬ HalfStep p q := by
  unfold Near at h
  unfold HalfStep
  omega

theorem Steady.unambiguous {ps : List Int} (h : Steady ps) : Unambiguous ps :=
  h.imp fun _ _ => Near.not_halfStep

theorem travelled_cons_cons (p q : Int) (ps : List Int) :
    travelled (p :: q :: ps) = travelled (q :: ps) + (p - q) := by
  have hlast : (q :: ps).getLastD p = ps.getLastD q := getLastD_cons ..
  rw [travelled, travelled, hlast]
  omega

theorem natAbs_travelled_le {ps : List Int} (h : Steady ps) :
    (travelled ps).natAbs ≤ ps.length * 2147483648 := by
  induction ps with
  | nil => exact Nat.zero_le _
  | cons p ps ih =>
    cases ps with
    | nil =>
      rw [travelled, getLastD_nil, Int.sub_self]
      exact Nat.zero_le _
    | cons q ps =>
      obtain ⟨hnear, hsteady⟩ := isChain_cons_cons.mp h
      have hbefore := ih hsteady
      unfold Near at hnear
      rw [travelled_cons_cons, length_cons]
      omega

/-! ### Readings -/

section

variable {p q : Int}

theorem toUInt32_sub (p q : Int) :
    (Int32.ofInt p).toUInt32 - (Int32.ofInt q).toUInt32 = (Int32.ofInt (p - q)).toUInt32 := by
  rw [← Int32.toUInt32_sub, Int32.ofInt_sub]

theorem sub_eq_half_iff :
    (Int32.ofInt p).toUInt32 - (Int32.ofInt q).toUInt32 = 2147483648 ↔ HalfStep p q := by
  have hmin : Int32.minValue.toInt = -2147483648 := rfl
  have hsize : Int32.size = 4294967296 := rfl
  have hhalf : (Int32.ofInt (p - q)).toUInt32 = Int32.minValue.toUInt32 ↔
      Int32.ofInt (p - q) = Int32.minValue :=
    ⟨fun h => congrArg Int32.ofUInt32 h, fun h => congrArg Int32.toUInt32 h⟩
  rw [toUInt32_sub]
  refine hhalf.trans ?_
  rw [← Int32.toInt_inj, Int32.toInt_ofInt, hmin, HalfStep, Int.bmod_def, hsize]
  omega

theorem toInt64_sub (h : Near p q) :
    ((Int32.ofInt p).toUInt32 - (Int32.ofInt q).toUInt32).toInt32.toInt64 =
      Int64.ofInt (p - q) := by
  unfold Near at h
  rw [toUInt32_sub, ← Int64.toInt_inj]
  show (Int32.ofInt (p - q)).toInt64.toInt = _
  rw [Int32.toInt_toInt64, Int32.toInt_ofInt_of_le (by omega) (by omega),
    Int64.toInt_ofInt_of_le (by omega) (by omega)]

theorem eq_of_ofInt_eq (h : Near p q) (heq : Int32.ofInt p = Int32.ofInt q) : p = q := by
  unfold Near at h
  have hsub : Int32.ofInt (p - q) = Int32.ofInt 0 := by
    rw [Int32.ofInt_sub, heq, Int32.sub_self]
    rfl
  have hint := congrArg Int32.toInt hsub
  rw [Int32.toInt_ofInt_of_le (by omega) (by omega), Int32.toInt_ofInt_of_le (by omega) (by omega)]
    at hint
  omega

end

end Unwrapped

namespace UInt64

theorem toNat_and_not_mask (x : UInt64) :
    (x &&& ~~~0xffffffff).toNat = x.toNat / 2 ^ 32 * 2 ^ 32 := by
  have hmask : (~~~0xffffffff : UInt64).toNat = (2 ^ 32 - 1) <<< 32 := by decide
  rw [UInt64.toNat_and, hmask, ← Nat.shiftLeft_eq, ← Nat.shiftRight_eq_div_pow]
  refine Nat.eq_of_testBit_eq fun i => ?_
  rw [Nat.testBit_and, Nat.testBit_shiftLeft, Nat.testBit_shiftLeft, Nat.testBit_two_pow_sub_one,
    Nat.testBit_shiftRight]
  by_cases hi : 32 ≤ i
  · have hlt : x.toNat < 2 ^ 64 := x.toNat_lt
    by_cases hi' : i - 32 < 32
    · simp [hi, hi']
    · have : x.toNat.testBit i = false :=
        Nat.testBit_lt_two_pow
          (Nat.lt_of_lt_of_le hlt (Nat.pow_le_pow_right (by omega) (by omega)))
      simp [hi, hi', this]
  · simp [hi]

end UInt64
