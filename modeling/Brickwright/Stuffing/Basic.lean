import Mathlib.Data.List.Basic

/-!
# Byte stuffing with several reserved symbols

A string is cut into blocks, and each block is sent as one code symbol followed by its literals. A
block ends at a reserved symbol, which the code names instead of sending it, or after `limit`
literals, which a code of its own says; the last block ends at a reserved symbol that is not there
and that the receiver does not emit. Nothing reserved is ever sent.

`Stuffing` is what the code symbols have to satisfy. `stuff` and `unstuff` are the encoder and the
decoder on lists, and the results are the ones a user of the scheme needs: `unstuff_stuff` (round
trip), `stuff_plain` (nothing reserved) and `length_lt_stuff` (a bound for buffers).
-/

universe u

/-- The code symbols of a stuffing scheme over the symbols `α`. -/
structure Stuffing (α : Type u) where
  /-- The number of literals of a full block. -/
  limit : Nat
  reserved : α → Bool
  /-- `n` literals and then the reserved symbol `d`. -/
  code : Nat → α → α
  /-- `limit` literals. -/
  full : α
  /-- The reserved symbol that the last block pretends to end with. -/
  pseudo : α
  uncode : α → Option (Nat × Option α)
  limit_pos : 0 < limit
  pseudo_reserved : reserved pseudo = true
  uncode_code : ∀ n d, n < limit → reserved d = true → uncode (code n d) = some (n, some d)
  uncode_full : uncode full = some (limit, none)
  code_plain : ∀ n d, n < limit → reserved d = true → reserved (code n d) = false
  full_plain : reserved full = false

namespace Stuffing

open List

variable {α : Type u} (S : Stuffing α)

/-- Encode with the literals `cur` of the open block already read. -/
def stuffFrom (cur : List α) : List α → List α
  | [] => S.code cur.length S.pseudo :: cur
  | b :: src =>
    if S.reserved b = true then S.code cur.length b :: (cur ++ stuffFrom [] src)
    else if cur.length + 1 = S.limit then S.full :: (cur ++ [b] ++ stuffFrom [] src)
    else stuffFrom (cur ++ [b]) src

def stuff (src : List α) : List α := S.stuffFrom [] src

/-- Decode; `none` is a symbol that is no code or a block that is cut short. -/
def unstuff : List α → Option (List α)
  | [] => some []
  | c :: rest =>
    match S.uncode c with
    | none => none
    | some (n, d) =>
      if rest.length < n then none
      else
        (unstuff (rest.drop n)).map fun p =>
          rest.take n ++ (if rest.length = n then [] else d.toList) ++ p
termination_by l => l.length
decreasing_by simp only [length_drop, length_cons]; omega

/-! ## Unfolding one block -/

theorem unstuff_nil : S.unstuff [] = some [] := by rw [unstuff]

variable {d : Option α} {c : α}

theorem unstuff_last {lits : List α}
    (h : S.uncode c = some (lits.length, d)) : S.unstuff (c :: lits) = some lits := by
  rw [unstuff, h]
  simp [unstuff_nil]

theorem unstuff_block {lits rest : List α}
    (h : S.uncode c = some (lits.length, d)) (hrest : rest ≠ []) :
    S.unstuff (c :: (lits ++ rest)) = (S.unstuff rest).map (lits ++ d.toList ++ ·) := by
  have hpos : 0 < rest.length := length_pos_iff.mpr hrest
  have hlen : ¬ (lits ++ rest).length < lits.length := by simp
  have hmore : (lits ++ rest).length ≠ lits.length := by
    rw [length_append]
    omega
  rw [unstuff, h]
  simp only [if_neg hlen, if_neg hmore, drop_left, take_left]

/-! ## Decoding from a position

A decoder that walks over a buffer reads `src[i]` and goes on at `i + 1 + n`. -/

theorem unstuff_drop_none {src : List α} {i : Nat} (hc : src[i]? = some c)
    (h : S.uncode c = none) : S.unstuff (src.drop i) = none := by
  obtain ⟨hi, rfl⟩ := List.getElem?_eq_some_iff.mp hc
  rw [drop_eq_getElem_cons hi, unstuff, h]

theorem unstuff_drop_short {src : List α} {i n : Nat}
    (hc : src[i]? = some c) (h : S.uncode c = some (n, d)) (hshort : src.length < i + 1 + n) :
    S.unstuff (src.drop i) = none := by
  obtain ⟨hi, rfl⟩ := List.getElem?_eq_some_iff.mp hc
  rw [drop_eq_getElem_cons hi, unstuff, h]
  exact if_pos (by rw [length_drop]; omega)

theorem unstuff_drop_block {src : List α} {i n : Nat}
    (hc : src[i]? = some c) (h : S.uncode c = some (n, d)) (hfit : i + 1 + n ≤ src.length) :
    S.unstuff (src.drop i) = (S.unstuff (src.drop (i + 1 + n))).map fun p =>
      (src.drop (i + 1)).take n ++ (if i + 1 + n < src.length then d.toList else []) ++ p := by
  obtain ⟨hi, rfl⟩ := List.getElem?_eq_some_iff.mp hc
  have hlen : (src.drop (i + 1)).length = src.length - (i + 1) := length_drop
  have hlong : ¬ (src.drop (i + 1)).length < n := by omega
  have hlast : (if (src.drop (i + 1)).length = n then [] else d.toList)
      = if i + 1 + n < src.length then d.toList else [] := by
    by_cases hmore : i + 1 + n < src.length
    · rw [if_pos hmore, if_neg (by omega)]
    · rw [if_neg hmore, if_pos (by omega)]
  rw [drop_eq_getElem_cons hi, unstuff, h]
  simp only [if_neg hlong, hlast, drop_drop]

/-! ## The encoder -/

theorem stuffFrom_ne_nil (cur src : List α) : S.stuffFrom cur src ≠ [] := by
  induction src generalizing cur with
  | nil => simp [stuffFrom]
  | cons b src ih =>
    rw [stuffFrom]
    split
    · simp
    · split
      · simp
      · exact ih _

theorem unstuff_stuffFrom (cur : List α) (hcur : cur.length < S.limit) (src : List α) :
    S.unstuff (S.stuffFrom cur src) = some (cur ++ src) := by
  induction src generalizing cur with
  | nil =>
    rw [stuffFrom, S.unstuff_last (S.uncode_code _ _ hcur S.pseudo_reserved), append_nil]
  | cons b src ih =>
    rw [stuffFrom]
    split
    · next hb =>
      rw [S.unstuff_block (S.uncode_code _ _ hcur hb) (S.stuffFrom_ne_nil [] src),
        ih [] S.limit_pos]
      simp
    · split
      · next hfull =>
        have hcode : S.uncode S.full = some ((cur ++ [b]).length, none) := by
          rw [S.uncode_full, length_append, length_singleton, hfull]
        rw [S.unstuff_block hcode (S.stuffFrom_ne_nil [] src), ih [] S.limit_pos]
        simp
      · next hfull =>
        have hopen : (cur ++ [b]).length < S.limit := by
          rw [length_append, length_singleton]
          omega
        rw [ih _ hopen]
        simp

/-- **Round trip.** -/
theorem unstuff_stuff (src : List α) : S.unstuff (S.stuff src) = some src :=
  S.unstuff_stuffFrom [] S.limit_pos src

theorem stuffFrom_plain (cur : List α) (hlen : cur.length < S.limit)
    (hcur : ∀ x ∈ cur, S.reserved x = false) (src : List α) :
    ∀ x ∈ S.stuffFrom cur src, S.reserved x = false := by
  induction src generalizing cur with
  | nil =>
    intro x hx
    rcases mem_cons.mp hx with rfl | hx
    · exact S.code_plain _ _ hlen S.pseudo_reserved
    · exact hcur x hx
  | cons b src ih =>
    have htail := ih [] S.limit_pos (by simp)
    rw [stuffFrom]
    split
    · next hb =>
      intro x hx
      rcases mem_cons.mp hx with rfl | hx
      · exact S.code_plain _ _ hlen hb
      · rcases mem_append.mp hx with hx | hx
        · exact hcur x hx
        · exact htail x hx
    · next hb =>
      have hcur' : ∀ x ∈ cur ++ [b], S.reserved x = false := by
        intro x hx
        rcases mem_append.mp hx with hx | hx
        · exact hcur x hx
        · rw [mem_singleton.mp hx]
          simpa using hb
      split
      · intro x hx
        rcases mem_cons.mp hx with rfl | hx
        · exact S.full_plain
        · rcases mem_append.mp hx with hx | hx
          · exact hcur' x hx
          · exact htail x hx
      · next hfull =>
        apply ih _ _ hcur'
        rw [length_append, length_singleton]
        omega

/-- **Nothing reserved is sent.** -/
theorem stuff_plain (src : List α) : ∀ x ∈ S.stuff src, S.reserved x = false :=
  S.stuffFrom_plain [] S.limit_pos (by simp) src

/-- How many full blocks are cut, when one has been opened with `run` literals. -/
def fullBlocks (run : Nat) : List α → Nat
  | [] => 0
  | b :: src =>
    if S.reserved b = true then fullBlocks 0 src
    else if run + 1 = S.limit then fullBlocks 0 src + 1
    else fullBlocks (run + 1) src

theorem length_stuffFrom (cur src : List α) :
    (S.stuffFrom cur src).length =
      cur.length + src.length + S.fullBlocks cur.length src + 1 := by
  induction src generalizing cur with
  | nil => simp [stuffFrom, fullBlocks]
  | cons b src ih =>
    have htail := ih []
    have hopen := ih (cur ++ [b])
    simp only [length_append, length_singleton, length_nil] at htail hopen
    rw [stuffFrom, fullBlocks]
    split
    · simp only [length_cons, length_append]
      omega
    · split
      · simp only [length_cons, length_append, length_nil]
        omega
      · rw [length_cons]
        omega

theorem length_stuff (src : List α) :
    (S.stuff src).length = src.length + S.fullBlocks 0 src + 1 := by
  have h := S.length_stuffFrom [] src
  rwa [length_nil, Nat.zero_add] at h

theorem length_lt_stuffFrom (cur src : List α) :
    cur.length + src.length < (S.stuffFrom cur src).length := by
  rw [length_stuffFrom]
  omega

theorem length_lt_stuff (src : List α) : src.length < (S.stuff src).length := by
  rw [length_stuff]
  omega

end Stuffing
