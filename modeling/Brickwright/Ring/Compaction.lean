import Brickwright.Ring.Basic

/-!
# Rings edited in place

A ring whose owner does more than push and pop: it writes over an entry where it is
(`Holds.overwrite`), looks for the first entry with some property (`firstCell`), and takes an entry
out of the middle by moving the later ones a cell down (`closeGap`). Each is told by what it does to
the queue the ring is. The two walks count down the cells of the ring, so that they end; a ring that
is not full never runs out of them.
-/

universe u

namespace Ring

open List

variable {α : Type u} {d x y : α} {cells : List α} {head tail count i : Nat} {xs ys : List α}

/-- The first cell from `i` on, before the one at `head`, whose entry is a `p`. -/
def firstCell (p : α → Bool) (d : α) (cells : List α) (head : Nat) : Nat → Nat → Option Nat
  | 0, _ => none
  | fuel + 1, i =>
    if i = head then none
    else if p (cells.getD i d) then some i
    else firstCell p d cells head fuel ((i + 1) % cells.length)

/-- The entries behind the cell `j` each a cell down; the cell that became free is returned. -/
def closeGap (d : α) (head : Nat) : Nat → List α → Nat → List α × Nat
  | 0, cells, j => (cells, j)
  | fuel + 1, cells, j =>
    let k := (j + 1) % cells.length
    if k = head then (cells, j) else closeGap d head fuel (cells.set j (cells.getD k d)) k

namespace Holds

/-! ## Single cells -/

theorem getD_cell (h : Holds d cells head tail count xs) (hi : i < xs.length) :
    cells.getD ((tail + i) % cells.length) d = xs[i] := by
  have hcell : (contents d cells tail count)[i]? =
      some (cells.getD ((tail + i) % cells.length) d) := by
    have hcount : i < count := by rw [h.count_eq]; exact hi
    simp [contents, hcount]
  rw [h.contents_eq, List.getElem?_eq_getElem hi] at hcell
  exact (Option.some.inj hcell).symm

/-- **A write over an entry** changes that entry. -/
theorem set (h : Holds d cells head tail count xs) (hlen : xs.length ≤ cells.length)
    (hi : i < xs.length) :
    Holds d (cells.set ((tail + i) % cells.length) y) head tail count (xs.set i y) := by
  have hpos : 0 < cells.length := Nat.lt_of_le_of_lt (Nat.zero_le _) h.tail_lt
  refine ⟨by rw [length_set]; exact h.tail_lt, by rw [length_set]; exact h.head_eq, ?_⟩
  apply ext_getElem
  · rw [length_contents, length_set, h.count_eq]
  · intro j hj hj'
    rw [length_set] at hj'
    have hread : (contents d (cells.set ((tail + i) % cells.length) y) tail count)[j] =
        (cells.set ((tail + i) % cells.length) y).getD ((tail + j) % cells.length) d := by
      simp [contents]
    rw [hread]
    by_cases hij : i = j
    · subst hij
      have hlt : (tail + i) % cells.length < cells.length := Nat.mod_lt _ hpos
      rw [getElem_set_self, getD_eq_getElem?_getD, List.getElem?_set_self hlt,
        Option.getD_some]
    · have hne : (tail + i) % cells.length ≠ (tail + j) % cells.length := by
        intro heq
        exact hij (cell_inj (by omega) (by omega) heq)
      rw [getElem_set_ne hij, getD_eq_getElem?_getD, List.getElem?_set_ne hne,
        ← getD_eq_getElem?_getD, h.getD_cell hj']

theorem prev_head (h : Holds d cells head tail count (ys ++ [x])) :
    (head + cells.length - 1) % cells.length = (tail + ys.length) % cells.length := by
  have hpos : 0 < cells.length := Nat.lt_of_le_of_lt (Nat.zero_le _) h.tail_lt
  have hcount : count = ys.length + 1 := by rw [h.count_eq]; simp
  have hstep : (head + cells.length - 1) % cells.length =
      ((tail + count) % cells.length + (cells.length - 1)) % cells.length := by
    rw [h.head_eq]
    congr 1
    omega
  rw [hstep, Nat.mod_add_mod, hcount,
    show tail + (ys.length + 1) + (cells.length - 1) = tail + ys.length + cells.length by omega,
    Nat.add_mod_right]

theorem newest (h : Holds d cells head tail count (ys ++ [x])) :
    cells.getD ((head + cells.length - 1) % cells.length) d = x := by
  rw [h.prev_head, h.getD_cell (by simp)]
  simp

/-- **A write over the newest entry.** -/
theorem overwrite (h : Holds d cells head tail count (ys ++ [x]))
    (hlen : (ys ++ [x]).length ≤ cells.length) :
    Holds d (cells.set ((head + cells.length - 1) % cells.length) y) head tail count
      (ys ++ [y]) := by
  have hset := h.set (y := y) hlen (i := ys.length) (by simp)
  rw [← h.prev_head] at hset
  simpa using hset

theorem count_of_indices (h : Holds d cells head tail count xs) (hroom : xs.length < cells.length) :
    (head + cells.length - tail) % cells.length = xs.length := by
  have htail := h.tail_lt
  have hcount := h.count_eq
  rw [h.head_eq, hcount]
  by_cases hwrap : tail + xs.length < cells.length
  · rw [Nat.mod_eq_of_lt hwrap,
      show tail + xs.length + cells.length - tail = xs.length + cells.length by omega,
      Nat.add_mod_right, Nat.mod_eq_of_lt hroom]
  · have hmod : (tail + xs.length) % cells.length = tail + xs.length - cells.length := by
      rw [Nat.mod_eq_sub_mod (by omega), Nat.mod_eq_of_lt (by omega)]
    rw [hmod, show tail + xs.length - cells.length + cells.length - tail = xs.length by omega,
      Nat.mod_eq_of_lt hroom]

/-- In a ring that is not full, the indices meet only when it is empty. -/
theorem head_eq_tail_iff (h : Holds d cells head tail count xs) (hroom : xs.length < cells.length) :
    tail = head ↔ xs = [] := by
  constructor
  · intro heq
    have hmod : (tail + 0) % cells.length = (tail + xs.length) % cells.length := by
      rw [← h.count_eq, ← h.head_eq, ← heq, Nat.add_zero, Nat.mod_eq_of_lt h.tail_lt]
    have hpos : 0 < cells.length := Nat.lt_of_le_of_lt (Nat.zero_le _) hroom
    exact length_eq_zero_iff.mp (cell_inj hpos hroom hmod).symm
  · rintro rfl
    have hcount : count = 0 := h.count_eq
    rw [h.head_eq, hcount, Nat.add_zero, Nat.mod_eq_of_lt h.tail_lt]

theorem next_eq_tail_iff (h : Holds d cells head tail count xs) (hroom : xs.length < cells.length) :
    (head + 1) % cells.length = tail ↔ xs.length + 1 = cells.length := by
  have htail := h.tail_lt
  rw [h.head_eq, Nat.mod_add_mod, h.count_eq]
  constructor
  · intro heq
    by_contra hne
    have hmod : (tail + 0) % cells.length = (tail + (xs.length + 1)) % cells.length := by
      rw [Nat.add_zero, Nat.mod_eq_of_lt htail]
      exact heq.symm
    have := cell_inj (by omega) (by omega) hmod
    omega
  · intro heq
    rw [Nat.add_assoc, heq, Nat.add_mod_right, Nat.mod_eq_of_lt htail]

/-! ## The two walks -/

/-- **The walk** from the oldest entry finds the first `p`. -/
theorem firstCell_eq {p : α → Bool} {fuel : Nat} (h : Holds d cells head tail count xs)
    (hroom : xs.length < cells.length) (hfuel : xs.length < fuel) :
    firstCell p d cells head fuel tail =
      (xs.findIdx? p).map fun k => (tail + k) % cells.length := by
  induction fuel generalizing tail count xs with
  | zero => exact absurd hfuel (Nat.not_lt_zero _)
  | succ fuel ih =>
    cases xs with
    | nil =>
      rw [firstCell, if_pos ((h.head_eq_tail_iff hroom).mpr rfl)]
      rfl
    | cons x xs =>
      have hne : tail ≠ head := by
        intro heq
        exact absurd ((h.head_eq_tail_iff hroom).mp heq) (cons_ne_nil _ _)
      obtain ⟨holdest, hrest⟩ := h.pop
      rw [length_cons] at hroom hfuel
      rw [firstCell, if_neg hne, holdest, List.findIdx?_cons]
      split
      · rw [Option.map_some, Nat.add_zero, Nat.mod_eq_of_lt h.tail_lt]
      · rw [ih hrest (by omega) (by omega), Option.map_map]
        congr 1
        funext k
        rw [Function.comp_apply, Nat.mod_add_mod, Nat.add_assoc, Nat.add_comm 1 k]

theorem dropLast (h : Holds d cells head tail count xs) (hne : xs ≠ []) :
    Holds d cells ((tail + (xs.length - 1)) % cells.length) tail (xs.length - 1) xs.dropLast := by
  have hpos : 0 < xs.length := length_pos_iff.mpr hne
  refine ⟨h.tail_lt, rfl, ?_⟩
  have hcontents := h.contents_eq
  rw [h.count_eq, contents, show xs.length = xs.length - 1 + 1 by omega, range_succ,
    map_append, map_singleton] at hcontents
  rw [← hcontents, dropLast_concat]
  simp [contents]

/-- Taking an entry out is writing the next one over it and taking that one out. -/
theorem eraseIdx_set_next {k : Nat} (hk : k + 1 < xs.length) :
    (xs.set k xs[k + 1]).eraseIdx (k + 1) = xs.eraseIdx k := by
  apply ext_getElem?
  intro j
  rw [List.getElem?_eraseIdx, List.getElem?_eraseIdx]
  rcases Nat.lt_trichotomy j k with hj | rfl | hj
  · rw [if_pos (by omega), if_pos hj, List.getElem?_set_ne (by omega)]
  · rw [if_pos (by omega), if_neg (by omega), List.getElem?_set_self (by omega),
      List.getElem?_eq_getElem hk]
  · rw [if_neg (by omega), if_neg (by omega), List.getElem?_set_ne (by omega)]

/-- **Compaction** takes the entry at the gap out of the ring. -/
theorem closeGap {k fuel : Nat} (h : Holds d cells head tail count xs)
    (hroom : xs.length < cells.length) (hk : k < xs.length) (hfuel : xs.length ≤ k + fuel) :
    (Ring.closeGap d head fuel cells ((tail + k) % cells.length)).1.length = cells.length ∧
      Holds d (Ring.closeGap d head fuel cells ((tail + k) % cells.length)).1
        (Ring.closeGap d head fuel cells ((tail + k) % cells.length)).2 tail (xs.length - 1)
        (xs.eraseIdx k) := by
  induction fuel generalizing cells xs k with
  | zero => omega
  | succ fuel ih =>
    have hnext : ((tail + k) % cells.length + 1) % cells.length =
        (tail + (k + 1)) % cells.length := by
      rw [Nat.mod_add_mod, Nat.add_assoc]
    simp only [Ring.closeGap, hnext]
    split
    · next hend =>
      -- The gap is at the newest entry.
      have hlast : k + 1 = xs.length := by
        rw [h.head_eq, h.count_eq] at hend
        exact cell_inj (by omega) hroom hend
      have herase : xs.eraseIdx k = xs.dropLast := by
        rw [show k = xs.length - 1 by omega, eraseIdx_length_sub_one]
      have hdrop := h.dropLast (ne_nil_of_length_pos (by omega))
      rw [herase, show k = xs.length - 1 by omega]
      exact ⟨rfl, hdrop⟩
    · next hend =>
      have hk' : k + 1 < xs.length := by
        by_contra hnot
        apply hend
        rw [h.head_eq, h.count_eq, show k + 1 = xs.length by omega]
      rw [h.getD_cell hk']
      have hset := h.set (y := xs[k + 1]) (Nat.le_of_lt hroom) hk
      have hmoved := ih (k := k + 1) hset (by simpa using hroom) (by simpa using hk')
        (by rw [length_set]; omega)
      simp only [length_set, eraseIdx_set_next hk'] at hmoved
      exact hmoved

end Holds

end Ring
