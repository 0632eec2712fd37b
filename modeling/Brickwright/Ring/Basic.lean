import Mathlib.Data.List.Basic
import Mathlib.Data.Nat.ModEq

/-!
# Ring buffers

A ring keeps its entries in a fixed list of cells, `count` of them from the cell `tail` on, around
the end of the list. `contents` reads them off, oldest first. Writing the cell after the last entry
appends to the contents and stepping `tail` removes the oldest entry, so the contents are a queue.
-/

universe u

namespace Ring

open List

variable {α : Type u} {d x : α} {cells : List α} {tail count : Nat}

/-- The entries of a ring, oldest first. The entry `d` stands for a cell that does not exist. -/
def contents (d : α) (cells : List α) (tail count : Nat) : List α :=
  (List.range count).map fun i => cells.getD ((tail + i) % cells.length) d

@[simp] theorem length_contents : (contents d cells tail count).length = count := by
  simp [contents]

/-- The cell at `tail` is the oldest entry, and the ring from the next cell on is the rest. -/
theorem contents_pop (htail : tail < cells.length) :
    contents d cells tail (count + 1) =
      cells.getD tail d :: contents d cells ((tail + 1) % cells.length) count := by
  rw [contents, range_succ_eq_map, map_cons, map_map, Nat.add_zero,
    Nat.mod_eq_of_lt htail, contents]
  congr 1
  apply map_congr_left
  intro i _
  have hcell : (tail + (i + 1)) % cells.length =
      ((tail + 1) % cells.length + i) % cells.length := by
    rw [Nat.mod_add_mod]
    congr 1
    omega
  simp only [Function.comp_apply, Nat.succ_eq_add_one, hcell]

/-- The cells of different entries are different, as long as the ring does not overlap itself. -/
theorem cell_inj {n i j : Nat} (hi : i < n) (hj : j < n) (h : (tail + i) % n = (tail + j) % n) :
    i = j := by
  have hmod : i ≡ j [MOD n] := Nat.ModEq.add_left_cancel' tail h
  exact Nat.ModEq.eq_of_lt_of_lt hmod hi hj

theorem contents_push (hcount : count < cells.length) :
    contents d (cells.set ((tail + count) % cells.length) x) tail (count + 1) =
      contents d cells tail count ++ [x] := by
  have hpos : 0 < cells.length := by omega
  rw [contents, range_succ, map_append, length_set, contents]
  congr 1
  · apply map_congr_left
    intro i hi
    have hi : i < count := mem_range.mp hi
    have hne : (tail + count) % cells.length ≠ (tail + i) % cells.length := by
      intro h
      have := cell_inj hcount (by omega) h
      omega
    rw [getD_eq_getElem?_getD, getD_eq_getElem?_getD, List.getElem?_set_ne hne]
  · have hlt : (tail + count) % cells.length < cells.length := Nat.mod_lt _ hpos
    rw [map_singleton, getD_eq_getElem?_getD, List.getElem?_set_self hlt,
      Option.getD_some]

/-! ## The queue a ring is -/

/-- The ring with these indices holds the entries `xs`, oldest first; `head` is the cell the next
entry goes to. -/
structure Holds (d : α) (cells : List α) (head tail count : Nat) (xs : List α) : Prop where
  tail_lt : tail < cells.length
  head_eq : head = (tail + count) % cells.length
  contents_eq : contents d cells tail count = xs

namespace Holds

variable {head : Nat} {xs : List α}

theorem empty (hpos : 0 < cells.length) : Holds d cells 0 0 0 [] where
  tail_lt := hpos
  head_eq := (Nat.zero_mod _).symm
  contents_eq := rfl

theorem count_eq (h : Holds d cells head tail count xs) : count = xs.length := by
  rw [← h.contents_eq, length_contents]

/-- **Pop**: the cell at `tail` has the oldest entry, and stepping `tail` removes it. -/
theorem pop (h : Holds d cells head tail count (x :: xs)) : cells.getD tail d = x ∧
    Holds d cells head ((tail + 1) % cells.length) (count - 1) xs := by
  have hcount : count = xs.length + 1 := h.count_eq
  have hcontents := h.contents_eq
  rw [hcount, contents_pop h.tail_lt] at hcontents
  obtain ⟨holdest, hrest⟩ := cons_eq_cons.mp hcontents
  refine ⟨holdest, ⟨?_, ?_, ?_⟩⟩
  · exact Nat.mod_lt _ (Nat.lt_of_le_of_lt (Nat.zero_le _) h.tail_lt)
  · rw [h.head_eq, Nat.mod_add_mod]
    congr 1
    omega
  · rw [hcount, Nat.add_sub_cancel]
    exact hrest

/-- **Push**: a write at `head` appends an entry while there is room. -/
theorem push (h : Holds d cells head tail count xs) (hroom : xs.length < cells.length) :
    Holds d (cells.set head x) ((head + 1) % cells.length) tail (count + 1) (xs ++ [x]) := by
  rw [← h.count_eq] at hroom
  refine ⟨?_, ?_, ?_⟩
  · rw [length_set]
    exact h.tail_lt
  · rw [length_set, h.head_eq, Nat.mod_add_mod, Nat.add_assoc]
  · rw [h.head_eq, contents_push hroom, h.contents_eq]

end Holds

end Ring

/-!
## Copies around the end of a ring

A block of entries is copied in and out in two segments, up to the last cell and on from the first
one. Both are the same as copying one entry after the other (`copyIn_cons`, `copyOut_succ`), so a
block goes to the end of the queue (`Holds.fill`) and comes from its front (`Holds.drain`).
-/

namespace Ring

open List

variable {α : Type u} {d x : α} {cells xs ys : List α} {head tail count n : Nat}

/-- The cells from an offset on are overwritten. -/
def overwrite (cells : List α) (offset : Nat) (xs : List α) : List α :=
  cells.take offset ++ xs ++ cells.drop (offset + xs.length)

/-- A block is copied to the cells from `head` on. -/
def copyIn (cells : List α) (head : Nat) (xs : List α) : List α :=
  let first := min (cells.length - head) xs.length
  overwrite (overwrite cells head (xs.take first)) 0 (xs.drop first)

/-- A block is copied from the cells from `tail` on. -/
def copyOut (cells : List α) (tail n : Nat) : List α :=
  let first := min (cells.length - tail) n
  (cells.drop tail).take first ++ cells.take (n - first)

/-- The number of entries between two indices, as long as not every cell is taken. -/
def between (size head tail : Nat) : Nat :=
  if head ≥ tail then head - tail else size - tail + head

@[simp] theorem overwrite_nil (cells : List α) (offset : Nat) :
    overwrite cells offset [] = cells := by
  simp [overwrite]

theorem overwrite_cons (h : head < cells.length) :
    overwrite cells head (x :: xs) = overwrite (cells.set head x) (head + 1) xs := by
  have hset : cells.set head x = cells.take head ++ x :: cells.drop (head + 1) := by
    rw [set_eq_take_append_cons_drop, if_pos h]
  have hlength : (cells.take head).length = head := length_take_of_le (Nat.le_of_lt h)
  have htake : (cells.set head x).take (head + 1) = cells.take head ++ [x] := by
    rw [hset, take_append, hlength, Nat.add_sub_cancel_left, take_of_length_le (by omega)]
    rfl
  have hdrop : (cells.set head x).drop (head + 1 + xs.length) =
      cells.drop (head + 1 + xs.length) := by
    rw [drop_set, if_pos (by omega)]
  rw [overwrite, overwrite, htake, hdrop, length_cons]
  simp [Nat.add_assoc, Nat.add_comm 1]

theorem copyIn_cons (hhead : head < cells.length) (hroom : xs.length < cells.length) :
    copyIn cells head (x :: xs) = copyIn (cells.set head x) ((head + 1) % cells.length) xs := by
  simp only [copyIn, length_cons, length_set]
  by_cases hlast : head + 1 < cells.length
  · have hfirst : min (cells.length - head) (xs.length + 1) =
        min (cells.length - (head + 1)) xs.length + 1 := by omega
    rw [Nat.mod_eq_of_lt hlast, hfirst, take_succ_cons, drop_succ_cons,
      overwrite_cons hhead]
  · -- the rest goes to the first cells
    have hend : head + 1 = cells.length := by omega
    have hfirst : min (cells.length - head) (xs.length + 1) = 1 := by omega
    have hall : min (cells.length - 0) xs.length = xs.length := by omega
    rw [hend, Nat.mod_self, hfirst, hall, take_of_length_le (Nat.le_refl _),
      drop_of_length_le (Nat.le_refl _), overwrite_nil, take_succ_cons,
      drop_succ_cons, take_zero, drop_zero, overwrite_cons hhead, overwrite_nil]

theorem copyOut_succ (d : α) (htail : tail < cells.length) (hn : n < cells.length) :
    copyOut cells tail (n + 1) =
      cells.getD tail d :: copyOut cells ((tail + 1) % cells.length) n := by
  have hcons : cells.drop tail = cells.getD tail d :: cells.drop (tail + 1) := by
    rw [drop_eq_getElem_cons htail, getD_eq_getElem?_getD, List.getElem?_eq_getElem htail,
      Option.getD_some]
  simp only [copyOut]
  by_cases hlast : tail + 1 < cells.length
  · have hfirst : min (cells.length - tail) (n + 1) = min (cells.length - (tail + 1)) n + 1 := by
      omega
    rw [Nat.mod_eq_of_lt hlast, hfirst, hcons, take_succ_cons, Nat.add_sub_add_right]
    rfl
  · -- the rest comes from the first cells
    have hend : tail + 1 = cells.length := by omega
    have hfirst : min (cells.length - tail) (n + 1) = 1 := by omega
    have hall : min (cells.length - 0) n = n := by omega
    rw [hend, Nat.mod_self, hfirst, hall, hcons, take_succ_cons, take_zero,
      drop_zero,
      Nat.sub_self, take_zero, append_nil, Nat.add_sub_cancel]
    rfl

@[simp] theorem length_copyIn (hhead : head < cells.length) (hroom : xs.length ≤ cells.length) :
    (copyIn cells head xs).length = cells.length := by
  induction xs generalizing cells head with
  | nil => simp [copyIn]
  | cons x xs ih =>
    rw [copyIn_cons hhead hroom, ih, length_set]
    · rw [length_set]
      exact Nat.mod_lt _ (Nat.lt_of_le_of_lt (Nat.zero_le _) hhead)
    · rw [length_set]
      exact Nat.le_of_lt hroom

namespace Holds

/-- **A block goes to the end of the queue.** -/
theorem fill (h : Holds d cells head tail count xs) (hpos : head < cells.length)
    (hroom : count + ys.length ≤ cells.length) :
    Holds d (copyIn cells head ys) ((head + ys.length) % cells.length) tail (count + ys.length)
      (xs ++ ys) := by
  induction ys generalizing cells head count xs with
  | nil =>
    rw [append_nil]
    simp only [copyIn, length_nil, take_nil, drop_nil, overwrite_nil, Nat.add_zero,
      Nat.mod_eq_of_lt hpos]
    exact h
  | cons y ys ih =>
    rw [length_cons] at hroom
    have hcount := h.count_eq
    have hpush := h.push (x := y) (by omega)
    have hnext := ih hpush (by
        rw [length_set]
        exact Nat.mod_lt _ (by omega)) (by
        rw [length_set]
        omega)
    rw [copyIn_cons hpos (by omega)]
    rw [length_set, Nat.mod_add_mod, append_assoc, singleton_append] at hnext
    rwa [length_cons, Nat.add_comm ys.length, ← Nat.add_assoc, ← Nat.add_assoc]

/-- **A block comes from the front of the queue.** -/
theorem drain (h : Holds d cells head tail count xs) (hn : n ≤ xs.length)
    (hsize : n ≤ cells.length) :
    copyOut cells tail n = xs.take n ∧
      Holds d cells head ((tail + n) % cells.length) (count - n) (xs.drop n) := by
  induction n generalizing tail count xs with
  | zero =>
    refine ⟨by simp [copyOut], ?_⟩
    rw [Nat.add_zero, Nat.mod_eq_of_lt h.tail_lt, Nat.sub_zero, drop_zero]
    exact h
  | succ n ih =>
    cases xs with
    | nil => simp at hn
    | cons x xs =>
      obtain ⟨hx, hpop⟩ := h.pop
      obtain ⟨hout, hrest⟩ := ih hpop (Nat.le_of_succ_le_succ hn) (Nat.le_of_succ_le hsize)
      rw [copyOut_succ d h.tail_lt hsize, hx, hout]
      refine ⟨rfl, ?_⟩
      rwa [Nat.mod_add_mod, Nat.sub_sub, Nat.add_comm 1, Nat.add_assoc, Nat.add_comm 1] at hrest

theorem between_eq (h : Holds d cells head tail count xs) (hcount : count < cells.length) :
    between cells.length head tail = count := by
  have htail := h.tail_lt
  rw [between, h.head_eq]
  by_cases hwrap : tail + count < cells.length
  · rw [Nat.mod_eq_of_lt hwrap, if_pos (by omega)]
    omega
  · have hmod : (tail + count) % cells.length = tail + count - cells.length := by
      rw [Nat.mod_eq_sub_mod (by omega), Nat.mod_eq_of_lt (by omega)]
    rw [hmod, if_neg (by omega)]
    omega

end Holds

end Ring
