import Mathlib.Data.List.Basic

/-!
# Queues that drop their oldest entry

The history of a bounded queue is everything pushed to it, oldest first, each entry with whether it
has been popped. A queue of depth `n` that makes room by dropping its oldest entry is a function of
this history: it holds the last `n` entries pushed, less those popped (`held`), and the entries that
left this window without a pop are the ones it dropped (`evicted`).

The lemmas say what a push and a pop do to both, in the terms of an implementation that keeps only
what it holds.
-/

universe u

namespace DropOldest

open List

variable {α : Type u} {depth : Nat} {h : List (α × Bool)}

/-- The last `depth` entries pushed. -/
def window (depth : Nat) (h : List (α × Bool)) : List (α × Bool) :=
  h.drop (h.length - depth)

/-- The entries before the last `depth` ones. -/
def past (depth : Nat) (h : List (α × Bool)) : List (α × Bool) :=
  h.take (h.length - depth)

def unpopped (h : List (α × Bool)) : List α :=
  (h.filter fun e => !e.2).map Prod.fst

/-- What the queue holds, oldest first: the last `depth` entries pushed, less those popped. -/
def held (depth : Nat) (h : List (α × Bool)) : List α := unpopped (window depth h)

/-- What the queue dropped: the earlier entries that were never popped. -/
def evicted (depth : Nat) (h : List (α × Bool)) : List α := unpopped (past depth h)

def push (h : List (α × Bool)) (x : α) : List (α × Bool) := h ++ [(x, false)]

def mark : List (α × Bool) → List (α × Bool)
  | [] => []
  | (x, true) :: h => (x, true) :: mark h
  | (x, false) :: h => (x, true) :: h

def pop (depth : Nat) (h : List (α × Bool)) : List (α × Bool) :=
  past depth h ++ mark (window depth h)

/-! ## Entries are popped in order -/

/-- In the window, the popped entries stand before the others. -/
def Ordered (depth : Nat) (h : List (α × Bool)) : Prop :=
  ∃ done kept : List α, window depth h = done.map (·, true) ++ kept.map (·, false)

@[simp] theorem past_append_window (depth : Nat) (h : List (α × Bool)) :
    past depth h ++ window depth h = h :=
  take_append_drop _ _

theorem length_window_le (depth : Nat) (h : List (α × Bool)) :
    (window depth h).length ≤ depth := by
  rw [window, length_drop]
  omega

@[simp] theorem unpopped_nil : unpopped ([] : List (α × Bool)) = [] := rfl

@[simp] theorem unpopped_cons_true (x : α) (h : List (α × Bool)) :
    unpopped ((x, true) :: h) = unpopped h := rfl

@[simp] theorem unpopped_cons_false (x : α) (h : List (α × Bool)) :
    unpopped ((x, false) :: h) = x :: unpopped h := rfl

@[simp] theorem unpopped_append (h h' : List (α × Bool)) :
    unpopped (h ++ h') = unpopped h ++ unpopped h' := by
  simp [unpopped]

@[simp] theorem unpopped_done (done : List α) : unpopped (done.map (·, true)) = [] := by
  simp [unpopped, filter_map, Function.comp_def]

@[simp] theorem unpopped_kept (kept : List α) : unpopped (kept.map (·, false)) = kept := by
  simp [unpopped, filter_map, Function.comp_def]

theorem length_held_le : (held depth h).length ≤ depth := by
  have hfilter : ((window depth h).filter fun e => !e.2).length ≤ (window depth h).length :=
    length_filter_le _ _
  rw [held, unpopped, length_map]
  exact Nat.le_trans hfilter (length_window_le depth h)

@[simp] theorem held_nil : held depth ([] : List (α × Bool)) = [] := by
  simp [held, window]

theorem ordered_nil : Ordered depth ([] : List (α × Bool)) :=
  ⟨[], [], by simp [window]⟩

theorem past_eq_nil (hlen : (window depth h).length < depth) : past depth h = [] := by
  rw [window, length_drop] at hlen
  have : h.length - depth = 0 := by omega
  rw [past, this, take_zero]

/-- The window and the past of a history given in two parts, the second of them the window. -/
theorem window_append {p w : List (α × Bool)} (hw : w.length ≤ depth)
    (hp : p = [] ∨ w.length = depth) : window depth (p ++ w) = w ∧ past depth (p ++ w) = p := by
  have hlen : (p ++ w).length - depth = p.length := by
    rw [length_append]
    rcases hp with rfl | hp
    · simp only [length_nil]
      omega
    · omega
  rw [window, past, hlen, drop_left, take_left]
  exact ⟨rfl, rfl⟩

/-! ## Push -/

theorem window_push_of_lt {x : α} (hlen : (window depth h).length < depth) :
    window depth (push h x) = window depth h ++ [(x, false)] ∧ past depth (push h x) = [] := by
  have hpast : past depth h = [] := past_eq_nil hlen
  have hsplit : push h x = [] ++ (window depth h ++ [(x, false)]) := by
    rw [push, nil_append]
    conv_lhs => rw [← past_append_window depth h, hpast, nil_append]
  rw [hsplit]
  exact window_append (by simpa using Nat.succ_le_of_lt hlen) (.inl rfl)

theorem window_push_of_eq {x : α} {e : α × Bool} {w : List (α × Bool)}
    (hw : window depth h = e :: w) (hlen : (window depth h).length = depth) :
    window depth (push h x) = w ++ [(x, false)] ∧ past depth (push h x) = past depth h ++ [e] := by
  have hsplit : push h x = (past depth h ++ [e]) ++ (w ++ [(x, false)]) := by
    conv_lhs => rw [push, ← past_append_window depth h, hw]
    simp
  have hlen' : (w ++ [(x, false)]).length = depth := by
    rw [hw] at hlen
    simpa using hlen
  rw [hsplit]
  exact window_append (Nat.le_of_eq hlen') (.inr hlen')

variable {x : α}

/-- **A push below the depth** appends, and nothing is dropped. -/
theorem push_of_lt (hord : Ordered depth h) (hroom : (held depth h).length < depth) :
    Ordered depth (push h x) ∧ held depth (push h x) = held depth h ++ [x] ∧
      evicted depth (push h x) = evicted depth h := by
  obtain ⟨done, kept, hwin⟩ := hord
  have hheld : held depth h = kept := by rw [held, hwin, unpopped_append]; simp
  rw [hheld] at hroom ⊢
  have hle := length_window_le depth h
  rcases Nat.lt_or_eq_of_le hle with hlt | heq
  · obtain ⟨hw, hp⟩ := window_push_of_lt (x := x) hlt
    have hpast : past depth h = [] := past_eq_nil hlt
    refine ⟨⟨done, kept ++ [x], ?_⟩, ?_, ?_⟩
    · rw [hw, hwin]; simp
    · rw [held, hw, hwin]; simp
    · rw [evicted, evicted, hp, hpast]
  · -- The window is full but the queue is not: the entry that leaves it was popped.
    cases done with
    | nil =>
      rw [hwin] at heq
      simp only [map_nil, nil_append, length_map] at heq
      omega
    | cons a done =>
      obtain ⟨hw, hp⟩ := window_push_of_eq (x := x) hwin heq
      refine ⟨⟨done, kept ++ [x], ?_⟩, ?_, ?_⟩
      · rw [hw]; simp
      · rw [held, hw]; simp
      · rw [evicted, evicted, hp]; simp

/-- **A push at the depth** drops the oldest entry. -/
theorem push_of_full (hord : Ordered depth h) (hpos : 0 < depth)
    (hfull : (held depth h).length = depth) :
    Ordered depth (push h x) ∧ held depth (push h x) = (held depth h).tail ++ [x] ∧
      (evicted depth (push h x)).length = (evicted depth h).length + 1 := by
  obtain ⟨done, kept, hwin⟩ := hord
  have hheld : held depth h = kept := by rw [held, hwin, unpopped_append]; simp
  rw [hheld] at hfull ⊢
  have hle := length_window_le depth h
  -- Everything in the window is still held.
  have hdone : done = [] := by
    rw [hwin, length_append, length_map, length_map] at hle
    exact eq_nil_of_length_eq_zero (by omega)
  subst hdone
  cases kept with
  | nil => simp only [length_nil] at hfull; omega
  | cons a kept =>
    have heq : (window depth h).length = depth := by rw [hwin]; simpa using hfull
    obtain ⟨hw, hp⟩ := window_push_of_eq (x := x) hwin heq
    refine ⟨⟨[], kept ++ [x], ?_⟩, ?_, ?_⟩
    · rw [hw]; simp
    · rw [held, hw]; simp
    · rw [evicted, evicted, hp]; simp

/-! ## Pop -/

theorem mark_ordered (done kept : List α) (a : α) :
    mark (done.map (·, true) ++ (a :: kept).map (·, false)) =
      (done ++ [a]).map (·, true) ++ kept.map (·, false) := by
  induction done with
  | nil => simp [mark]
  | cons b done ih =>
    rw [map_cons, cons_append, mark, ih]
    simp

theorem length_mark (h : List (α × Bool)) : (mark h).length = h.length := by
  induction h with
  | nil => rfl
  | cons e h ih =>
    obtain ⟨a, _ | _⟩ := e
    · rfl
    · rw [mark, length_cons, ih, length_cons]

theorem map_fst_mark (h : List (α × Bool)) : (mark h).map Prod.fst = h.map Prod.fst := by
  induction h with
  | nil => rfl
  | cons e h ih =>
    obtain ⟨a, _ | _⟩ := e
    · rfl
    · rw [mark, map_cons, ih, map_cons]

theorem map_fst_pop (depth : Nat) (h : List (α × Bool)) :
    (pop depth h).map Prod.fst = h.map Prod.fst := by
  rw [pop, map_append, map_fst_mark, ← map_append, past_append_window]

theorem mem_of_mem_held (hx : x ∈ held depth h) : x ∈ h.map Prod.fst := by
  obtain ⟨e, he, rfl⟩ := mem_map.mp hx
  exact mem_map_of_mem (mem_of_mem_drop (mem_of_mem_filter he))

/-- **A pop** removes the oldest entry held, and nothing is dropped. -/
theorem pop_of_held {kept : List α} (hord : Ordered depth h) (hheld : held depth h = x :: kept) :
    Ordered depth (pop depth h) ∧ held depth (pop depth h) = kept ∧
      evicted depth (pop depth h) = evicted depth h := by
  obtain ⟨done, kept', hwin⟩ := hord
  have hkept : kept' = x :: kept := by
    rw [← hheld, held, hwin, unpopped_append]; simp
  subst hkept
  have hpast : past depth h = [] ∨ (mark (window depth h)).length = depth := by
    rw [length_mark]
    rcases Nat.lt_or_eq_of_le (length_window_le depth h) with hlt | heq
    · exact .inl (past_eq_nil hlt)
    · exact .inr heq
  obtain ⟨hw, hp⟩ := window_append (by rw [length_mark]; exact length_window_le depth h) hpast
  rw [← pop] at hw hp
  have hmark : window depth (pop depth h) = (done ++ [x]).map (·, true) ++ kept.map (·, false) := by
    rw [hw, hwin, mark_ordered]
  refine ⟨⟨done ++ [x], kept, hmark⟩, ?_, ?_⟩
  · rw [held, hmark]; simp only [unpopped_append, unpopped_done, unpopped_kept, nil_append]
  · rw [evicted, evicted, hp]

end DropOldest
