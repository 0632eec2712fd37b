import Mathlib.Algebra.BigOperators.Group.List.Basic
import Mathlib.Tactic.Positivity
import Brickwright.Machine.Scanner

/-!
# A scanner with room for so many bytes

What a scanner has not taken stays in its buffer. One whose buffer has an end (`feedWithin`) stops
at the piece that no longer fits.

* `feedWithin_eq` — a stream that fits as a whole is scanned as if there were no end.
* `feedWithin_eq_scan_iff` — exactly when nothing of a stream is lost: what is taken at a time is a
  span of the stream, and a piece that begins in a span must end within the room from where the span
  begins (`Room`). The scanner may not wait long for what is no event (`Patient`).
* `feedWithin_eq_iff` — exactly when all records of a stream are found: a record and what stands
  before it are a span.
* `grown_of_le`, `grown_of_lt` — an array that grows by doubling, in 32-bit arithmetic, has an end
  at 2^30.
-/

universe u v

/-- Every piece that begins in a span ends within `limit` of where the span begins. The stream goes
on after `held` bytes of it. -/
def Room (limit held : Nat) (spans sizes : List Nat) : Prop :=
  ∀ k < sizes.length, ∀ j < spans.length,
    (spans.take j).sum ≤ held + (sizes.take k).sum →
    held + (sizes.take k).sum < (spans.take (j + 1)).sum →
    held + (sizes.take (k + 1)).sum ≤ (spans.take j).sum + limit

namespace Room

open List

instance (limit held : Nat) (spans sizes : List Nat) : Decidable (Room limit held spans sizes) :=
  inferInstanceAs (Decidable (∀ k < sizes.length, ∀ j < spans.length, _))

variable {limit held span n : Nat} {spans sizes : List Nat}

theorem nil_left : Room limit held [] sizes := fun _ _ _ hj => absurd hj (Nat.not_lt_zero _)

theorem cons_left : Room limit (span + held) (span :: spans) sizes ↔
    Room limit held spans sizes := by
  constructor
  · intro h k hk j hj hlo hhi
    have hroom := h k hk (j + 1) (Nat.succ_lt_succ hj)
    simp only [take_succ_cons, sum_cons] at hroom
    omega
  · intro h k hk j hj hlo hhi
    cases j with
    | zero =>
      simp only [take_succ_cons, take_zero, sum_cons, sum_nil] at hhi
      omega
    | succ j =>
      have hroom := h k hk j (Nat.lt_of_succ_lt_succ hj)
      simp only [take_succ_cons, sum_cons] at hlo hhi ⊢
      omega

theorem append_left {done : List Nat} :
    Room limit (done.sum + held) (done ++ spans) sizes ↔ Room limit held spans sizes := by
  induction done with
  | nil => rw [sum_nil, Nat.zero_add, nil_append]
  | cons span done ih => rw [sum_cons, Nat.add_assoc, cons_append, cons_left, ih]

theorem cons_right (hheld : held < span) : Room limit held (span :: spans) (n :: sizes) ↔
    held + n ≤ limit ∧ Room limit (held + n) (span :: spans) sizes := by
  constructor
  · intro h
    constructor
    · have hroom := h 0 (Nat.zero_lt_succ _) 0 (Nat.zero_lt_succ _)
      simp only [take_succ_cons, take_zero, sum_cons, sum_nil] at hroom
      omega
    · intro k hk j hj hlo hhi
      have hroom := h (k + 1) (Nat.succ_lt_succ hk) j hj
      simp only [take_succ_cons, sum_cons] at hroom
      simp only [take_succ_cons, sum_cons] at hhi
      omega
  · rintro ⟨hfirst, h⟩ k hk j hj hlo hhi
    cases k with
    | zero =>
      simp only [take_succ_cons, take_zero, sum_cons, sum_nil] at hlo hhi ⊢
      omega
    | succ k =>
      have hroom := h k (Nat.lt_of_succ_lt_succ hk) j hj
      simp only [take_succ_cons, sum_cons] at hlo hhi hroom ⊢
      omega

/-- A piece that ends within the room from the beginning of the stream fits. -/
theorem cons_right_of_le {size : Nat} (h : held + size ≤ limit) :
    Room limit held spans (size :: sizes) ↔ Room limit (held + size) spans sizes := by
  constructor
  · intro hroom k hk j hj hlo hhi
    have hnext := hroom (k + 1) (Nat.succ_lt_succ hk) j hj
    simp only [take_succ_cons, sum_cons] at hnext
    omega
  · intro hroom k hk j hj hlo hhi
    cases k with
    | zero =>
      simp only [take_succ_cons, take_zero, sum_cons, sum_nil]
      omega
    | succ k =>
      have hnext := hroom k (Nat.lt_of_succ_lt_succ hk) j hj
      simp only [take_succ_cons, sum_cons] at hlo hhi hnext ⊢
      omega

/-- A span that is longer than the room, and ends with a piece of its own. -/
theorem not_of_lt {size last : Nat} (h : limit < n * size + last) (hlast : 0 < last) :
    ¬ Room limit 0 [n * size + last] (List.replicate n size ++ [last]) := by
  intro hroom
  have hend := hroom n (by simp) 0 (by simp)
  simp only [take_zero, take_succ_cons, take_nil, sum_cons, sum_nil,
    take_left', length_replicate, sum_replicate_nat] at hend
  have hall : ((List.replicate n size ++ [last]).take (n + 1)).sum = n * size + last := by
    rw [take_of_length_le (by simp), sum_append, sum_replicate_nat,
      sum_singleton]
  omega

theorem of_sum_le (h : held + sizes.sum ≤ limit) : Room limit held spans sizes := by
  intro k _ j _ _ _
  have hsum := sum_take_add_sum_drop sizes (k + 1)
  omega

end Room

namespace Scanner

open List

variable {α : Type u} {ε : Type v} (s : Scanner α ε) (limit : Nat)

/-- `feedAll` with room for `limit` bytes: the events up to the piece that does not fit, and what is
left if every piece does. -/
def feedWithin (buffer : List α) : List (List α) → List ε × Option (List α)
  | [] => ([], some buffer)
  | piece :: pieces =>
    if limit < buffer.length + piece.length then ([], none)
    else
      let r := s.scan (buffer ++ piece)
      let rest := feedWithin r.2 pieces
      (r.1 ++ rest.1, rest.2)

variable {s} {limit} {buffer : List α} {piece : List α} {pieces : List (List α)}

theorem length_left_le (l : List α) : (s.scan l).2.length ≤ l.length := by
  induction l using scan_induction (s := s) with
  | hwait l h => exact Nat.le_of_eq (congrArg (fun r => r.2.length) (scan_of_none h))
  | htake l n e h ih =>
    rw [length_drop] at ih
    rw [scan_of_some h]
    exact Nat.le_trans ih (Nat.sub_le l.length n)

theorem feedWithin_of_lt (h : limit < buffer.length + piece.length) :
    s.feedWithin limit buffer (piece :: pieces) = ([], none) := if_pos h

theorem feedWithin_of_le (h : buffer.length + piece.length ≤ limit) :
    s.feedWithin limit buffer (piece :: pieces) =
      ((s.scan (buffer ++ piece)).1 ++ (s.feedWithin limit (s.scan (buffer ++ piece)).2 pieces).1,
        (s.feedWithin limit (s.scan (buffer ++ piece)).2 pieces).2) :=
  if_neg (Nat.not_lt_of_le h)

/-- **A stream that fits as a whole.** -/
theorem feedWithin_eq (h : buffer.length + pieces.flatten.length ≤ limit) :
    (s.feedWithin limit buffer pieces).1 = (s.feedAll buffer pieces).1 := by
  induction pieces generalizing buffer with
  | nil => rfl
  | cons piece pieces ih =>
    rw [flatten_cons, length_append] at h
    have hleft := length_left_le (s := s) (buffer ++ piece)
    rw [length_append] at hleft
    rw [feedWithin_of_le (by omega), ih (by omega), feedAll]

variable (s) in
/-- The same scanner, with what it takes as its events. -/
def measured : Scanner α Nat where
  next l := (s.next l).map fun r => (r.1, some r.1)
  progress h := by
    obtain ⟨r, hr, heq⟩ := Option.map_eq_some_iff.mp h
    cases heq
    exact s.progress hr
  stable h more := by
    obtain ⟨r, hr, rfl⟩ := Option.map_eq_some_iff.mp h
    rw [s.stable hr more]
    rfl

variable (s) in
/-- How much of a buffer is taken at a time. -/
def spans (l : List α) : List Nat := (s.measured.scan l).1

theorem spans_of_none {l : List α} (h : s.next l = none) : s.spans l = [] := by
  have hnext : s.measured.next l = none := congrArg (Option.map _) h
  rw [spans, scan_of_none hnext]

theorem spans_of_some {l : List α} {n : Nat} {e : Option ε} (h : s.next l = some (n, e)) :
    s.spans l = n :: s.spans (l.drop n) := by
  have hnext : s.measured.next l = some (n, some n) := congrArg (Option.map _) h
  rw [spans, scan_of_some hnext]
  rfl

theorem sum_spans (l : List α) : (s.spans l).sum + (s.scan l).2.length = l.length := by
  induction l using scan_induction (s := s) with
  | hwait l h => rw [spans_of_none h, scan_of_none h, sum_nil, Nat.zero_add]
  | htake l n e h ih =>
    have hn := (s.progress h).2
    rw [spans_of_some h, scan_of_some h, sum_cons, Nat.add_assoc, ih, length_drop]
    omega

theorem spans_append (l more : List α) :
    s.spans (l ++ more) = s.spans l ++ s.spans ((s.scan l).2 ++ more) := by
  induction l using scan_induction (s := s) with
  | hwait l h => rw [spans_of_none h, scan_of_none h, nil_append]
  | htake l n e h ih =>
    have hn := (s.progress h).2
    rw [spans_of_some (s.stable h more), drop_append_of_le_length hn, ih, spans_of_some h,
      scan_of_some h, cons_append]

variable (s) in
/-- On such streams a scanner that waits with `least` bytes waits for the end of what it takes next,
an event. -/
structure Patient (least : Nat) (Stream : List α → Prop) : Prop where
  drop : ∀ l n e, Stream l → s.next l = some (n, e) → Stream (l.drop n)
  waits : ∀ l more n e, Stream (l ++ more) → s.next l = none → least ≤ l.length →
    s.next (l ++ more) = some (n, e) → l.length < n ∧ e.isSome

section

variable {least : Nat} {Stream : List α → Prop} (hs : s.Patient least Stream)
  (hleast : ∀ piece ∈ pieces, least + piece.length ≤ limit + 1)

include hs

theorem Patient.scan {l more : List α} (h : Stream (l ++ more)) :
    Stream ((s.scan l).2 ++ more) := by
  induction l using scan_induction (s := s) with
  | hwait l hnext => rwa [scan_of_none hnext]
  | htake l n e hnext ih =>
    have hdrop := hs.drop _ n e h (s.stable hnext more)
    rw [drop_append_of_le_length (s.progress hnext).2] at hdrop
    rw [scan_of_some hnext]
    exact ih hdrop

include hleast

/-- **Exactly when nothing of a stream is lost.** -/
theorem feedWithin_eq_scan_iff (hwait : s.next buffer = none)
    (hstream : Stream (buffer ++ pieces.flatten)) :
    (s.feedWithin limit buffer pieces).1 = (s.scan (buffer ++ pieces.flatten)).1 ↔
      Room limit buffer.length (s.spans (buffer ++ pieces.flatten)) (pieces.map List.length) := by
  induction pieces generalizing buffer with
  | nil =>
    rw [flatten_nil, append_nil, scan_of_none hwait, spans_of_none hwait]
    exact iff_of_true rfl Room.nil_left
  | cons piece pieces ih =>
    obtain ⟨hfirst, hrest⟩ := forall_mem_cons.mp hleast
    rw [map_cons]
    rcases Nat.lt_or_ge limit (buffer.length + piece.length) with hfull | hfits
    · -- what it waits for is long: either it never comes, or its event is the one that is lost
      rw [feedWithin_of_lt hfull]
      match hnext : s.next (buffer ++ (piece :: pieces).flatten) with
      | none =>
        rw [scan_of_none hnext, spans_of_none hnext]
        exact iff_of_true rfl Room.nil_left
      | some (n, e) =>
        obtain ⟨hspan, hevent⟩ := hs.waits _ _ n e hstream hwait (by omega) hnext
        obtain ⟨event, rfl⟩ := Option.isSome_iff_exists.mp hevent
        rw [scan_of_some hnext, spans_of_some hnext, Room.cons_right hspan]
        constructor
        · exact nofun
        · rintro ⟨hfits, -⟩
          exact absurd hfull (Nat.not_lt_of_le hfits)
    · rw [flatten_cons, ← append_assoc] at hstream ⊢
      rw [feedWithin_of_le hfits, Room.cons_right_of_le hfits, scan_append (buffer ++ piece),
        spans_append (buffer ++ piece), ← length_append, ← sum_spans (buffer ++ piece),
        Room.append_left, ← ih hrest (next_left _) (hs.scan hstream), append_cancel_left_eq]

/-- A stream that is taken as a whole, and lost nothing, leaves nothing. -/
theorem feedWithin_left (hwait : s.next buffer = none)
    (hstream : Stream (buffer ++ pieces.flatten)) (hpieces : ∀ piece ∈ pieces, piece ≠ [])
    (hall : (s.scan (buffer ++ pieces.flatten)).2 = [])
    (h : (s.feedWithin limit buffer pieces).1 = (s.scan (buffer ++ pieces.flatten)).1) :
    (s.feedWithin limit buffer pieces).2 = some [] := by
  induction pieces generalizing buffer with
  | nil =>
    rw [flatten_nil, append_nil, scan_of_none hwait] at hall
    exact congrArg some hall
  | cons piece pieces ih =>
    obtain ⟨hfirst, hrest⟩ := forall_mem_cons.mp hleast
    obtain ⟨hpiece, hpieces⟩ := forall_mem_cons.mp hpieces
    rcases Nat.lt_or_ge limit (buffer.length + piece.length) with hfull | hfits
    · rw [feedWithin_of_lt hfull] at h
      match hnext : s.next (buffer ++ (piece :: pieces).flatten) with
      | none =>
        rw [scan_of_none hnext, flatten_cons] at hall
        exact absurd (append_eq_nil_iff.mp (append_eq_nil_iff.mp hall).2).1 hpiece
      | some (n, e) =>
        have hevent := (hs.waits _ _ n e hstream hwait (by omega) hnext).2
        obtain ⟨event, rfl⟩ := Option.isSome_iff_exists.mp hevent
        rw [scan_of_some hnext] at h
        cases h
    · rw [feedWithin_of_le hfits] at h ⊢
      rw [flatten_cons, ← append_assoc] at hstream hall h
      rw [scan_append (buffer ++ piece)] at hall h
      exact ih hrest (next_left _) (hs.scan hstream) hpieces hall (append_cancel_left h)

end

/-! ### Records -/

section records

variable {ι : Type*} {bytes : ι → List α} {event : ι → ε}
  (h : ∀ i more, s.next (bytes i ++ more) = some ((bytes i).length, some (event i)))
  {last : List α} (hlast : s.next last = none)

include h hlast

theorem scan_records (items : List ι) :
    s.scan (items.flatMap bytes ++ last) = (items.map event, last) ∧
      s.spans (items.flatMap bytes ++ last) = items.map fun i => (bytes i).length := by
  induction items with
  | nil => exact ⟨scan_of_none hlast, spans_of_none hlast⟩
  | cons i items ih =>
    have hnext := h i (items.flatMap bytes ++ last)
    rw [flatMap_cons, append_assoc, scan_of_some hnext, spans_of_some hnext,
      drop_left, ih.1, ih.2]
    exact ⟨rfl, rfl⟩

/-- A scanner of records waits for the end of a record. -/
theorem patient_records :
    s.Patient 0 fun l => ∃ items : List ι, l = items.flatMap bytes ++ last where
  drop := by
    rintro l n e ⟨items, rfl⟩ hnext
    cases items with
    | nil =>
      rw [flatMap_nil, nil_append, hlast] at hnext
      cases hnext
    | cons i items =>
      rw [flatMap_cons, append_assoc, h] at hnext
      cases hnext
      rw [flatMap_cons, append_assoc, drop_left]
      exact ⟨items, rfl⟩
  waits := by
    rintro l more n e ⟨items, hstream⟩ hwait - hnext
    cases items with
    | nil =>
      rw [hstream, flatMap_nil, nil_append, hlast] at hnext
      cases hnext
    | cons i items =>
      rw [flatMap_cons, append_assoc] at hstream
      rw [hstream, h] at hnext
      cases hnext
      refine ⟨Nat.lt_of_not_le fun hlong => ?_, rfl⟩
      obtain ⟨tail, rfl⟩ : bytes i <+: l :=
        prefix_of_prefix_length_le ⟨_, hstream.symm⟩ (prefix_append l more) hlong
      rw [h] at hwait
      cases hwait

/-- **Exactly when all records are found.** -/
theorem feedWithin_eq_iff {items : List ι} (hpieces : ∀ piece ∈ pieces, piece.length ≤ limit)
    (heq : pieces.flatten = items.flatMap bytes ++ last) :
    (s.feedWithin limit [] pieces).1 = items.map event ↔
      Room limit 0 (items.map fun i => (bytes i).length) (pieces.map List.length) := by
  have hleast : ∀ piece ∈ pieces, 0 + piece.length ≤ limit + 1 := fun piece hpiece =>
    (Nat.zero_add _).trans_le (Nat.le_succ_of_le (hpieces piece hpiece))
  obtain ⟨hscan, hspans⟩ := scan_records h hlast items
  rw [← heq] at hscan hspans
  have hiff := feedWithin_eq_scan_iff (patient_records h hlast) hleast next_nil ⟨items, heq⟩
  rw [nil_append, hscan, hspans] at hiff
  exact hiff

end records

end Scanner

/-! ## An array that grows by doubling -/

/-- The doubling of a length of 32 bits, cut off after `fuel` rounds. -/
def doubled (needed : Int) : Nat → Int → Option Int
  | 0, _ => none
  | fuel + 1, newCap =>
    if newCap < needed then doubled needed fuel (Int.bmod (newCap * 2) (2 ^ 32)) else some newCap

/-- The new length, if there has to be one. `none`: the doubling never ends. -/
def grown (capacity needed : Int) : Option Int :=
  if capacity ≥ needed then some capacity else doubled needed 32 capacity

section

variable {capacity needed : Int} {k fuel : Nat}

theorem doubled_of_le (h : needed ≤ 2 ^ 30) (hk : k ≤ 30) (hfuel : 30 - k < fuel) :
    ∃ j ≤ 30, doubled needed fuel (2 ^ k) = some (2 ^ j) ∧ needed ≤ 2 ^ j := by
  induction fuel generalizing k with
  | zero => exact absurd hfuel (Nat.not_lt_zero _)
  | succ fuel ih =>
    by_cases hlt : (2 : Int) ^ k < needed
    · have hk' : k < 30 := by
        by_contra hge
        rw [show k = 30 by omega] at hlt
        omega
      have hpos : (0 : Int) < 2 ^ (k + 1) := by positivity
      have hwrap : Int.bmod (2 ^ k * 2) (2 ^ 32) = 2 ^ (k + 1) := by
        apply Int.bmod_eq_of_le <;> omega
      rw [doubled, if_pos hlt, hwrap]
      exact ih hk' (by omega)
    · rw [doubled, if_neg hlt]
      exact ⟨k, hk, rfl, Int.not_lt.mp hlt⟩

/-- What the length becomes past 2^30: it wraps, and stays 0. -/
def Wrapped (newCap : Int) : Prop := (∃ k ≤ 30, newCap = 2 ^ k) ∨ newCap = -2 ^ 31 ∨ newCap = 0

theorem Wrapped.double {newCap : Int} (h : Wrapped newCap) :
    Wrapped (Int.bmod (newCap * 2) (2 ^ 32)) := by
  rcases h with ⟨k, hk, rfl⟩ | rfl | rfl
  · rcases Nat.lt_or_ge k 30 with hlt | hge
    · left
      have hle : (2 : Int) ^ (k + 1) ≤ 2 ^ 30 := pow_le_pow_right₀ (by decide) hlt
      have hpos : (0 : Int) < 2 ^ (k + 1) := by positivity
      refine ⟨k + 1, hlt, ?_⟩
      apply Int.bmod_eq_of_le <;> omega
    · rw [show k = 30 by omega]
      exact Or.inr (Or.inl rfl)
  · exact Or.inr (Or.inr rfl)
  · exact Or.inr (Or.inr rfl)

/-- **Past 2^30 the doubling does not end**, however long it is given. -/
theorem doubled_of_lt (h : 2 ^ 30 < needed) {newCap : Int} (hw : Wrapped newCap) :
    doubled needed fuel newCap = none := by
  induction fuel generalizing newCap with
  | zero => rfl
  | succ fuel ih =>
    have hlt : newCap < needed := by
      rcases hw with ⟨k, hk, rfl⟩ | rfl | rfl
      · have hle : (2 : Int) ^ k ≤ 2 ^ 30 := pow_le_pow_right₀ (by decide) hk
        omega
      · omega
      · omega
    rw [doubled, if_pos hlt]
    exact ih hw.double

theorem grown_of_lt (hcap : ∃ k ≤ 30, capacity = 2 ^ k) (h : 2 ^ 30 < needed) :
    grown capacity needed = none := by
  obtain ⟨k, hk, hpower⟩ := hcap
  have hle : (2 : Int) ^ k ≤ 2 ^ 30 := pow_le_pow_right₀ (by decide) hk
  rw [grown, if_neg (by omega), doubled_of_lt h (.inl ⟨k, hk, hpower⟩)]

theorem grown_of_le (hcap : ∃ k ≤ 30, capacity = 2 ^ k) (h : needed ≤ 2 ^ 30) :
    ∃ newCap, grown capacity needed = some newCap ∧ needed ≤ newCap ∧ ∃ k ≤ 30, newCap = 2 ^ k := by
  rw [grown]
  by_cases hroom : capacity ≥ needed
  · rw [if_pos hroom]
    exact ⟨capacity, rfl, hroom, hcap⟩
  · obtain ⟨k, hk, rfl⟩ := hcap
    obtain ⟨j, hj, hdoubled, hfits⟩ := doubled_of_le h hk (by omega : 30 - k < 32)
    rw [if_neg hroom, hdoubled]
    exact ⟨2 ^ j, rfl, hfits, j, hj, rfl⟩

end
