import Brickwright.Machine.Calls

/-!
# Scanning a stream that comes in pieces

A scanner looks at the bytes it has and either waits for more, or takes some of them, perhaps with
an event. It may look as far ahead as it likes, as long as more bytes never change its mind.

* `scan_append` — scanning a buffer, and then what it left with more bytes after it, is scanning all
  of it at once.
* `feedAll_eq` — so the events of a stream, and what is left of it, do not depend on the cut.
-/

universe u v

structure Scanner (α : Type u) (ε : Type v) where
  /-- `none` to wait; else how much is taken, and the event. -/
  next : List α → Option (Nat × Option ε)
  progress : ∀ {l n e}, next l = some (n, e) → 0 < n ∧ n ≤ l.length
  stable : ∀ {l r}, next l = some r → ∀ more, next (l ++ more) = some r

namespace Scanner

open List

variable {α : Type u} {ε : Type v} (s : Scanner α ε)

/-- The events of a buffer, and what is left of it. -/
def scan (l : List α) : List ε × List α :=
  match _h : s.next l with
  | none => ([], l)
  | some (n, e) =>
    let r := scan (l.drop n)
    (e.toList ++ r.1, r.2)
termination_by l.length
decreasing_by
  have hn := s.progress _h
  rw [length_drop]
  omega

/-- One scan for each piece, of what was left and the piece. -/
def feedAll (buffer : List α) : List (List α) → List ε × List α
  | [] => ([], buffer)
  | piece :: pieces =>
    let r := s.scan (buffer ++ piece)
    let rest := feedAll r.2 pieces
    (r.1 ++ rest.1, rest.2)

variable {s} {l : List α}

theorem scan_of_none (h : s.next l = none) : s.scan l = ([], l) := by
  rw [scan]
  split
  · rfl
  · next heq =>
    rw [h] at heq
    cases heq

theorem scan_of_some {n : Nat} {e : Option ε} (h : s.next l = some (n, e)) :
    s.scan l = (e.toList ++ (s.scan (l.drop n)).1, (s.scan (l.drop n)).2) := by
  rw [scan]
  split
  · next heq =>
    rw [h] at heq
    cases heq
  · next heq =>
    rw [h] at heq
    cases heq
    rfl

@[simp] theorem next_nil : s.next [] = none := by
  match h : s.next [] with
  | none => rfl
  | some (n, e) =>
    obtain ⟨hpos, hle⟩ := s.progress h
    exact absurd hpos (Nat.not_lt.mpr hle)

theorem scan_induction {P : List α → Prop} (hwait : ∀ l, s.next l = none → P l)
    (htake : ∀ l n e, s.next l = some (n, e) → P (l.drop n) → P l) (l : List α) : P l := by
  match h : s.next l with
  | none => exact hwait l h
  | some (n, e) =>
    have hn := s.progress h
    exact htake l n e h (scan_induction hwait htake (l.drop n))
termination_by l.length
decreasing_by
  rw [length_drop]
  omega

theorem next_left (l : List α) : s.next (s.scan l).2 = none := by
  induction l using scan_induction (s := s) with
  | hwait l h => rwa [scan_of_none h]
  | htake l n e h ih => rwa [scan_of_some h]

/-- **What was taken stays taken**, and what is left is scanned with the bytes that follow. -/
theorem scan_append (l more : List α) : s.scan (l ++ more) =
    ((s.scan l).1 ++ (s.scan ((s.scan l).2 ++ more)).1, (s.scan ((s.scan l).2 ++ more)).2) := by
  induction l using scan_induction (s := s) with
  | hwait l h => rw [scan_of_none h, nil_append]
  | htake l n e h ih =>
    have hn := (s.progress h).2
    rw [scan_of_some (s.stable h more), drop_append_of_le_length hn, ih, scan_of_some h,
      append_assoc]

/-- **The cut does not matter.** -/
theorem feedAll_eq {buffer : List α} (h : s.next buffer = none) (pieces : List (List α)) :
    s.feedAll buffer pieces = s.scan (buffer ++ pieces.flatten) := by
  induction pieces generalizing buffer with
  | nil => rw [feedAll, flatten_nil, append_nil, scan_of_none h]
  | cons piece pieces ih =>
    rw [feedAll, ih (next_left _), flatten_cons, ← append_assoc, scan_append (_ ++ piece)]

end Scanner

/-!
## Feeding a decoder

A decoder takes one element at a time, may call out, and has a status: 0 to go on with the next
element, anything else to return it to the caller at once. A stream reaches it in chunks, one call
for each.

* `feed_append` — a chunk cut in two.
* `feedAll_of_feed` — if the whole stream is taken with status 0, so is every way of cutting it,
  with the same calls.
-/

namespace Feeding

open Calls
open List

variable {κ : Type u} {ρ : Type v} {σ β : Type} (step : σ → β → Calls κ ρ (Int × σ))

/-- One call: element by element, up to the first status other than 0. -/
def feed : σ → List β → Calls κ ρ (Int × σ)
  | s, [] => pure (0, s)
  | s, b :: bs => do
    let r ← step s b
    if r.1 ≠ 0 then pure r else feed r.2 bs

/-- One call for each chunk, with the statuses they return. -/
def feedAll : σ → List (List β) → Calls κ ρ (List Int × σ)
  | s, [] => pure ([], s)
  | s, chunk :: chunks => do
    let r ← feed step s chunk
    let rest ← feedAll r.2 chunks
    pure (r.1 :: rest.1, rest.2)

@[simp] theorem feed_nil (s : σ) : feed step s [] = ret (0, s) := rfl

theorem feed_cons (s : σ) (b : β) (bs : List β) : feed step s (b :: bs) =
    step s b >>= fun r => if r.1 ≠ 0 then ret r else feed step r.2 bs := rfl

/-- **A chunk cut in two**: the rest is fed if the first part was taken. -/
theorem feed_append (s : σ) (xs ys : List β) : feed step s (xs ++ ys) =
    feed step s xs >>= fun r => if r.1 ≠ 0 then ret r else feed step r.2 ys := by
  induction xs generalizing s with
  | nil => rfl
  | cons x xs ih =>
    rw [cons_append, feed_cons, feed_cons, bind_assoc]
    congr 1
    funext r
    by_cases hr : r.1 ≠ 0
    · rw [if_pos hr, if_pos hr, ret_bind, if_pos hr]
    · rw [if_neg hr, if_neg hr, ih]

variable {step} {Inv : σ → Prop} {s : σ} {bs : List β}

theorem feed_invariant (hstep : ∀ s b, Inv s → (step s b).Ensures fun r _ => Inv r.2) (hs : Inv s)
    (bs : List β) : (feed step s bs).Ensures fun r _ => Inv r.2 := by
  induction bs generalizing s with
  | nil => exact hs
  | cons b bs ih =>
    apply (hstep s b hs).bind
    intro r calls hr
    by_cases hstatus : r.1 ≠ 0
    · rw [if_pos hstatus]
      exact hr
    · rw [if_neg hstatus]
      exact ih hr

theorem feedAll_invariant (hstep : ∀ s b, Inv s → (step s b).Ensures fun r _ => Inv r.2)
    (hs : Inv s) (chunks : List (List β)) :
    (feedAll step s chunks).Ensures fun r _ => Inv r.2 := by
  induction chunks generalizing s with
  | nil => exact hs
  | cons chunk chunks ih =>
    apply (feed_invariant hstep hs chunk).bind
    intro r calls hr
    apply (ih hr).bind
    intro rest calls' hrest
    exact hrest

theorem feed_error {P : σ → Prop}
    (hstep : ∀ s b, Inv s → (step s b).Ensures fun r _ => Inv r.2 ∧ (r.1 ≠ 0 → P r.2))
    (hs : Inv s) (bs : List β) : (feed step s bs).Ensures fun r _ => r.1 ≠ 0 → P r.2 := by
  induction bs generalizing s with
  | nil => exact fun h => absurd rfl h
  | cons b bs ih =>
    apply (hstep s b hs).bind
    rintro r calls ⟨hr, herror⟩
    by_cases hstatus : r.1 ≠ 0
    · rw [if_pos hstatus]
      exact fun _ => herror hstatus
    · rw [if_neg hstatus]
      exact ih hr

/-- **The cut does not matter**: with good answers, a stream that is taken with status 0 as a whole
is taken so in chunks, and what it leaves and the calls are the same. -/
theorem feedAll_of_feed {G : κ × ρ → Prop} {P : σ → List (κ × ρ) → Prop}
    {chunks : List (List β)} (h : (feed step s chunks.flatten).Ensures fun r calls =>
      (∀ c ∈ calls, G c) → r.1 = 0 ∧ P r.2 calls) :
    (feedAll step s chunks).Ensures fun r calls =>
      (∀ c ∈ calls, G c) → (∀ status ∈ r.1, status = 0) ∧ P r.2 calls := by
  induction chunks generalizing s P with
  | nil => exact fun _ => ⟨fun _ hmem => absurd hmem not_mem_nil, (h nofun).2⟩
  | cons chunk chunks ih =>
    rw [flatten_cons, feed_append, ensures_bind] at h
    rw [feedAll, ensures_bind]
    apply h.mono
    intro r calls hr
    rw [ensures_bind]
    by_cases hgood : ∀ c ∈ calls, G c
    · by_cases hstatus : r.1 ≠ 0
      · rw [if_pos hstatus] at hr
        have hzero := (hr (by rwa [append_nil])).1
        exact absurd hzero hstatus
      · rw [if_neg hstatus] at hr
        have hrest : (feed step r.2 chunks.flatten).Ensures fun r' calls' =>
            (∀ c ∈ calls', G c) → r'.1 = 0 ∧ P r'.2 (calls ++ calls') := by
          apply hr.mono
          intro r' calls' hall hgood'
          apply hall
          exact forall_mem_append.mpr ⟨hgood, hgood'⟩
        apply (ih (P := fun s' calls' => P s' (calls ++ calls')) hrest).mono
        intro rest calls' hall hgood'
        rw [append_nil] at hgood'
        obtain ⟨hstatuses, hp⟩ := hall (forall_mem_append.mp hgood').2
        refine ⟨?_, by rwa [append_nil]⟩
        exact forall_mem_cons.mpr ⟨not_not.mp hstatus, hstatuses⟩
    · apply Ensures.of_forall
      intro rest calls' hgood'
      exact absurd (forall_mem_append.mp hgood').1 hgood

end Feeding
