import Mathlib.Data.List.Perm.Basic

/-!
# Queues with urgent entries

A queue of bounded length whose urgent entries are never refused: one that follows another urgent
entry takes its place, and in a full queue the oldest entry that is not urgent makes room for it.
Other entries are refused when the queue is full.

`Accounts` is the balance of such a queue over a run: what was taken in is what came out, what is
still there, what made room and what was replaced, and the first two of them are in the order in
which they were taken in.
-/

universe u

namespace Coalescing

open List

variable {α : Type u} (urgent : α → Bool) (depth : Nat)

def endsUrgent (q : List α) : Bool := q.getLast?.any urgent

/-- The queue after a push; nothing when it is refused. -/
def push (q : List α) (a : α) : Option (List α) :=
  if urgent a then
    if endsUrgent urgent q then some (q.dropLast ++ [a])
    else if q.length = depth then some (q.eraseP (fun b => !urgent b) ++ [a])
    else some (q ++ [a])
  else if q.length = depth then none
  else some (q ++ [a])

def replaced (q : List α) (a : α) : List α :=
  if urgent a ∧ endsUrgent urgent q then q.getLast?.toList else []

def shed (q : List α) (a : α) : List α :=
  if urgent a ∧ ¬endsUrgent urgent q ∧ q.length = depth then
    (q.find? fun b => !urgent b).toList
  else []

variable {urgent depth} {q q' : List α} {a : α}

theorem endsUrgent_concat (l : List α) (b : α) : endsUrgent urgent (l ++ [b]) = urgent b := by
  simp [endsUrgent]

theorem push_cases (h : push urgent depth q a = some q') :
    (urgent a ∧ (∃ l b, q = l ++ [b] ∧ urgent b ∧ q' = l ++ [a] ∧ replaced urgent q a = [b]) ∧
        shed urgent depth q a = []) ∨
      (urgent a ∧ ¬endsUrgent urgent q ∧ q.length = depth ∧
        q' = q.eraseP (fun b => !urgent b) ++ [a] ∧ replaced urgent q a = []) ∨
      ((urgent a → ¬endsUrgent urgent q) ∧ q.length ≠ depth ∧ q' = q ++ [a] ∧
        replaced urgent q a = [] ∧ shed urgent depth q a = []) := by
  unfold push at h
  by_cases hurgent : urgent a = true
  · rw [if_pos hurgent] at h
    by_cases hends : endsUrgent urgent q = true
    · rw [if_pos hends] at h
      refine .inl ⟨hurgent, ?_, by simp [shed, hends]⟩
      rcases eq_nil_or_concat q with rfl | ⟨l, b, hq⟩
      · cases hends
      · rw [concat_eq_append] at hq
        subst hq
        rw [endsUrgent_concat] at hends
        refine ⟨l, b, rfl, hends, ?_, ?_⟩
        · rw [← Option.some.inj h, dropLast_concat]
        · simp [replaced, hurgent, endsUrgent_concat, hends]
    · rw [if_neg hends] at h
      by_cases hfull : q.length = depth
      · rw [if_pos hfull] at h
        exact .inr (.inl ⟨hurgent, hends, hfull, (Option.some.inj h).symm,
          if_neg fun hboth => hends hboth.2⟩)
      · rw [if_neg hfull] at h
        exact .inr (.inr ⟨fun _ => hends, hfull, (Option.some.inj h).symm,
          if_neg fun hboth => hends hboth.2, if_neg fun hall => hfull hall.2.2⟩)
  · rw [if_neg hurgent] at h
    by_cases hfull : q.length = depth
    · rw [if_pos hfull] at h
      cases h
    · rw [if_neg hfull] at h
      exact .inr (.inr ⟨fun hyes => absurd hyes hurgent, hfull, (Option.some.inj h).symm,
        if_neg fun hboth => hurgent hboth.1, if_neg fun hall => hurgent hall.1⟩)

theorem push_eq_none (h : push urgent depth q a = none) : ¬urgent a ∧ q.length = depth := by
  unfold push at h
  split at h
  · split at h
    · cases h
    · split at h
      · cases h
      · cases h
  · next hurgent =>
    split at h
    · next hfull => exact ⟨hurgent, hfull⟩
    · cases h

theorem exists_first (hends : ¬endsUrgent urgent q) (hne : q ≠ []) :
    ∃ l b r, ¬urgent b ∧ q = l ++ b :: r ∧ q.eraseP (fun b => !urgent b) = l ++ r ∧
      q.find? (fun b => !urgent b) = some b := by
  have hlast : ∃ b ∈ q, (!urgent b) = true := by
    rcases eq_nil_or_concat q with rfl | ⟨l, b, hq⟩
    · exact absurd rfl hne
    · rw [concat_eq_append] at hq
      subst hq
      rw [endsUrgent_concat] at hends
      exact ⟨b, mem_append_right _ mem_cons_self, by simpa using hends⟩
  obtain ⟨c, hc, hnot⟩ := hlast
  obtain ⟨b, l, r, hl, hb, rfl, herase⟩ := @exists_of_eraseP _ (fun b => !urgent b) _ _ hc hnot
  refine ⟨l, b, r, by simpa using hb, rfl, herase, ?_⟩
  exact List.find?_eq_some_iff_append.mpr ⟨hb, l, r, rfl, fun d hd => by simpa using hl d hd⟩

theorem shed_one (hurgent : urgent a) (hends : ¬endsUrgent urgent q) (hfull : q.length = depth)
    (hne : q ≠ []) :
    (shed urgent depth q a).length = 1 ∧
      (q.eraseP fun b => !urgent b).length + 1 = q.length := by
  obtain ⟨l, b, r, -, rfl, herase, hfind⟩ := exists_first hends hne
  rw [shed, if_pos ⟨hurgent, hends, hfull⟩, hfind, herase]
  refine ⟨rfl, ?_⟩
  rw [length_append, length_append, length_cons, Nat.add_assoc]

/-- **What a push leaves**, from what made room or was replaced. -/
theorem push_spec (hdepth : 0 < depth) (h : push urgent depth q a = some q') :
    (∃ kept, kept.Sublist q ∧ q' = kept ++ [a]) ∧
      (q' ++ shed urgent depth q a ++ replaced urgent q a).Perm (q ++ [a]) ∧
      (∀ b ∈ shed urgent depth q a, ¬urgent b) ∧ (∀ b ∈ replaced urgent q a, urgent b) ∧
      (q.length ≤ depth → q'.length ≤ depth) := by
  rcases push_cases h with ⟨-, ⟨l, b, rfl, hb, rfl, hreplaced⟩, hshed⟩ |
    ⟨hurgent, hends, hfull, rfl, hreplaced⟩ | ⟨-, hroom, rfl, hreplaced, hshed⟩
  · rw [hreplaced, hshed, append_nil]
    refine ⟨⟨l, sublist_append_left l [b], rfl⟩, ?_, by simp, by simpa using hb, ?_⟩
    · rw [append_assoc, append_assoc]
      exact perm_append_comm.append_left l
    · intro hlen
      rw [length_append] at hlen ⊢
      exact hlen
  · have hne : q ≠ [] := by
      rintro rfl
      exact absurd hfull (Nat.ne_of_lt hdepth)
    obtain ⟨l, b, r, hb, rfl, herase, hfind⟩ := exists_first hends hne
    have hshed : shed urgent depth (l ++ b :: r) a = [b] := by
      rw [shed, if_pos ⟨hurgent, hends, hfull⟩, hfind]
      rfl
    rw [hreplaced, hshed, herase, append_nil]
    refine ⟨⟨l ++ r, ?_, rfl⟩, ?_, by simpa using hb, by simp, ?_⟩
    · exact (List.Sublist.refl l).append (sublist_cons_self b r)
    · have hmove : (l ++ r ++ [b]).Perm (l ++ b :: r) := by
        rw [append_assoc]
        exact (perm_append_singleton b r).append_left l
      refine List.Perm.trans ?_ (hmove.append_right [a])
      rw [append_assoc, append_assoc (l ++ r)]
      exact perm_append_comm.append_left _
    · intro hlen
      rw [length_append, length_cons] at hfull
      rw [length_append, length_append, length_singleton]
      omega
  · rw [hreplaced, hshed, append_nil, append_nil]
    refine ⟨⟨q, List.Sublist.refl q, rfl⟩, List.Perm.refl _, by simp, by simp, ?_⟩
    intro hlen
    rw [length_append, length_singleton]
    omega

/-! ## The balance of a run -/

variable (urgent depth) in
/-- What was taken in, what came out, what is there, what made room and what was replaced. -/
structure Accounts (taken out q shed replaced : List α) : Prop where
  order : (out ++ q).Sublist taken
  balance : (out ++ q ++ shed ++ replaced).Perm taken
  shed_not_urgent : ∀ b ∈ shed, ¬urgent b
  replaced_urgent : ∀ b ∈ replaced, urgent b
  length_le : q.length ≤ depth

variable {taken out gone old : List α}

namespace Accounts

theorem empty : Accounts urgent depth [] [] [] [] [] :=
  ⟨List.Sublist.refl _, List.Perm.refl _, by simp, by simp, Nat.zero_le _⟩

theorem push (h : Accounts urgent depth taken out q gone old) (hdepth : 0 < depth)
    (hpush : Coalescing.push urgent depth q a = some q') :
    Accounts urgent depth (taken ++ [a]) out q' (gone ++ shed urgent depth q a)
      (old ++ Coalescing.replaced urgent q a) := by
  obtain ⟨⟨kept, hkept, hq'⟩, hperm, hshed, hreplaced, hlen⟩ := push_spec hdepth hpush
  refine ⟨?_, ?_, ?_, ?_, hlen h.length_le⟩
  · rw [hq', ← append_assoc]
    exact ((List.Sublist.refl out).append hkept |>.trans h.order).append (List.Sublist.refl [a])
  · have hmiddle : (q' ++ (gone ++ shed urgent depth q a) ++
        (old ++ Coalescing.replaced urgent q a)).Perm (q ++ gone ++ old ++ [a]) := by
      classical
      rw [perm_iff_count] at hperm ⊢
      intro b
      have hcount := hperm b
      simp only [count_append] at hcount ⊢
      omega
    have hrest := hmiddle.append_left out
    simp only [← append_assoc] at hrest ⊢
    exact hrest.trans (h.balance.append_right [a])
  · intro b hb
    rcases mem_append.mp hb with hb | hb
    · exact h.shed_not_urgent b hb
    · exact hshed b hb
  · intro b hb
    rcases mem_append.mp hb with hb | hb
    · exact h.replaced_urgent b hb
    · exact hreplaced b hb

theorem pop (h : Accounts urgent depth taken out (a :: q) gone old) :
    Accounts urgent depth taken (out ++ [a]) q gone old := by
  have hsame : out ++ [a] ++ q = out ++ a :: q := by rw [append_assoc]; rfl
  refine ⟨hsame ▸ h.order, hsame ▸ h.balance, h.shed_not_urgent, h.replaced_urgent, ?_⟩
  exact Nat.le_of_succ_le h.length_le

end Accounts

end Coalescing
