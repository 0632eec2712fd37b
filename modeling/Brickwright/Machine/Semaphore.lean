import Mathlib.Data.List.Nodup

/-!
# Counting semaphores

A thread that finds no token gets a ticket and waits until it is called. A post calls one of the
threads that wait, whichever the scheduler picks, and leaves a token only when there is none; so
there is never a token where a thread waits.

Which threads are `Blocked` is told by the tickets that they hold. Each operation has one lemma for
what it does to the semaphore (`wait_cases`, `post_cases`) and one for what it does to the blocked
threads (`blocked_wait`, `blocked_post`, `blocked_leave`), so that a program that uses a semaphore
needs to look at tickets no further.
-/

theorem Semaphore.spent_empty : 0 = 0 ∨ ([] : List Nat) = [] := .inl rfl

theorem Semaphore.fresh_empty : ∀ t ∈ ([] : List Nat), t < 0 := List.forall_mem_nil _

structure Semaphore where
  tokens : Nat := 0
  /-- The tickets that have not been called. -/
  waiting : List Nat := []
  next : Nat := 0
  spent : tokens = 0 ∨ waiting = [] := by exact Semaphore.spent_empty
  fresh : ∀ t ∈ waiting, t < next := by exact Semaphore.fresh_empty
  nodup : waiting.Nodup := by exact List.nodup_nil
  deriving DecidableEq

namespace Semaphore

open List

/-- What a program reads off a semaphore: its tokens, or less than that for the threads that
wait. -/
def value (s : Semaphore) : Int := s.tokens - s.waiting.length

/-- A thread takes a token, or a ticket. -/
def wait (s : Semaphore) : Semaphore × Option Nat :=
  if h : s.tokens = 0 then
    ({ s with
        waiting := s.waiting ++ [s.next]
        next := s.next + 1
        spent := .inl h
        fresh := fun t ht => by
          rcases mem_append.mp ht with hold | hnew
          · exact Nat.lt_succ_of_lt (s.fresh t hold)
          · exact mem_singleton.mp hnew ▸ Nat.lt_succ_self _
        nodup := s.nodup.append (nodup_singleton _) fun t ht hnew =>
          Nat.lt_irrefl _ (mem_singleton.mp hnew ▸ s.fresh t ht) }, some s.next)
  else
    ({ s with tokens := s.tokens - 1, spent := .inr (s.spent.resolve_left h) }, none)

/-- A ticket is no longer waited with: it has been called, or its thread gave up. -/
def leave (s : Semaphore) (ticket : Nat) : Semaphore :=
  { s with
    waiting := s.waiting.erase ticket
    spent := s.spent.imp id fun h => by rw [h]; rfl
    fresh := fun t ht => s.fresh t (mem_of_mem_erase ht)
    nodup := s.nodup.erase ticket }

def post (s : Semaphore) (pick : Nat) : Semaphore :=
  match h : s.waiting with
  | [] => { s with tokens := s.tokens + 1, spent := .inr h }
  | t :: ts => s.leave ((t :: ts).get ⟨pick % (ts.length + 1), Nat.mod_lt _ (Nat.succ_pos _)⟩)

/-! ## What an operation does to the semaphore -/

theorem wait_cases (s : Semaphore) :
    (0 < s.tokens ∧ s.wait.2 = none ∧ s.wait.1.tokens + 1 = s.tokens ∧
      s.wait.1.waiting = s.waiting ∧ s.wait.1.next = s.next) ∨
    (s.tokens = 0 ∧ s.wait.2 = some s.next ∧ s.wait.1.tokens = 0 ∧
      s.wait.1.waiting = s.waiting ++ [s.next] ∧ s.wait.1.next = s.next + 1) := by
  unfold wait
  split
  · next h => exact .inr ⟨h, rfl, h, rfl, rfl⟩
  · next h => exact .inl ⟨Nat.pos_of_ne_zero h, rfl, Nat.succ_pred_eq_of_ne_zero h, rfl, rfl⟩

theorem post_cases (s : Semaphore) (pick : Nat) :
    (s.waiting = [] ∧ (s.post pick).tokens = s.tokens + 1 ∧ (s.post pick).waiting = [] ∧
      (s.post pick).next = s.next) ∨
    ∃ t ∈ s.waiting, s.post pick = s.leave t := by
  unfold post
  split
  · next h => exact .inl ⟨h, rfl, h, rfl⟩
  · next t ts h =>
    rw [h]
    exact .inr ⟨_, get_mem _ _, rfl⟩

theorem leave_of_not_mem {s : Semaphore} {t : Nat} (h : t ∉ s.waiting) : s.leave t = s := by
  simp only [leave, erase_of_not_mem h]

theorem mem_of_mem_wait {s : Semaphore} {t : Nat} (ht : t < s.next) (h : t ∈ s.wait.1.waiting) :
    t ∈ s.waiting := by
  rcases s.wait_cases with ⟨-, -, -, hwaiting, -⟩ | ⟨-, -, -, hwaiting, -⟩
  · rwa [hwaiting] at h
  · rw [hwaiting] at h
    rcases mem_append.mp h with hold | hnew
    · exact hold
    · exact absurd ht (mem_singleton.mp hnew ▸ Nat.lt_irrefl _)

theorem mem_of_mem_leave {s : Semaphore} {t u : Nat} (h : u ∈ (s.leave t).waiting) :
    u ∈ s.waiting :=
  mem_of_mem_erase h

theorem mem_of_mem_post {s : Semaphore} {t pick : Nat} (h : t ∈ (s.post pick).waiting) :
    t ∈ s.waiting := by
  rcases s.post_cases pick with ⟨-, -, hwaiting, -⟩ | ⟨u, -, hpost⟩
  · rw [hwaiting] at h
    cases h
  · rw [hpost] at h
    exact mem_of_mem_leave h

theorem value_pos {s : Semaphore} : 0 < s.value ↔ 0 < s.tokens := by
  unfold value
  rcases s.spent with h | h
  · omega
  · rw [h, length_nil]
    omega

/-! ## The threads that wait -/

variable {s : Semaphore} {held : Nat → Option Nat}

/-- A thread holds a ticket that has not been called. -/
def Blocked (s : Semaphore) (held : Nat → Option Nat) (i : Nat) : Prop :=
  ∃ t ∈ s.waiting, held i = some t

/-- Every ticket has been given out to one thread. -/
structure Tickets (s : Semaphore) (held : Nat → Option Nat) : Prop where
  issued : ∀ i t, held i = some t → t < s.next
  own : ∀ i j t, held i = some t → held j = some t → i = j
  held : ∀ t ∈ s.waiting, ∃ i, held i = some t

theorem tickets_empty : Tickets {} fun _ => none :=
  ⟨by rintro _ _ ⟨⟩, by rintro _ _ _ ⟨⟩, by rintro _ ⟨⟩⟩

theorem not_blocked_of_pos (h : 0 < s.tokens) (i : Nat) : ¬s.Blocked held i := by
  rintro ⟨t, ht, -⟩
  rcases s.spent with h0 | hnil
  · omega
  · rw [hnil] at ht
    cases ht

theorem exists_blocked_of_mem (hs : s.Tickets held) {t : Nat} (ht : t ∈ s.waiting) :
    ∃ i, held i = some t ∧ s.Blocked held i := by
  obtain ⟨i, hi⟩ := hs.held t ht
  exact ⟨i, hi, t, ht, hi⟩

/-! ### A thread waits -/

theorem Tickets.wait (hs : s.Tickets held) {i : Nat} (hi : held i = none) :
    s.wait.1.Tickets (Function.update held i s.wait.2) := by
  rcases s.wait_cases with ⟨-, hnone, -, hwaiting, hnext⟩ | ⟨-, hsome, -, hwaiting, hnext⟩
  · rw [hnone, ← hi, Function.update_eq_self]
    exact ⟨hnext ▸ hs.issued, hs.own, hwaiting ▸ hs.held⟩
  · rw [hsome]
    refine ⟨fun j t hj => ?_, fun j k t hj hk => ?_, fun t ht => ?_⟩
    · rw [hnext]
      by_cases hji : j = i
      · subst hji
        rw [Function.update_self] at hj
        cases hj
        exact Nat.lt_succ_self _
      · rw [Function.update_of_ne hji] at hj
        exact Nat.lt_succ_of_lt (hs.issued j t hj)
    · -- the new ticket is above those that have been given out
      by_cases hji : j = i <;> by_cases hki : k = i
      · exact hji.trans hki.symm
      · subst hji
        rw [Function.update_self] at hj
        rw [Function.update_of_ne hki] at hk
        cases hj
        exact absurd (hs.issued k _ hk) (Nat.lt_irrefl _)
      · subst hki
        rw [Function.update_self] at hk
        rw [Function.update_of_ne hji] at hj
        cases hk
        exact absurd (hs.issued j _ hj) (Nat.lt_irrefl _)
      · rw [Function.update_of_ne hji] at hj
        rw [Function.update_of_ne hki] at hk
        exact hs.own j k t hj hk
    · rw [hwaiting] at ht
      rcases mem_append.mp ht with hold | hnew
      · obtain ⟨j, hj⟩ := hs.held t hold
        have hji : j ≠ i := by
          rintro rfl
          cases hi.symm.trans hj
        exact ⟨j, (Function.update_of_ne hji _ _).trans hj⟩
      · rw [mem_singleton.mp hnew]
        exact ⟨i, Function.update_self ..⟩

theorem blocked_wait (hs : s.Tickets held) {i : Nat} (hi : held i = none) (j : Nat) :
    s.wait.1.Blocked (Function.update held i s.wait.2) j ↔
      s.Blocked held j ∨ j = i ∧ s.tokens = 0 := by
  rcases s.wait_cases with ⟨hpos, hnone, -, hwaiting, -⟩ | ⟨hzero, hsome, -, hwaiting, -⟩
  · rw [hnone, ← hi, Function.update_eq_self, Blocked, hwaiting]
    exact (or_iff_left fun h => absurd h.2 (Nat.ne_of_gt hpos)).symm
  · rw [hsome, Blocked, hwaiting]
    by_cases hji : j = i
    · subst hji
      rw [Function.update_self]
      exact iff_of_true ⟨s.next, by simp, rfl⟩ (.inr ⟨rfl, hzero⟩)
    · rw [Function.update_of_ne hji]
      constructor
      · rintro ⟨t, ht, hj⟩
        rcases mem_append.mp ht with hold | hnew
        · exact .inl ⟨t, hold, hj⟩
        · rw [mem_singleton.mp hnew] at hj
          exact absurd (hs.issued j _ hj) (Nat.lt_irrefl _)
      · rintro (⟨t, ht, hj⟩ | ⟨heq, -⟩)
        · exact ⟨t, mem_append_left _ ht, hj⟩
        · exact absurd heq hji

/-! ### A thread gives its ticket up -/

theorem Tickets.drop (hs : s.Tickets held) {i t : Nat} (hi : held i = some t) :
    (s.leave t).Tickets (Function.update held i none) := by
  have hold : ∀ {j u}, Function.update held i none j = some u → held j = some u := by
    intro j u hj
    by_cases hji : j = i
    · subst hji
      rw [Function.update_self] at hj
      cases hj
    · rwa [Function.update_of_ne hji] at hj
  refine ⟨fun j u hj => hs.issued j u (hold hj),
    fun j k u hj hk => hs.own j k u (hold hj) (hold hk), fun u hu => ?_⟩
  have hu' : u ≠ t ∧ u ∈ s.waiting := s.nodup.mem_erase_iff.mp hu
  obtain ⟨j, hj⟩ := hs.held u hu'.2
  have hji : j ≠ i := by
    rintro rfl
    exact hu'.1 (Option.some.inj (hj.symm.trans hi))
  exact ⟨j, (Function.update_of_ne hji _ _).trans hj⟩

theorem Tickets.clear (hs : s.Tickets held) {i : Nat} (hi : ¬s.Blocked held i) :
    s.Tickets (Function.update held i none) := by
  cases hheld : held i with
  | none => rwa [← hheld, Function.update_eq_self]
  | some t =>
    have hdrop := hs.drop hheld
    rwa [leave_of_not_mem fun ht => hi ⟨t, ht, hheld⟩] at hdrop

theorem blocked_leave (hs : s.Tickets held) {i t : Nat} (hi : held i = some t) (j : Nat) :
    (s.leave t).Blocked held j ↔ s.Blocked held j ∧ j ≠ i := by
  constructor
  · rintro ⟨u, hu, hj⟩
    have hu' : u ≠ t ∧ u ∈ s.waiting := s.nodup.mem_erase_iff.mp hu
    refine ⟨⟨u, hu'.2, hj⟩, ?_⟩
    rintro rfl
    exact hu'.1 (Option.some.inj (hj.symm.trans hi))
  · rintro ⟨⟨u, hu, hj⟩, hji⟩
    refine ⟨u, s.nodup.mem_erase_iff.mpr ⟨?_, hu⟩, hj⟩
    rintro rfl
    exact hji (hs.own j i u hj hi)

theorem Blocked.mono {s' : Semaphore} {held' : Nat → Option Nat} {i : Nat} (h : s'.Blocked held' i)
    (hwaiting : ∀ t ∈ s'.waiting, t ∈ s.waiting) (hheld : ∀ t, held' i = some t → held i = some t) :
    s.Blocked held i := by
  obtain ⟨t, ht, hi⟩ := h
  exact ⟨t, hwaiting t ht, hheld t hi⟩

theorem blocked_drop {i : Nat} (j : Nat) :
    s.Blocked (Function.update held i none) j ↔ s.Blocked held j ∧ j ≠ i := by
  by_cases hji : j = i
  · subst hji
    refine iff_of_false ?_ fun h => h.2 rfl
    rintro ⟨t, -, ht⟩
    rw [Function.update_self] at ht
    cases ht
  · rw [Blocked, Function.update_of_ne hji, and_iff_left hji]
    exact Iff.rfl

/-! ### A post -/

theorem Tickets.leave (hs : s.Tickets held) (t : Nat) : (s.leave t).Tickets held :=
  ⟨hs.issued, hs.own, fun u hu => hs.held u (mem_of_mem_erase hu)⟩

theorem Tickets.post (hs : s.Tickets held) (pick : Nat) : (s.post pick).Tickets held := by
  rcases s.post_cases pick with ⟨-, -, hwaiting, hnext⟩ | ⟨t, -, hpost⟩
  · exact ⟨hnext ▸ hs.issued, hs.own, by rw [hwaiting]; nofun⟩
  · exact hpost ▸ hs.leave t

theorem blocked_post (hs : s.Tickets held) (pick : Nat) :
    ((∀ j, ¬s.Blocked held j) ∧ (s.post pick).tokens = s.tokens + 1 ∧
      ∀ j, ¬(s.post pick).Blocked held j) ∨
    ∃ i, s.Blocked held i ∧ (s.post pick).tokens = s.tokens ∧
      ∀ j, (s.post pick).Blocked held j ↔ s.Blocked held j ∧ j ≠ i := by
  rcases s.post_cases pick with ⟨hnil, htokens, hwaiting, -⟩ | ⟨t, ht, hpost⟩
  · refine .inl ⟨?_, htokens, ?_⟩
    · rintro j ⟨t, ht, -⟩
      rw [hnil] at ht
      cases ht
    · rintro j ⟨t, ht, -⟩
      rw [hwaiting] at ht
      cases ht
  · obtain ⟨i, hi, hblocked⟩ := exists_blocked_of_mem hs ht
    exact .inr ⟨i, hblocked, hpost ▸ rfl, fun j => hpost ▸ blocked_leave hs hi j⟩

end Semaphore
