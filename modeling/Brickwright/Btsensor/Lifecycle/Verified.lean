import Brickwright.Btsensor.Lifecycle.Basic

/-!
# One instance, and the stops that are meant for it

That one instance at most is alive holds of every run (`one_instance`). That a stop waits for its
instance, and that an instance is not stopped by a call from before, depends on two posts that are
made without the lock. A daemon clears `g_running` and posts `g_stopped` later: a start in between
finds nothing to drain, and the post is left for a stop of the next instance. And a stop posts its
request long after it has seen `g_running`: a start may have emptied the requests by then, and the
task it creates finds this one. `lifecycle_of_punctual` says that nothing else goes wrong.
-/

namespace Brickwright.Btsensor.Lifecycle

open List

def Returned (h : List (Nat × Note)) (c : Nat) : Prop := ∃ i k ret, (i, .returns c k ret) ∈ h

/-- It has returned before the instance was started. -/
def Overdue (h : List (Nat × Note)) (c k : Nat) : Prop :=
  ∃ pre i post, h = pre ++ (i, .started k) :: post ∧ Returned pre c

/-- One instance at most is between the start and the stop of its services. -/
def OneServing (s : Threads.State Shared Point) : Prop :=
  ∀ i j k l, (s.pc i).serving = some k → (s.pc j).serving = some l → i = j

/-- A stop that returns 0 does so when the instance it has found is torn down. -/
def StopsWait (h : List (Nat × Note)) : Prop :=
  ∀ pre i c k post, h = pre ++ (i, .returns c k 0) :: post → ∃ j, (j, .tornDown k) ∈ pre

/-- No instance takes the request of a stop that had returned before it was started. -/
def StopsMeant (h : List (Nat × Note)) : Prop :=
  ∀ pre i k c post, h = pre ++ (i, .takes k c) :: post → ¬Overdue pre c k

/-- A start has emptied `g_stopped`, and a daemon that is no longer `g_running` has yet to post
it. -/
def LatePost (s : Threads.State Shared Point) (e : Nat × Input) : Prop :=
  (∃ hooks, s.pc e.1 = .drainingStopped hooks) ∧ (∃ ret pick, e.2 = .go ret pick) ∧
    s.shared.stopped = [] ∧ ∃ j k, s.pc j = .posting k

/-- A stop returns whose request was posted since a start has emptied `g_stop_request`, and the task
is not created yet. -/
def EarlyReturn (s : Threads.State Shared Point) (e : Nat × Input) : Prop :=
  (∃ c k ret, (e.1, .returns c k ret) ∈ threads.notes s e.1 e.2 ∧ c ∈ s.shared.stopRequest) ∧
    ∃ j, (s.pc j).Drained

def Punctual (s : Threads.State Shared Point) (e : Nat × Input) : Prop :=
  ¬LatePost s e ∧ ¬EarlyReturn s e

/-! ## The book of a run -/

/-- What the notes tell of the instances. -/
structure Told (h : List (Nat × Note)) (s : Threads.State Shared Point) : Prop where
  torn : ∀ k < s.shared.instances,
    (∃ j, (j, .tornDown k) ∈ h) ∨ k ∈ s.shared.born ∨ ∃ j, (s.pc j).serving = some k
  begun : ∀ j k, (j, .started k) ∈ h → k < s.shared.instances
  counted : s.shared.running = true → 0 < s.shared.instances

structure Called (h : List (Nat × Note)) (s : Threads.State Shared Point) : Prop where
  found : ∀ j c k, (s.pc j).call = some (c, k) → c < s.shared.calls ∧ k < s.shared.instances
  own : ∀ i j c k l, (s.pc i).call = some (c, k) → (s.pc j).call = some (c, l) → i = j
  pending : ∀ j c k, (s.pc j).call = some (c, k) → ¬Returned h c
  returned : ∀ c, Returned h c → c < s.shared.calls

/-- What a punctual run keeps of the two semaphores. -/
structure Timely (h : List (Nat × Note)) (s : Threads.State Shared Point) : Prop where
  quiet : (s.shared.running = true ∨ ∃ j hooks, s.pc j = .creating hooks) →
    s.shared.stopped = [] ∧ ∀ j k, s.pc j ≠ .posting k
  unanswered : (∃ j, (s.pc j).Drained) → ∀ c ∈ s.shared.stopRequest, ¬Returned h c
  fresh : s.shared.running = true → ∀ c ∈ s.shared.stopRequest, ∀ k, k + 1 = s.shared.instances →
    ¬Overdue h c k

section Notes

variable {h : List (Nat × Note)} {notes : List Note} {i c k : Nat}

theorem returned_append :
    Returned (h ++ notes.map (Prod.mk i)) c ↔
      Returned h c ∨ ∃ k ret, .returns c k ret ∈ notes := by
  constructor
  · rintro ⟨j, k, ret, hmem⟩
    rcases mem_append.mp hmem with hold | hnew
    · exact .inl ⟨j, k, ret, hold⟩
    · obtain ⟨n, hn, heq⟩ := mem_map.mp hnew
      cases heq
      exact .inr ⟨k, ret, hn⟩
  · rintro (⟨j, k, ret, hmem⟩ | ⟨k, ret, hmem⟩)
    · exact ⟨j, k, ret, mem_append_left _ hmem⟩
    · exact ⟨i, k, ret, mem_append_right _ (mem_map_of_mem hmem)⟩

theorem Overdue.returned (h' : Overdue h c k) : Returned h c := by
  obtain ⟨pre, i, post, rfl, j, l, ret, hmem⟩ := h'
  exact ⟨j, l, ret, mem_append_left _ hmem⟩

theorem Overdue.started (h' : Overdue h c k) : ∃ i, (i, .started k) ∈ h := by
  obtain ⟨pre, i, post, rfl, -⟩ := h'
  exact ⟨i, by simp⟩

theorem overdue_concat {n : Note} (h' : Overdue (h ++ [(i, n)]) c k) :
    Overdue h c k ∨ n = .started k ∧ Returned h c := by
  obtain ⟨pre, j, post, heq, hreturned⟩ := h'
  rcases eq_nil_or_concat post with rfl | ⟨post', m, rfl⟩
  · obtain ⟨rfl, hn⟩ := append_inj' heq rfl
    cases hn
    exact .inr ⟨rfl, hreturned⟩
  · rw [concat_eq_append, ← cons_append, ← append_assoc] at heq
    obtain ⟨rfl, -⟩ := append_inj' heq rfl
    exact .inl ⟨pre, j, post', rfl, hreturned⟩

end Notes

/-! ## What a move tells -/

section Moves

variable {s s' : Shared} {pc pc' : Point} {notes : List Note}

theorem Move.serving_cases (h : Move s pc s' notes pc') :
    (s'.instances = s.instances ∧ s'.born = s.born ∧ pc'.serving = pc.serving) ∨
    (s'.instances = s.instances + 1 ∧ s'.born = s.born ++ [s.instances] ∧
      pc'.serving = pc.serving) ∨
    (∃ k, s'.instances = s.instances ∧ s.born = k :: s'.born ∧ pc.serving = none ∧
      pc'.serving = some k) ∨
    ∃ k, s'.instances = s.instances ∧ s'.born = s.born ∧ pc.serving = some k ∧
      .tornDown k ∈ notes := by
  cases h with
  | walk h => exact .inl ⟨rfl, rfl, h.serving⟩
  | create => exact .inr (.inl ⟨rfl, rfl, rfl⟩)
  | run h => exact .inr (.inr (.inl ⟨_, rfl, h, rfl, rfl⟩))
  | tornDown h => exact .inr (.inr (.inr ⟨_, rfl, rfl, h, mem_singleton_self _⟩))
  | _ => exact .inl ⟨rfl, rfl, rfl⟩

theorem Move.started (h : Move s pc s' notes pc') {k : Nat} (hk : .started k ∈ notes) :
    k = s.instances ∧ s'.instances = s.instances + 1 := by
  cases h with
  | create =>
    cases mem_singleton.mp hk
    exact ⟨rfl, rfl⟩
  | still | walk | lock | drainRequest | drained | drainStopped | emptied | notCreated | unlock |
    call | request | run | clear | post => cases hk
  | _ => cases mem_singleton.mp hk

theorem Move.running (h : Move s pc s' notes pc') :
    s.instances ≤ s'.instances ∧ (s'.running = true → s.running = true ∨ 0 < s'.instances) := by
  cases h with
  | create => exact ⟨Nat.le_succ _, fun _ => .inr (Nat.succ_pos _)⟩
  | notCreated | clear => exact ⟨Nat.le_refl _, nofun⟩
  | _ => exact ⟨Nat.le_refl _, .inl⟩

theorem Move.call_cases (h : Move s pc s' notes pc') :
    (s'.calls = s.calls ∧ (pc'.call = pc.call ∨ pc'.call = none) ∧
      ∀ c k ret, .returns c k ret ∈ notes → pc.call = some (c, k) ∧ pc'.call = none) ∨
    (s.running = true ∧ s'.calls = s.calls + 1 ∧ pc'.call = some (s.calls, s.instances - 1) ∧
      notes = []) := by
  cases h with
  | walk h => exact .inl ⟨rfl, .inr h.call, nofun⟩
  | call hrunning => exact .inr ⟨hrunning, rfl, rfl, rfl⟩
  | request => exact .inl ⟨rfl, .inl rfl, nofun⟩
  | returns | gives =>
    refine .inl ⟨rfl, .inr rfl, fun c k ret hmem => ?_⟩
    cases mem_singleton.mp hmem
    exact ⟨rfl, rfl⟩
  | create | take | tornDown =>
    refine .inl ⟨rfl, .inr rfl, fun c k ret hmem => ?_⟩
    cases mem_singleton.mp hmem
  | still => exact .inl ⟨rfl, .inl rfl, nofun⟩
  | _ => exact .inl ⟨rfl, .inr rfl, nofun⟩

/-- What a move does to `g_stopped`, and to who keeps it empty or is about to post it. -/
theorem Move.stopped_cases (h : Move s pc s' notes pc') :
    (s'.stopped ⊆ s.stopped ∧
      (s'.running = true → s.running = true ∨ ∃ hooks, pc = .creating hooks) ∧
      (∀ hooks, pc' = .creating hooks → pc = .creating hooks) ∧
      ∀ k, pc' = .posting k → pc = .posting k) ∨
    (s.stopped = [] ∧ s' = s ∧ ∃ hooks, pc = .drainingStopped hooks ∧ pc' = .creating hooks) ∨
    (s.locked = false ∧ s'.running = false ∧ ∃ k, pc' = .posting k) ∨
    (s'.running = s.running ∧ (∃ k, pc = .posting k) ∧ pc' = .idle) := by
  cases h with
  | still => exact .inl ⟨List.Subset.refl _, .inl, fun _ => id, fun _ => id⟩
  | walk h =>
    refine .inl ⟨List.Subset.refl _, .inl, fun hooks hc => ?_, fun k hk => absurd hk (h.posting k)⟩
    exact absurd (hc ▸ trivial) h.free.2
  | lock _ _ _ _ hstopped => exact .inl ⟨hstopped, .inl, nofun, nofun⟩
  | drainStopped h => exact .inl ⟨h ▸ subset_cons_self _ _, .inl, nofun, nofun⟩
  | emptied h => exact .inr (.inl ⟨h, rfl, _, rfl, rfl⟩)
  | notCreated => exact .inl ⟨List.Subset.refl _, nofun, nofun, nofun⟩
  | create => exact .inl ⟨List.Subset.refl _, fun _ => .inr ⟨_, rfl⟩, nofun, nofun⟩
  | returns _ hsub => exact .inl ⟨hsub, .inl, nofun, nofun⟩
  | clear hfree => exact .inr (.inr (.inl ⟨hfree, rfl, _, rfl⟩))
  | post => exact .inr (.inr (.inr ⟨rfl, ⟨_, rfl⟩, rfl⟩))
  | _ => exact .inl ⟨List.Subset.refl _, .inl, nofun, nofun⟩

theorem Move.requests_cases (h : Move s pc s' notes pc') :
    (s'.stopRequest ⊆ s.stopRequest ∧ (pc'.Drained → pc.Drained ∨ s'.stopRequest = [])) ∨
    ∃ c k, pc.call = some (c, k) ∧ s'.stopRequest = s.stopRequest ++ [c] ∧ ¬pc'.Drained ∧
      notes = [] ∧ s'.running = s.running ∧ s'.instances = s.instances := by
  cases h with
  | still => exact .inl ⟨List.Subset.refl _, .inl⟩
  | walk h => exact .inl ⟨List.Subset.refl _, fun hd => absurd hd.starts.holds h.free.2⟩
  | lock _ _ _ hrequests => exact .inl ⟨hrequests, False.elim⟩
  | drainRequest h => exact .inl ⟨h ▸ subset_cons_self _ _, False.elim⟩
  | drained h => exact .inl ⟨List.Subset.refl _, fun _ => .inr h⟩
  | drainStopped | emptied => exact .inl ⟨List.Subset.refl _, fun _ => .inl trivial⟩
  | request => exact .inr ⟨_, _, rfl, rfl, id, rfl, rfl, rfl⟩
  | take _ hsub => exact .inl ⟨hsub, False.elim⟩
  | _ => exact .inl ⟨List.Subset.refl _, False.elim⟩

theorem Move.run_cases (h : Move s pc s' notes pc') (hrun : s'.running = true) :
    (s.running = true ∧ s'.instances = s.instances ∧ ∀ k, .started k ∉ notes) ∨
    (pc.Drained ∧ s'.stopRequest = s.stopRequest ∧ s'.instances = s.instances + 1 ∧
      notes = [.started s.instances]) := by
  cases h with
  | create => exact .inr ⟨trivial, rfl, rfl, rfl⟩
  | notCreated | clear => cases hrun
  | returns | gives | take | tornDown =>
    refine .inl ⟨hrun, rfl, fun k hk => ?_⟩
    cases mem_singleton.mp hk
  | _ => exact .inl ⟨hrun, rfl, nofun⟩

end Moves

section Steps

variable {h : List (Nat × Note)} {s s' : Threads.State Shared Point} {i : Nat} {notes : List Note}

theorem Told.move (ht : Told h s) (hmove : Move s.shared (s.pc i) s'.shared notes (s'.pc i))
    (hother : ∀ j, j ≠ i → s'.pc j = s.pc j) : Told (h ++ notes.map (Prod.mk i)) s' := by
  obtain ⟨hmono, hrunning⟩ := hmove.running
  refine ⟨fun k hk => ?_, fun j k hk => ?_, fun hrun => ?_⟩
  · -- where the thread that moves serves what it did before
    have hserving : ∀ {j}, (s'.pc i).serving = (s.pc i).serving → (s.pc j).serving = some k →
        (s'.pc j).serving = some k := by
      intro j hsame hj
      rcases eq_or_ne j i with rfl | hji
      · rw [hsame]
        exact hj
      · rw [hother j hji]
        exact hj
    have hold : k < s.shared.instances → (∃ j, (j, .tornDown k) ∈ h ++ notes.map (Prod.mk i)) ∨
        k ∈ s.shared.born ∨ ∃ j, (s.pc j).serving = some k :=
      fun hlt => (ht.torn k hlt).imp (fun ⟨j, hj⟩ => ⟨j, mem_append_left _ hj⟩) id
    obtain ⟨hinst, hborn, hsame⟩ | ⟨hinst, hborn, hsame⟩ | ⟨l, hinst, hborn, hnone, hself⟩ |
      ⟨l, hinst, hborn, hself, hnote⟩ := hmove.serving_cases
    · rw [hborn]
      exact (hold (hinst ▸ hk)).imp id (Or.imp id fun ⟨j, hj⟩ => ⟨j, hserving hsame hj⟩)
    · rw [hborn, mem_append, mem_singleton]
      rcases Nat.lt_succ_iff_lt_or_eq.mp (hinst ▸ hk) with hlt | heq
      · exact (hold hlt).imp id (Or.imp .inl fun ⟨j, hj⟩ => ⟨j, hserving hsame hj⟩)
      · exact .inr (.inl (.inr heq))
    · rcases hold (hinst ▸ hk) with htorn | hmem | ⟨j, hj⟩
      · exact .inl htorn
      · rw [hborn] at hmem
        rcases mem_cons.mp hmem with rfl | hmem
        · exact .inr (.inr ⟨i, hself⟩)
        · exact .inr (.inl hmem)
      · refine .inr (.inr ⟨j, ?_⟩)
        rcases eq_or_ne j i with rfl | hji
        · rw [hnone] at hj
          cases hj
        · rw [hother j hji]
          exact hj
    · rw [hborn]
      rcases hold (hinst ▸ hk) with htorn | hmem | ⟨j, hj⟩
      · exact .inl htorn
      · exact .inr (.inl hmem)
      · rcases eq_or_ne j i with rfl | hji
        · rw [hself] at hj
          cases hj
          exact .inl ⟨j, mem_append_right _ (mem_map_of_mem hnote)⟩
        · refine .inr (.inr ⟨j, ?_⟩)
          rw [hother j hji]
          exact hj
  · rcases mem_append.mp hk with hold | hnew
    · exact Nat.lt_of_lt_of_le (ht.begun j k hold) hmono
    · obtain ⟨n, hn, heq⟩ := mem_map.mp hnew
      cases heq
      obtain ⟨rfl, hnext⟩ := hmove.started hn
      omega
  · rcases hrunning hrun with hold | hpos
    · exact Nat.lt_of_lt_of_le (ht.counted hold) hmono
    · exact hpos

theorem Called.move (hc : Called h s) (ht : Told h s)
    (hmove : Move s.shared (s.pc i) s'.shared notes (s'.pc i))
    (hother : ∀ j, j ≠ i → s'.pc j = s.pc j) : Called (h ++ notes.map (Prod.mk i)) s' := by
  obtain ⟨hmono, -⟩ := hmove.running
  obtain ⟨hcalls, hself, hreturns⟩ | ⟨hrunning, hcalls, hself, hnotes⟩ := hmove.call_cases
  · -- a call of a thread was one before
    have hbefore : ∀ {j c k}, (s'.pc j).call = some (c, k) → (s.pc j).call = some (c, k) := by
      intro j c k hj
      rcases eq_or_ne j i with rfl | hji
      · rcases hself with hsame | hnone
        · rw [← hsame]
          exact hj
        · rw [hnone] at hj
          cases hj
      · rw [← hother j hji]
        exact hj
    refine ⟨fun j c k hj => ?_, fun j j' c k l hj hj' => ?_, fun j c k hj hret => ?_,
      fun c hret => ?_⟩
    · obtain ⟨hlt, hk⟩ := hc.found j c k (hbefore hj)
      rw [hcalls]
      exact ⟨hlt, Nat.lt_of_lt_of_le hk hmono⟩
    · exact hc.own j j' c k l (hbefore hj) (hbefore hj')
    · rcases returned_append.mp hret with hold | ⟨l, ret, hmem⟩
      · exact hc.pending j c k (hbefore hj) hold
      · obtain ⟨hcall, hnone⟩ := hreturns c l ret hmem
        cases hc.own j i c k l (hbefore hj) hcall
        rw [hnone] at hj
        cases hj
    · rw [hcalls]
      rcases returned_append.mp hret with hold | ⟨l, ret, hmem⟩
      · exact hc.returned c hold
      · exact (hc.found i c l (hreturns c l ret hmem).1).1
  · subst hnotes
    rw [map_nil, append_nil]
    -- the new call is none of those before
    have hbefore : ∀ {j c k}, (s'.pc j).call = some (c, k) →
        (j = i ∧ c = s.shared.calls ∧ k = s.shared.instances - 1) ∨
          j ≠ i ∧ (s.pc j).call = some (c, k) := by
      intro j c k hj
      rcases eq_or_ne j i with rfl | hji
      · cases hself.symm.trans hj
        exact .inl ⟨rfl, rfl, rfl⟩
      · exact .inr ⟨hji, hother j hji ▸ hj⟩
    refine ⟨fun j c k hj => ?_, fun j j' c k l hj hj' => ?_, fun j c k hj hret => ?_,
      fun c hret => ?_⟩
    · have hpos := ht.counted hrunning
      rcases hbefore hj with ⟨-, rfl, rfl⟩ | ⟨-, hj⟩
      · omega
      · obtain ⟨hlt, hk⟩ := hc.found j c k hj
        omega
    · rcases hbefore hj with ⟨rfl, rfl, -⟩ | ⟨-, hold⟩
      · rcases hbefore hj' with ⟨rfl, -⟩ | ⟨-, hold'⟩
        · rfl
        · exact absurd (hc.found _ _ _ hold').1 (Nat.lt_irrefl _)
      · rcases hbefore hj' with ⟨-, rfl, -⟩ | ⟨-, hold'⟩
        · exact absurd (hc.found _ _ _ hold).1 (Nat.lt_irrefl _)
        · exact hc.own j j' c k l hold hold'
    · rcases hbefore hj with ⟨-, rfl, -⟩ | ⟨-, hold⟩
      · exact absurd (hc.returned _ hret) (Nat.lt_irrefl _)
      · exact hc.pending j c k hold hret
    · rw [hcalls]
      exact Nat.lt_succ_of_lt (hc.returned c hret)

theorem Timely.move (hq : Timely h s) (hs : Structured s) (ht : Told h s) (hc : Called h s)
    (hmove : Move s.shared (s.pc i) s'.shared notes (s'.pc i))
    (hother : ∀ j, j ≠ i → s'.pc j = s.pc j)
    (hlate : ∀ hooks hooks', s.pc i = .drainingStopped hooks → s'.pc i = .creating hooks' →
      ∀ j k, s.pc j ≠ .posting k)
    (hearly : ∀ c k ret, .returns c k ret ∈ notes → c ∈ s.shared.stopRequest →
      ∀ j, ¬(s.pc j).Drained) : Timely (h ++ notes.map (Prod.mk i)) s' := by
  -- a start that has emptied the requests: one from before, or the one that finds none
  have hdrained : (∃ j, (s'.pc j).Drained) → ((s'.pc i).Drained → (s.pc i).Drained ∨
      s'.shared.stopRequest = []) → (∃ j, (s.pc j).Drained) ∨ s'.shared.stopRequest = [] := by
    rintro ⟨j, hj⟩ hself
    rcases eq_or_ne j i with rfl | hji
    · exact (hself hj).imp (fun hd => ⟨j, hd⟩) id
    · exact .inl ⟨j, hother j hji ▸ hj⟩
  refine ⟨fun hbusy => ?_, fun hwindow c hmem hret => ?_, fun hrun c hmem k hk hover => ?_⟩
  · obtain ⟨hsub, hrunning, hcreating, hposting⟩ | ⟨hempty, hsame, hooks, hpc, hpc'⟩ |
      ⟨hfree, hrunning, l, hpc'⟩ | ⟨hrunning, ⟨l, hpc⟩, hpc'⟩ := hmove.stopped_cases
    · have hbefore : s.shared.running = true ∨ ∃ j hooks, s.pc j = .creating hooks := by
        rcases hbusy with hrun | ⟨j, hooks, hj⟩
        · exact (hrunning hrun).imp id fun ⟨hooks, hi⟩ => ⟨i, hooks, hi⟩
        · rcases eq_or_ne j i with rfl | hji
          · exact .inr ⟨j, hooks, hcreating hooks hj⟩
          · exact .inr ⟨j, hooks, hother j hji ▸ hj⟩
      obtain ⟨hempty, hnone⟩ := hq.quiet hbefore
      refine ⟨subset_nil.mp (hempty ▸ hsub), fun j k hj => ?_⟩
      rcases eq_or_ne j i with rfl | hji
      · exact hnone j k (hposting k hj)
      · exact hnone j k (hother j hji ▸ hj)
    · refine ⟨hsame ▸ hempty, fun j k hj => ?_⟩
      rcases eq_or_ne j i with rfl | hji
      · rw [hpc'] at hj
        cases hj
      · exact hlate hooks hooks hpc hpc' j k (hother j hji ▸ hj)
    · -- who clears `g_running` has found the lock free, so nobody creates a task
      rcases hbusy with hrun | ⟨j, hooks, hj⟩
      · rw [hrunning] at hrun
        cases hrun
      · rcases eq_or_ne j i with rfl | hji
        · rw [hpc'] at hj
          cases hj
        · rw [hother j hji] at hj
          have hlocked := hs.locking.locked j (hj ▸ trivial)
          rw [hfree] at hlocked
          cases hlocked
    · have hbefore : s.shared.running = true ∨ ∃ j hooks, s.pc j = .creating hooks := by
        refine hbusy.imp (fun hrun => hrunning ▸ hrun) fun ⟨j, hooks, hj⟩ => ⟨j, hooks, ?_⟩
        rcases eq_or_ne j i with rfl | hji
        · rw [hpc'] at hj
          cases hj
        · exact hother j hji ▸ hj
      exact absurd hpc ((hq.quiet hbefore).2 i l)
  · obtain ⟨hsub, hself⟩ | ⟨d, k, hcall, hrequests, hnot, hnotes, -⟩ := hmove.requests_cases
    · rcases hdrained hwindow hself with ⟨j, hj⟩ | hnil
      · rcases returned_append.mp hret with hold | ⟨k, ret, hnote⟩
        · exact hq.unanswered ⟨j, hj⟩ c (hsub hmem) hold
        · exact hearly c k ret hnote (hsub hmem) j hj
      · rw [hnil] at hmem
        cases hmem
    · rw [hnotes, map_nil, append_nil] at hret
      rw [hrequests] at hmem
      rcases mem_append.mp hmem with hold | hnew
      · rcases hdrained hwindow (fun hd => absurd hd hnot) with hd | hnil
        · exact hq.unanswered hd c hold hret
        · rw [hrequests] at hnil
          exact absurd hnil (by simp)
      · cases mem_singleton.mp hnew
        exact hc.pending i c k hcall hret
  · obtain ⟨hrunning, hinst, hnostart⟩ | ⟨hd, hrequests, hinst, hnotes⟩ := hmove.run_cases hrun
    · have hbefore : Overdue h c k := by
        rcases hmove.notes_cases with rfl | ⟨n, rfl⟩
        · rw [map_nil, append_nil] at hover
          exact hover
        · rcases overdue_concat hover with hold | ⟨rfl, -⟩
          · exact hold
          · exact absurd mem_cons_self (hnostart k)
      rw [hinst] at hk
      obtain ⟨hsub, -⟩ | ⟨d, l, hcall, hrequests, -⟩ := hmove.requests_cases
      · exact hq.fresh hrunning c (hsub hmem) k hk hbefore
      · rw [hrequests] at hmem
        rcases mem_append.mp hmem with hold | hnew
        · exact hq.fresh hrunning c hold k hk hbefore
        · cases mem_singleton.mp hnew
          exact hc.pending i c l hcall hbefore.returned
    · rw [hinst] at hk
      cases Nat.succ.inj hk
      rw [hnotes] at hover
      rcases overdue_concat hover with hold | ⟨-, hret⟩
      · obtain ⟨j, hj⟩ := hold.started
        exact absurd (ht.begun j _ hj) (Nat.lt_irrefl _)
      · exact hq.unanswered ⟨i, hd⟩ c (hrequests ▸ hmem) hret

end Steps

/-! ## Whole runs -/

structure Kept (h : List (Nat × Note)) (s : Threads.State Shared Point) : Prop where
  structured : Structured s
  told : Told h s
  called : Called h s
  timely : Timely h s

theorem kept_boot : Kept [] boot where
  structured := structured_boot
  told := {
    torn := fun k hk => absurd hk (Nat.not_lt_zero k)
    begun := nofun
    counted := nofun }
  called := {
    found := nofun
    own := nofun
    pending := nofun
    returned := fun _ ⟨_, _, _, hmem⟩ => nomatch hmem }
  timely := {
    quiet := fun _ => ⟨rfl, nofun⟩
    unanswered := fun _ _ hmem => nomatch hmem
    fresh := nofun }

variable {s : Threads.State Shared Point} {h : List (Nat × Note)}

/-- **One section of a punctual run.** -/
theorem Kept.step (hk : Kept h s) (i : Nat) (input : Input) (hpunctual : Punctual s (i, input)) :
    Kept (h ++ threads.notes s i input) (threads.step s i input) := by
  have hmove : Move s.shared (s.pc i) (threads.step s i input).shared
      (body s.shared (s.pc i) input).2.1 ((threads.step s i input).pc i) := by
    rw [threads.step_pc_self]
    exact move_body (s.pc i) input
  have hother : ∀ j, j ≠ i → (threads.step s i input).pc j = s.pc j :=
    fun j hji => Threads.step_pc_of_ne hji input
  refine ⟨hk.structured.step i input, hk.told.move hmove hother,
    hk.called.move hk.told hmove hother,
    hk.timely.move hk.structured hk.told hk.called hmove hother ?_ ?_⟩
  · intro hooks hooks' hpc hpc' j k hj
    rw [threads.step_pc_self, hpc] at hpc'
    cases input with
    | go ret pick =>
      have hempty : s.shared.stopped = [] := by
        by_contra hne
        obtain ⟨l, rest, hcons⟩ := exists_cons_of_ne_nil hne
        have hstays : (body s.shared (.drainingStopped hooks) (.go ret pick)).2.2 =
            .drainingStopped hooks := by
          simp only [body, startBody, hcons]
        exact absurd (hstays.symm.trans hpc') nofun
      exact hpunctual.1 ⟨⟨hooks, hpc⟩, ⟨ret, pick, rfl⟩, hempty, j, k, hj⟩
    | start | stop | run | fail => cases hpc'
  · intro c k ret hnote hmem j hj
    exact hpunctual.2 ⟨⟨c, k, ret, mem_map_of_mem hnote, hmem⟩, j, hj⟩

theorem kept_run {events : List (Nat × Input)}
    (hall : threads.machine.Throughout Punctual boot events) :
    Kept (threads.history boot events) (threads.machine.run boot events) :=
  threads.history_invariant_of (fun _ _ i input hk hp => hk.step i input hp) kept_boot events hall

/-- **One instance at a time, in every run.** -/
theorem one_instance (events : List (Nat × Input)) :
    OneServing (threads.machine.run boot events) := by
  have h : Structured (threads.machine.run boot events) :=
    threads.run_invariant (fun s i input hs => hs.step i input) structured_boot events
  intro i j k l hi hj
  exact h.one i j k l (Point.alive_of_serving hi) (Point.alive_of_serving hj)

theorem Kept.torn_of_returns (hk : Kept h s)
    {i c k : Nat} {input : Input} (hnote : .returns c k 0 ∈ (body s.shared (s.pc i) input).2.1) :
    ∃ j, (j, .tornDown k) ∈ h := by
  have hfound : ∃ c', (s.pc i).call = some (c', k) ∧ s.shared.stopped ≠ [] := by
    revert hnote
    generalize hpc : s.pc i = pc
    have hmove := move_body (s := s.shared) pc input
    revert hmove
    generalize (body s.shared pc input).1 = s'
    generalize (body s.shared pc input).2.1 = notes
    generalize (body s.shared pc input).2.2 = pc'
    intro hmove hnote
    cases hmove with
    | returns hne =>
      cases mem_singleton.mp hnote
      exact ⟨_, rfl, hne⟩
    | gives hret =>
      cases mem_singleton.mp hnote
      exact absurd rfl hret
    | create | take | tornDown => cases mem_singleton.mp hnote
    | _ => cases hnote
  obtain ⟨c', hcall, hne⟩ := hfound
  have hidle : s.shared.running ≠ true := fun hrun => hne (hk.timely.quiet (.inl hrun)).1
  rcases hk.told.torn k (hk.called.found i c' k hcall).2 with htorn | hborn | ⟨j, hj⟩
  · exact htorn
  · exact absurd (hk.structured.born k hborn).1 hidle
  · exact absurd (hk.structured.alive j k (Point.alive_of_serving hj)).1 hidle

/-- An instance takes a request that was posted since it was started, or by a stop that had not
returned by then. -/
theorem Kept.not_overdue_of_takes (hk : Kept h s) {i c k : Nat} {input : Input}
    (hnote : .takes k c ∈ (body s.shared (s.pc i) input).2.1) : ¬Overdue h c k := by
  have hfound : (s.pc i).alive = some k ∧ c ∈ s.shared.stopRequest := by
    revert hnote
    generalize hpc : s.pc i = pc
    have hmove := move_body (s := s.shared) pc input
    revert hmove
    generalize (body s.shared pc input).1 = s'
    generalize (body s.shared pc input).2.1 = notes
    generalize (body s.shared pc input).2.2 = pc'
    intro hmove hnote
    cases hmove with
    | take hmem =>
      cases mem_singleton.mp hnote
      exact ⟨rfl, hmem⟩
    | returns | gives | create | tornDown => cases mem_singleton.mp hnote
    | _ => cases hnote
  obtain ⟨hrun, hlast, -⟩ := hk.structured.alive i k hfound.1
  exact hk.timely.fresh hrun c hfound.2 k hlast

theorem length_notes (s : Shared) (pc : Point) (input : Input) :
    (body s pc input).2.1.length ≤ 1 := by
  rcases (move_body (s := s) pc input).notes_cases with hnil | ⟨n, hone⟩
  · rw [hnil]
    exact Nat.zero_le 1
  · rw [hone]
    exact Nat.le_refl 1

/-- **The lifecycle of the daemon, in a punctual run.** -/
theorem lifecycle_of_punctual {events : List (Nat × Input)}
    (hall : threads.machine.Throughout Punctual boot events) :
    OneServing (threads.machine.run boot events) ∧ StopsWait (threads.history boot events) ∧
      StopsMeant (threads.history boot events) := by
  refine ⟨one_instance events, fun pre i c k post hsplit => ?_, fun pre i k c post hsplit => ?_⟩
  all_goals
    obtain ⟨before, input, after, rfl, rfl, hnote⟩ :=
      threads.exists_section_of_history length_notes hsplit
    have hkept := kept_run ((Machine.throughout_append _).mp hall).1
  · exact hkept.torn_of_returns hnote
  · exact hkept.not_overdue_of_takes hnote

/-! ## Runs of a few threads -/

section Few

variable {n : Nat} {s : Threads.State Shared Point}

def Point.posts : Point → Bool
  | .posting _ => true
  | _ => false

instance : DecidablePred Point.Drained := fun pc => by
  cases pc <;> unfold Point.Drained <;> infer_instance

/-- Punctual, by the points of the first threads. -/
def PunctualAmong (n : Nat) (s : Threads.State Shared Point) (e : Nat × Input) : Prop :=
  ∀ j < n, ((s.pc e.1).Drained → (s.pc j).posts = false) ∧
    ((s.pc e.1).call ≠ none → ¬(s.pc j).Drained)

instance (n : Nat) (s : Threads.State Shared Point) (e : Nat × Input) :
    Decidable (PunctualAmong n s e) :=
  inferInstanceAs (Decidable (∀ j < n, (_ → _) ∧ (_ → ¬_)))

theorem punctual_of_among (hidle : ∀ j, n ≤ j → s.pc j = .idle) {e : Nat × Input}
    (h : PunctualAmong n s e) : Punctual s e := by
  constructor
  · rintro ⟨⟨hooks, hpc⟩, -, -, j, k, hj⟩
    by_cases hjn : j < n
    · have hposts := (h j hjn).1 (hpc ▸ trivial)
      rw [hj] at hposts
      cases hposts
    · rw [hidle j (Nat.not_lt.mp hjn)] at hj
      cases hj
  · rintro ⟨⟨c, k, ret, hnote, -⟩, j, hj⟩
    have hcall : (s.pc e.1).call ≠ none := by
      obtain ⟨-, -, hreturns⟩ | ⟨-, -, -, hnil⟩ :=
        (move_body (s := s.shared) (s.pc e.1) e.2).call_cases
      · rw [(hreturns c k ret (Threads.mem_notes.mp hnote).2).1]
        exact nofun
      · have hmem := (Threads.mem_notes.mp hnote).2
        rw [show (threads.body s.shared (s.pc e.1) e.2).2.1 = [] from hnil] at hmem
        cases hmem
    by_cases hjn : j < n
    · exact (h j hjn).2 hcall hj
    · rw [hidle j (Nat.not_lt.mp hjn)] at hj
      exact hj

theorem throughout_of_among (hidle : ∀ j, n ≤ j → s.pc j = .idle) {events : List (Nat × Input)}
    (hfew : ∀ e ∈ events, e.1 < n) (hall : threads.machine.Throughout (PunctualAmong n) s events) :
    threads.machine.Throughout Punctual s events := by
  induction events generalizing s with
  | nil => trivial
  | cons e events ih =>
    refine ⟨punctual_of_among hidle hall.1, ih (fun j hj => ?_)
      (fun e' he' => hfew e' (mem_cons_of_mem _ he')) hall.2⟩
    have hlt := hfew e mem_cons_self
    exact (Threads.step_pc_of_ne (m := threads) (by omega) e.2).trans (hidle j hj)

end Few

/-- An instance is started, and stopped by the third thread. -/
def punctualRun : List (Nat × Input) :=
  (0, .start (some ⟨true, true, true⟩)) :: List.replicate 5 (0, .go 0 0) ++
    [(1, .run), (1, .go 0 0), (1, .go 0 0), (2, .stop), (2, .go 0 0), (2, .go 0 0)] ++
    List.replicate 5 (1, .go 0 0) ++ [(2, .go 0 0)]

theorem lifecycle_of_punctual_sample :
    OneServing (threads.machine.run boot punctualRun) ∧
      StopsWait (threads.history boot punctualRun) ∧
      StopsMeant (threads.history boot punctualRun) :=
  lifecycle_of_punctual (throughout_of_among (n := 3) (fun _ _ => rfl) (by decide) (by decide))

example : (2, Note.returns 0 0 0) ∈ threads.history boot punctualRun := by decide

/-- The services of the first instance fail, and it is slow to post; the stop of the second returns
at once. -/
def lateRun : List (Nat × Input) :=
  let start : List (Nat × Input) :=
    (0, .start (some ⟨true, true, true⟩)) :: List.replicate 5 (0, .go 0 0)
  start ++ [(1, .run), (1, .go (-1) 0), (1, .go 0 0)] ++ start ++
    [(1, .go 0 0), (2, .stop), (2, .go 0 0), (2, .go 0 0), (2, .go 0 0)]

/-- The second instance has not been torn down. -/
theorem not_lifecycle :
    ¬ ∀ events, OneServing (threads.machine.run boot events) ∧
      StopsWait (threads.history boot events) ∧ StopsMeant (threads.history boot events) := by
  intro h
  have hhistory : threads.history boot lateRun =
      [(0, .started 0), (1, .tornDown 0), (0, .started 1)] ++ (2, .returns 0 1 0) :: [] := by
    decide
  obtain ⟨j, hj⟩ := (h lateRun).2.1 _ 2 0 1 [] hhistory
  simp at hj

end Brickwright.Btsensor.Lifecycle
