import Brickwright.Bits.Words
import Brickwright.Legoport.Handoff.Basic

/-!
# The life of a callback

That no old callback runs behind a return rests on the count of calls in flight alone, in every run
(`handoff_lifetime`). That a stale result is dropped rests on the generation, which is 32 bits wide.
That a caller is woken rests on there being one: the end of a call posts the semaphore once.
-/

namespace Brickwright.Legoport

open List

/-- The registration that a caller waits behind. -/
def HandoffPoint.number : HandoffPoint → Option Nat
  | .caller (.waiting _ number) | .caller (.blocked _ number _) | .caller (.woken _ number) =>
    some number
  | _ => none

/-! ## The sections of a caller -/

section Callers

variable {s : HandoffState} {stage : CallerStage} {input : HandoffInput} {release : Bool}
  {number : Nat}

theorem HandoffState.drain_cases (s : HandoffState) (release : Bool) (number : Nat) :
    (s.handoffInflight ≠ 0 ∧ s.drain release number =
      ({ s with handoffWaiters := s.handoffWaiters + 1, calls := s.calls + 1 }, [],
        .waiting release number)) ∨
    (s.handoffInflight = 0 ∧ s.drain release number =
      ({ s with dcm := if release then s.dcm.released else s.dcm }, [.returns number],
        .ready)) := by
  unfold drain
  split
  · next h => exact .inl ⟨h, rfl⟩
  · next h => exact .inr ⟨not_not.mp h, rfl⟩

@[simp] theorem HandoffState.drain_inflight :
    (s.drain release number).1.handoffInflight = s.handoffInflight := by
  unfold drain
  split <;> rfl

@[simp] theorem HandoffState.drain_generation :
    (s.drain release number).1.handoffGeneration = s.handoffGeneration := by
  unfold drain
  split <;> rfl

@[simp] theorem HandoffState.drain_registered :
    (s.drain release number).1.registered = s.registered := by
  unfold drain
  split <;> rfl

@[simp] theorem HandoffState.drain_sem :
    (s.drain release number).1.handoffQuiescent = s.handoffQuiescent := by
  unfold drain
  split <;> rfl

-- the cases of the code, derived once for all the lemmas that follow
attribute [elab_as_elim] callerBody.fun_cases_unfolding workerBody.fun_cases_unfolding

theorem caller_inflight : (callerBody s stage input).1.handoffInflight = s.handoffInflight := by
  fun_cases callerBody s stage input <;> simp [HandoffState.register, HandoffState.wake]

theorem caller_registered :
    ((callerBody s stage input).1.registered = s.registered ∧
      (callerBody s stage input).1.handoffGeneration = s.handoffGeneration) ∨
    ((callerBody s stage input).1.registered = s.registered + 1 ∧
      (callerBody s stage input).1.handoffGeneration = s.handoffGeneration + 1) := by
  fun_cases callerBody s stage input <;> simp [HandoffState.register, HandoffState.wake]

theorem return_of_note (hnumber : ∀ n,
    (HandoffPoint.caller stage).number = some n → n ≤ s.registered)
    (h : .returns number ∈ (callerBody s stage input).2.1) :
    s.handoffInflight = 0 ∧ number ≤ (callerBody s stage input).1.registered ∧
      (callerBody s stage input).2.1 = [.returns number] := by
  have hdrain : ∀ {s : HandoffState} {release m}, m ≤ s.registered →
      .returns number ∈ (s.drain release m).2.1 →
      s.handoffInflight = 0 ∧ number ≤ (s.drain release m).1.registered ∧
        (s.drain release m).2.1 = [.returns number] := by
    intro s release m hle hmem
    rcases s.drain_cases release m with ⟨-, hdrain⟩ | ⟨hzero, hdrain⟩
    · rw [hdrain] at hmem
      cases hmem
    · rw [hdrain] at hmem ⊢
      cases mem_singleton.mp hmem
      exact ⟨hzero, hle, rfl⟩
  revert h
  fun_cases callerBody s stage input with
  | case1 | case2 => exact hdrain (Nat.le_refl _)
  | case6 release m => exact hdrain (s := s.wake) (hnumber m rfl)
  | _ => exact nofun

theorem caller_tickets {held : Nat → Option Nat} {i : Nat} (hs : s.handoffQuiescent.Tickets held)
    (hi : held i = (HandoffPoint.caller stage).ticket) :
    (callerBody s stage input).1.handoffQuiescent.Tickets
      (Function.update held i (HandoffPoint.caller (callerBody s stage input).2.2).ticket) := by
  have hsame : ∀ {p : HandoffPoint}, p.ticket = (HandoffPoint.caller stage).ticket →
      s.handoffQuiescent.Tickets (Function.update held i p.ticket) := by
    intro p hp
    rwa [hp, ← hi, Function.update_eq_self]
  have hdrain : ∀ (s' : HandoffState) (release number),
      (HandoffPoint.caller (s'.drain release number).2.2).ticket = none := by
    intro s' release number
    rcases s'.drain_cases release number with ⟨-, h⟩ | ⟨-, h⟩ <;> rw [h] <;> rfl
  fun_cases callerBody s stage input with
  | case1 | case2 | case6 =>
    rw [HandoffState.drain_sem]
    refine hsame ?_
    rw [hdrain]
    rfl
  | case3 release number sem ticket hwait =>
    have hnext := hs.wait (i := i) hi
    rw [hwait] at hnext
    cases ticket <;> exact hnext
  | case5 release number ticket hout =>
    have hdrop := hs.drop (i := i) hi
    rwa [Semaphore.leave_of_not_mem hout] at hdrop
  | _ => exact hsame rfl

theorem caller_mem {t : Nat} (ht : t < s.handoffQuiescent.next)
    (h : t ∈ (callerBody s stage input).1.handoffQuiescent.waiting) :
    t ∈ s.handoffQuiescent.waiting := by
  revert h
  fun_cases callerBody s stage input with
  | case1 | case2 | case6 =>
    rw [HandoffState.drain_sem]
    exact id
  | case3 release number sem ticket hwait =>
    intro h
    refine Semaphore.mem_of_mem_wait ht ?_
    rwa [hwait]
  | _ => exact id

theorem caller_number {n : Nat} (hnumber : ∀ n, (HandoffPoint.caller stage).number = some n →
    n ≤ s.registered) (h : (HandoffPoint.caller (callerBody s stage input).2.2).number = some n) :
    n ≤ (callerBody s stage input).1.registered := by
  have hdrain : ∀ {s : HandoffState} {release m}, m ≤ s.registered →
      (HandoffPoint.caller (s.drain release m).2.2).number = some n →
      n ≤ (s.drain release m).1.registered := by
    intro s release m hle
    rcases s.drain_cases release m with ⟨-, h⟩ | ⟨-, h⟩ <;> rw [h]
    · rintro ⟨⟩
      exact hle
    · exact nofun
  revert h
  fun_cases callerBody s stage input with
  | case1 | case2 => exact hdrain (Nat.le_refl _)
  | case3 release m sem ticket hwait =>
    cases ticket <;> exact hnumber n
  | case6 release m => exact hdrain (s := s.wake) (hnumber m rfl)
  | _ => exact hnumber n

/-- **What a caller does to the number of waiters**: nothing, raise it when it starts to wait, lower
it when it returns. -/
theorem caller_count (hpos : (HandoffPoint.caller stage).number.isSome → 0 < s.calls) :
    let next := callerBody s stage input
    ((HandoffPoint.caller next.2.2).number.isSome = (HandoffPoint.caller stage).number.isSome ∧
      next.1.calls = s.calls ∧ next.1.handoffWaiters = s.handoffWaiters) ∨
    ((HandoffPoint.caller stage).number = none ∧
      (HandoffPoint.caller next.2.2).number.isSome ∧
      next.1.calls = s.calls + 1 ∧ next.1.handoffWaiters = s.handoffWaiters + 1) ∨
    ((HandoffPoint.caller stage).number.isSome ∧
      (HandoffPoint.caller next.2.2).number = none ∧
      next.1.calls + 1 = s.calls ∧ next.1.handoffWaiters = s.handoffWaiters - 1) := by
  fun_cases callerBody s stage input with
  | case1 callback =>
    rcases (s.register callback).drain_cases false (s.registered + 1) with ⟨-, h⟩ | ⟨-, h⟩ <;>
      rw [h]
    · exact .inr (.inl ⟨rfl, rfl, rfl, rfl⟩)
    · exact .inl ⟨rfl, rfl, rfl⟩
  | case2 =>
    rcases (s.register none).drain_cases true (s.registered + 1) with ⟨-, h⟩ | ⟨-, h⟩ <;> rw [h]
    · exact .inr (.inl ⟨rfl, rfl, rfl, rfl⟩)
    · exact .inl ⟨rfl, rfl, rfl⟩
  | case3 release m sem ticket hwait =>
    cases ticket <;> exact .inl ⟨rfl, rfl, rfl⟩
  | case6 release m =>
    have hcalls := hpos rfl
    rcases s.wake.drain_cases release m with ⟨-, h⟩ | ⟨-, h⟩ <;> rw [h]
    · refine .inl ⟨rfl, Nat.sub_add_cancel hcalls, ?_⟩
      exact UInt32.sub_add_cancel _ _
    · exact .inr (.inr ⟨rfl, rfl, Nat.sub_add_cancel hcalls, rfl⟩)
  | _ => exact .inl ⟨rfl, rfl, rfl⟩

/-- A caller takes no token but one that it goes on with. -/
theorem caller_tokens :
    (callerBody s stage input).1.handoffQuiescent.tokens = s.handoffQuiescent.tokens ∨
      ∃ release number, stage = .waiting release number ∧
        (callerBody s stage input).2.2 = .woken release number := by
  fun_cases callerBody s stage input with
  | case1 | case2 | case6 =>
    rw [HandoffState.drain_sem]
    exact .inl rfl
  | case3 release number sem ticket hwait =>
    rcases s.handoffQuiescent.wait_cases with ⟨-, hnone, -⟩ | ⟨hzero, -, hnext, -⟩
    · rw [hwait] at hnone
      cases hnone
      exact .inr ⟨release, number, rfl, rfl⟩
    · rw [hwait] at hnext
      exact .inl (hnext.trans hzero.symm)
  | _ => exact .inl rfl

/-- A caller starts to wait only where a call is in flight. -/
theorem caller_pending (h : (HandoffPoint.caller (callerBody s stage input).2.2).pending
      (callerBody s stage input).1.handoffQuiescent = true) :
    s.handoffInflight ≠ 0 ∨ (HandoffPoint.caller stage).pending s.handoffQuiescent = true := by
  have hdrain : ∀ {s' : HandoffState} {release number sem},
      (HandoffPoint.caller (s'.drain release number).2.2).pending sem = true →
      s'.handoffInflight ≠ 0 := by
    intro s' release number sem hp
    rcases s'.drain_cases release number with ⟨hne, -⟩ | ⟨-, hd⟩
    · exact hne
    · rw [hd] at hp
      cases hp
  revert h
  fun_cases callerBody s stage input with
  | case1 callback => exact fun h => .inl (@hdrain (s.register callback) _ _ _ h)
  | case2 => exact fun h => .inl (@hdrain (s.register none) _ _ _ h)
  | case6 release number => exact fun h => .inl (@hdrain s.wake _ _ _ h)
  | case3 => exact fun _ => .inr rfl
  | case5 => exact nofun
  | case4 | case7 => exact .inr

end Callers

/-! ## The sections of the worker -/

section Worker

variable {s : HandoffState} {stage : WorkerStage} {input : HandoffInput}

/-- **What the worker does to the calls in flight**: nothing, start one, or end one. -/
theorem worker_cases :
    ((workerBody s stage input).1.handoffInflight = s.handoffInflight ∧
      (workerBody s stage input).1.handoffQuiescent = s.handoffQuiescent ∧
      (workerBody s stage input).2.1 = [] ∧
      ((workerBody s stage input).2.2 = stage ∨
        (HandoffPoint.worker stage).running = none ∧
          (HandoffPoint.worker (workerBody s stage input).2.2).running = none)) ∨
    (∃ callback, stage = .idle ∧ s.handoffCb = some callback ∧
      workerBody s stage input =
        ({ s with handoffInflight := s.handoffInflight + 1 }, [.starts callback s.registered],
          .calling callback s.handoffGeneration s.registered)) ∨
    ∃ callback generation number ret now pick, stage = .calling callback generation number ∧
      input = .finish ret now pick ∧
      workerBody s stage input = (s.finish generation ret now pick, [], .idle) := by
  fun_cases workerBody s stage input with
  | case2 =>
    unfold HandoffState.invoke
    split
    · exact .inl ⟨rfl, rfl, rfl, .inr ⟨rfl, rfl⟩⟩
    · next callback h => exact .inr (.inl ⟨callback, rfl, h, rfl⟩)
  | case3 callback generation number ret now pick =>
    exact .inr (.inr ⟨callback, generation, number, ret, now, pick, rfl, rfl, rfl⟩)
  | case4 => exact .inl ⟨rfl, rfl, rfl, .inr ⟨rfl, rfl⟩⟩
  | _ => exact .inl ⟨rfl, rfl, rfl, .inl rfl⟩

/-- The end of a call posts the semaphore when it was the last one and somebody waits. -/
theorem HandoffState.finish_cases (s : HandoffState) (generation : UInt32) (ret : Int)
    (now pick : Nat) :
    (s.handoffInflight - 1 = 0 ∧ 0 < s.handoffWaiters ∧
      s.finish generation ret now pick =
        { s with
          dcm := s.apply generation ret now
          handoffInflight := s.handoffInflight - 1
          handoffQuiescent := s.handoffQuiescent.post pick }) ∨
    (¬(s.handoffInflight - 1 = 0 ∧ 0 < s.handoffWaiters) ∧
      s.finish generation ret now pick =
        { s with
          dcm := s.apply generation ret now
          handoffInflight := s.handoffInflight - 1 }) := by
  unfold finish
  dsimp only
  split
  · next h => exact .inl ⟨h.1, h.2, rfl⟩
  · next h => exact .inr ⟨h, rfl⟩

theorem worker_same :
    (workerBody s stage input).1.registered = s.registered ∧
      (workerBody s stage input).1.handoffGeneration = s.handoffGeneration ∧
      (workerBody s stage input).1.calls = s.calls ∧
      (workerBody s stage input).1.handoffWaiters = s.handoffWaiters := by
  fun_cases workerBody s stage input with
  | case2 =>
    unfold HandoffState.invoke
    split <;> exact ⟨rfl, rfl, rfl, rfl⟩
  | case3 callback generation number ret now pick =>
    rcases s.finish_cases generation ret now pick with ⟨-, -, h⟩ | ⟨-, h⟩ <;> rw [h] <;>
      exact ⟨rfl, rfl, rfl, rfl⟩
  | _ => exact ⟨rfl, rfl, rfl, rfl⟩

theorem worker_tickets {held : Nat → Option Nat} (hs : s.handoffQuiescent.Tickets held) :
    (workerBody s stage input).1.handoffQuiescent.Tickets held := by
  rcases @worker_cases s stage input with ⟨-, h, -⟩ | ⟨callback, -, -, h⟩ |
    ⟨callback, generation, number, ret, now, pick, -, -, h⟩
  · exact h ▸ hs
  · rw [h]
    exact hs
  · rw [h]
    rcases s.finish_cases generation ret now pick with ⟨-, -, h⟩ | ⟨-, h⟩ <;> rw [h]
    · exact hs.post pick
    · exact hs

theorem worker_mem {t : Nat} (h : t ∈ (workerBody s stage input).1.handoffQuiescent.waiting) :
    t ∈ s.handoffQuiescent.waiting := by
  rcases @worker_cases s stage input with ⟨-, hsem, -⟩ | ⟨callback, -, -, hbody⟩ |
    ⟨callback, generation, number, ret, now, pick, -, -, hbody⟩
  · rwa [hsem] at h
  · rwa [hbody] at h
  · rw [hbody] at h
    rcases s.finish_cases generation ret now pick with ⟨-, -, hfinish⟩ | ⟨-, hfinish⟩ <;>
      rw [hfinish] at h
    · exact Semaphore.mem_of_mem_post h
    · exact h

end Worker

/-! ## What holds in every run -/

/-- The calls in flight, the generation and the waiters, counted. -/
structure HandoffSound (s : Handoffs) : Prop where
  worker : ∀ i, (∃ stage, s.pc i = .worker stage) ↔ i = 0
  tickets : s.shared.handoffQuiescent.Tickets fun i => (s.pc i).ticket
  inflight : s.shared.handoffInflight = if (s.pc 0).running.isSome then 1 else 0
  generation : s.shared.handoffGeneration = UInt32.ofNat s.shared.registered
  call : ∀ callback generation number, s.pc 0 = .worker (.calling callback generation number) →
    generation = UInt32.ofNat number ∧ number ≤ s.shared.registered
  number : ∀ i n, (s.pc i).number = some n → n ≤ s.shared.registered
  counted : ∃ l : List Nat, l.Nodup ∧ (∀ i, i ∈ l ↔ (s.pc i).number.isSome) ∧
    l.length = s.shared.calls
  waiters : s.shared.handoffWaiters = UInt32.ofNat s.shared.calls

section Steps

variable {s : Handoffs} {i : Nat} {input : HandoffInput}

variable {stage : WorkerStage}

theorem step_worker (h : s.pc i = .worker stage) :
    handoffThreads.step s i input =
        ⟨(workerBody s.shared stage input).1,
          Function.update s.pc i (.worker (workerBody s.shared stage input).2.2)⟩ ∧
      handoffThreads.notes s i input = (workerBody s.shared stage input).2.1.map (Prod.mk i) := by
  rw [Threads.step, Threads.notes, h]
  exact ⟨rfl, rfl⟩

theorem step_caller {stage : CallerStage} (h : s.pc i = .caller stage) :
    handoffThreads.step s i input =
        ⟨(callerBody s.shared stage input).1,
          Function.update s.pc i (.caller (callerBody s.shared stage input).2.2)⟩ ∧
      handoffThreads.notes s i input = (callerBody s.shared stage input).2.1.map (Prod.mk i) := by
  rw [Threads.step, Threads.notes, h]
  exact ⟨rfl, rfl⟩

theorem HandoffSound.calls_pos (h : HandoffSound s) (hi : (s.pc i).number.isSome) :
    0 < s.shared.calls := by
  obtain ⟨l, -, hmem, hlength⟩ := h.counted
  exact hlength ▸ length_pos_of_mem ((hmem i).mpr hi)

/-- A section of the worker: it neither registers a callback nor counts a call. -/
theorem HandoffSound.worker_section (h : HandoffSound s)
    (hpc : s.pc 0 = .worker stage) (input : HandoffInput) :
    HandoffSound (handoffThreads.step s 0 input) := by
  obtain ⟨hregistered, hgeneration, hcalls, hwaiters⟩ := @worker_same s.shared stage input
  obtain ⟨hstep, -⟩ := (@step_worker s 0 input) hpc
  have hself : (handoffThreads.step s 0 input).pc 0 =
      .worker (workerBody s.shared stage input).2.2 := by
    rw [Threads.step_pc_self, hpc]
    rfl
  have hnumber : ∀ j, ((handoffThreads.step s 0 input).pc j).number = (s.pc j).number := by
    intro j
    by_cases hj : j = 0
    · subst hj
      rw [hself, hpc]
      rfl
    · rw [Threads.step_pc_of_ne hj]
  have hticket : (fun j => ((handoffThreads.step s 0 input).pc j).ticket) =
      fun j => (s.pc j).ticket := by
    funext j
    by_cases hj : j = 0
    · subst hj
      rw [hself, hpc]
      rfl
    · rw [Threads.step_pc_of_ne hj]
  have hshared : (handoffThreads.step s 0 input).shared = (workerBody s.shared stage input).1 := by
    rw [hstep]
  obtain ⟨l, hnodup, hmem, hlength⟩ := h.counted
  refine ⟨fun j => ?_, ?_, ?_, ?_, ?_, fun j n hj => ?_, ⟨l, hnodup, fun j => ?_, ?_⟩, ?_⟩
  · by_cases hj : j = 0
    · subst hj
      exact iff_of_true ⟨_, hself⟩ rfl
    · rw [Threads.step_pc_of_ne hj]
      exact h.worker j
  · rw [hticket, hshared]
    exact worker_tickets h.tickets
  · rw [hself, hshared]
    have hinflight := h.inflight
    rw [hpc] at hinflight
    rcases @worker_cases s.shared stage input with ⟨hsame, -, -, hstage⟩ |
      ⟨callback, rfl, -, hbody⟩ | ⟨callback, generation, number, ret, now, pick, rfl, rfl, hbody⟩
    · rw [hsame, hinflight]
      rcases hstage with hstage | ⟨hbefore, hafter⟩
      · rw [hstage]
      · rw [hbefore, hafter]
    · rw [hbody]
      show s.shared.handoffInflight + 1 = 1
      rw [hinflight]
      rfl
    · rw [hbody]
      have hone : s.shared.handoffInflight = 1 := hinflight
      have hzero : s.shared.handoffInflight - 1 = 0 := by
        rw [hone]
        rfl
      rcases s.shared.finish_cases generation ret now pick with ⟨-, -, hf⟩ | ⟨-, hf⟩ <;> rw [hf] <;>
        exact hzero
  · rw [hshared, hgeneration, hregistered]
    exact h.generation
  · intro callback generation number hcall
    rw [hself] at hcall
    rw [hshared, hregistered]
    rcases @worker_cases s.shared stage input with ⟨-, -, -, hstage | ⟨-, hafter⟩⟩ |
      ⟨callback', rfl, -, hbody⟩ | ⟨callback', generation', number', ret, now, pick,
        rfl, rfl, hbody⟩
    · rw [hstage] at hcall
      exact h.call callback generation number (hpc.trans hcall)
    · rw [hcall] at hafter
      cases hafter
    · rw [hbody] at hcall
      cases hcall
      exact ⟨h.generation, Nat.le_refl _⟩
    · cases hcall
  · rw [hnumber] at hj
    rw [hshared, hregistered]
    exact h.number j n hj
  · rw [hnumber]
    exact hmem j
  · rw [hshared, hcalls]
    exact hlength
  · rw [hshared, hcalls, hwaiters]
    exact h.waiters

/-- A section of a caller: what the worker has in hand stays below what is registered. -/
theorem HandoffSound.caller_section (h : HandoffSound s) {stage : CallerStage}
    (hpc : s.pc i = .caller stage) (input : HandoffInput) :
    HandoffSound (handoffThreads.step s i input) := by
  have hi : i ≠ 0 := by
    rintro rfl
    obtain ⟨stage', hworker⟩ := (h.worker 0).mpr rfl
    cases hpc.symm.trans hworker
  obtain ⟨hstep, -⟩ := (@step_caller s i input) hpc
  have hself : (handoffThreads.step s i input).pc i =
      .caller (callerBody s.shared stage input).2.2 := by
    rw [Threads.step_pc_self, hpc]
    rfl
  have hfirst : (handoffThreads.step s i input).pc 0 = s.pc 0 :=
    Threads.step_pc_of_ne hi.symm input
  have hshared : (handoffThreads.step s i input).shared = (callerBody s.shared stage input).1 := by
    rw [hstep]
  have hticket : (fun j => ((handoffThreads.step s i input).pc j).ticket) =
      Function.update (fun j => (s.pc j).ticket) i
        (HandoffPoint.caller (callerBody s.shared stage input).2.2).ticket := by
    rw [hstep]
    exact Function.comp_update HandoffPoint.ticket s.pc i _
  have hnumber : ∀ n, (HandoffPoint.caller stage).number = some n → n ≤ s.shared.registered :=
    fun n hn => h.number i n (by rwa [hpc])
  have hcount := @caller_count s.shared stage input fun hsome => h.calls_pos (by rwa [hpc])
  refine ⟨fun j => ?_, ?_, ?_, ?_, ?_, fun j n hj => ?_, ?_, ?_⟩
  · by_cases hj : j = i
    · subst hj
      refine iff_of_false ?_ hi
      rintro ⟨stage', hworker⟩
      cases hself.symm.trans hworker
    · rw [Threads.step_pc_of_ne hj]
      exact h.worker j
  · rw [hticket, hshared]
    exact caller_tickets h.tickets (congrArg HandoffPoint.ticket hpc)
  · rw [hfirst, hshared, caller_inflight]
    exact h.inflight
  · rw [hshared]
    rcases @caller_registered s.shared stage input with ⟨hr, hg⟩ | ⟨hr, hg⟩ <;> rw [hr, hg]
    · exact h.generation
    · rw [h.generation, UInt32.ofNat_add_one]
  · intro callback generation number hcall
    obtain ⟨hgen, hle⟩ := h.call callback generation number (hfirst ▸ hcall)
    rw [hshared]
    refine ⟨hgen, Nat.le_trans hle ?_⟩
    rcases @caller_registered s.shared stage input with ⟨hr, -⟩ | ⟨hr, -⟩ <;> omega
  · rw [hshared]
    by_cases hji : j = i
    · subst hji
      rw [hself] at hj
      exact caller_number hnumber hj
    · rw [Threads.step_pc_of_ne hji] at hj
      have hle := h.number j n hj
      rcases @caller_registered s.shared stage input with ⟨hr, -⟩ | ⟨hr, -⟩ <;> omega
  · obtain ⟨l, hnodup, hmem, hlength⟩ := h.counted
    have hother : ∀ {l' : List Nat} {j}, j ≠ i → (j ∈ l' ↔ j ∈ l) →
        (j ∈ l' ↔ ((handoffThreads.step s i input).pc j).number.isSome) := by
      intro l' j hji hsame
      rw [Threads.step_pc_of_ne hji, hsame]
      exact hmem j
    have hin : i ∈ l ↔ (HandoffPoint.caller stage).number.isSome := hpc ▸ hmem i
    rw [hshared]
    rcases hcount with ⟨hsame, hcalls, -⟩ | ⟨hnone, hsome, hcalls, -⟩ | ⟨hsome, hnone, hcalls, -⟩
    · refine ⟨l, hnodup, fun j => ?_, hlength.trans hcalls.symm⟩
      by_cases hji : j = i
      · subst hji
        rw [hself, hsame]
        exact hin
      · exact hother hji Iff.rfl
    · -- a call that begins is counted once more, and one that ends once less
      have hout : i ∉ l := by
        rw [hin, hnone]
        exact Bool.false_ne_true
      refine ⟨i :: l, nodup_cons.mpr ⟨hout, hnodup⟩, fun j => ?_, ?_⟩
      · by_cases hji : j = i
        · subst hji
          rw [hself]
          exact iff_of_true mem_cons_self hsome
        · exact hother hji (mem_cons.trans (or_iff_right hji))
      · rw [length_cons, hlength, hcalls]
    · refine ⟨l.erase i, hnodup.erase i, fun j => ?_, ?_⟩
      · by_cases hji : j = i
        · subst hji
          rw [hself, hnone]
          exact iff_of_false hnodup.not_mem_erase Bool.false_ne_true
        · exact hother hji (mem_erase_of_ne hji)
      · rw [length_erase_of_mem (hin.mpr hsome), hlength]
        omega
  · rw [hshared]
    rcases hcount with ⟨-, hcalls, hwaiters⟩ | ⟨-, -, hcalls, hwaiters⟩ | ⟨-, -, hcalls, hwaiters⟩
    · rw [hwaiters, hcalls, h.waiters]
    · rw [hwaiters, hcalls, h.waiters, UInt32.ofNat_add_one]
    · rw [hwaiters, h.waiters, ← hcalls, UInt32.ofNat_succ_sub_one]

theorem HandoffSound.step (h : HandoffSound s) (i : Nat) (input : HandoffInput) :
    HandoffSound (handoffThreads.step s i input) := by
  cases hpc : s.pc i with
  | worker stage =>
    obtain rfl := (h.worker i).mp ⟨stage, hpc⟩
    exact h.worker_section hpc input
  | caller stage => exact h.caller_section hpc input

/-! ## Who waits -/

variable {p : HandoffPoint}

theorem HandoffPoint.pending_mono {sem sem' : Semaphore}
    (hmem : ∀ t, p.ticket = some t → t ∈ sem'.waiting → t ∈ sem.waiting)
    (hp : p.pending sem' = true) : p.pending sem = true := by
  cases p with
  | worker stage => cases hp
  | caller stage =>
    cases stage with
    | ready | woken => cases hp
    | waiting => rfl
    | blocked release number ticket =>
      exact decide_eq_true (hmem ticket rfl (of_decide_eq_true hp))

theorem pending_worker (hpc : s.pc 0 = .worker stage) {j : Nat}
    (hj : Pending (handoffThreads.step s 0 input) j) : Pending s j := by
  obtain ⟨hstep, -⟩ := (@step_worker s 0 input) hpc
  unfold Pending at hj
  by_cases hj0 : j = 0
  · subst hj0
    rw [Threads.step_pc_self, hpc] at hj
    cases hj
  · rw [Threads.step_pc_of_ne hj0, hstep] at hj
    exact HandoffPoint.pending_mono (fun t _ ht => worker_mem ht) hj

theorem pending_caller (h : HandoffSound s) {stage : CallerStage} (hpc : s.pc i = .caller stage)
    {j : Nat} (hzero : s.shared.handoffInflight = 0)
    (hj : Pending (handoffThreads.step s i input) j) : Pending s j := by
  obtain ⟨hstep, -⟩ := (@step_caller s i input) hpc
  unfold Pending at hj
  by_cases hji : j = i
  · subst hji
    rw [Threads.step_pc_self, hpc, hstep] at hj
    unfold Pending
    rw [hpc]
    exact (caller_pending hj).resolve_left (absurd hzero)
  · rw [Threads.step_pc_of_ne hji, hstep] at hj
    exact HandoffPoint.pending_mono (fun t ht => caller_mem (h.tickets.issued j t ht)) hj

theorem HandoffPoint.pending_of_ticket {sem : Semaphore} {t : Nat}
    (hp : p.ticket = some t) : p.pending sem = decide (t ∈ sem.waiting) := by
  cases p with
  | worker stage => cases hp
  | caller stage =>
    cases stage with
    | blocked release number ticket =>
      cases hp
      rfl
    | ready | woken | waiting => cases hp

theorem HandoffPoint.counted_of_pending {sem : Semaphore}
    (hp : p.pending sem = true) : p.number.isSome := by
  cases p with
  | worker stage => cases hp
  | caller stage =>
    cases stage with
    | ready | woken => cases hp
    | waiting | blocked => rfl

/-- Where no call is in flight, one caller at most waits, and he has a token. -/
structure Drained (s : Handoffs) : Prop where
  few : s.shared.handoffInflight = 0 → ∀ i j, Pending s i → Pending s j → i = j
  token : s.shared.handoffInflight = 0 → ∀ i, Pending s i → 0 < s.shared.handoffQuiescent.tokens

theorem Drained.caller_section (h : Drained s) (hs : HandoffSound s) {stage : CallerStage}
    (hpc : s.pc i = .caller stage) (input : HandoffInput) :
    Drained (handoffThreads.step s i input) := by
  obtain ⟨hstep, -⟩ := (@step_caller s i input) hpc
  have hinflight : (handoffThreads.step s i input).shared.handoffInflight =
      s.shared.handoffInflight := by
    rw [hstep]
    exact caller_inflight
  refine ⟨fun hzero j k hj hk => ?_, fun hzero j hj => ?_⟩
  · rw [hinflight] at hzero
    exact h.few hzero j k (pending_caller hs hpc hzero hj) (pending_caller hs hpc hzero hk)
  · rw [hinflight] at hzero
    have hj' := pending_caller hs hpc hzero hj
    rw [hstep]
    rcases @caller_tokens s.shared stage input with hsame | ⟨release, number, rfl, hwoken⟩
    · exact hsame ▸ h.token hzero j hj'
    · -- the one who takes the token was the only one to wait
      have hi : Pending s i := by
        unfold Pending
        rw [hpc]
        rfl
      obtain rfl := h.few hzero j i hj' hi
      unfold Pending at hj
      rw [Threads.step_pc_self, hpc] at hj
      have hnot := congrArg (fun stage => (HandoffPoint.caller stage).pending
        (handoffThreads.step s j input).shared.handoffQuiescent) hwoken
      cases hnot.symm.trans hj

theorem Drained.worker_section (h : Drained s) (hs : HandoffSound s)
    (hpc : s.pc 0 = .worker stage) (hone : OneWaits s (0, input)) :
    Drained (handoffThreads.step s 0 input) := by
  obtain ⟨hstep, -⟩ := (@step_worker s 0 input) hpc
  have hold : ∀ j, Pending (handoffThreads.step s 0 input) j → Pending s j :=
    fun j => pending_worker hpc
  rcases @worker_cases s.shared stage input with ⟨hinflight, hsem, -⟩ | ⟨callback, rfl, -, hbody⟩ |
    ⟨callback, generation, number, ret, now, pick, rfl, rfl, hbody⟩
  · refine ⟨fun hzero j k hj hk => ?_, fun hzero j hj => ?_⟩ <;> rw [hstep] at hzero
    · exact h.few (hinflight ▸ hzero) j k (hold j hj) (hold k hk)
    · rw [hstep]
      exact hsem.symm ▸ h.token (hinflight ▸ hzero) j (hold j hj)
  · -- a call is in flight now
    have hflight := hs.inflight
    rw [hpc] at hflight
    have hzero : s.shared.handoffInflight = 0 := hflight
    have hne : (handoffThreads.step s 0 input).shared.handoffInflight ≠ 0 := by
      rw [hstep, hbody]
      show s.shared.handoffInflight + 1 ≠ 0
      rw [hzero]
      decide
    exact ⟨fun h => absurd h hne, fun h => absurd h hne⟩
  · unfold OneWaits at hone
    rw [hpc] at hone
    obtain ⟨hcalls, hfew⟩ := hone
    refine ⟨fun _ j k hj hk => hfew j k (hold j hj) (hold k hk), fun _ j hj => ?_⟩
    have hwaits : 0 < s.shared.handoffWaiters := by
      have hpos := hs.calls_pos (HandoffPoint.counted_of_pending (hold j hj))
      rw [hs.waiters, UInt32.lt_iff_toNat_lt, UInt32.toNat_ofNat_of_lt' hcalls]
      exact hpos
    have hlast : s.shared.handoffInflight - 1 = 0 := by
      have hflight := hs.inflight
      rw [hpc] at hflight
      have hcalling : s.shared.handoffInflight = 1 := hflight
      rw [hcalling]
      rfl
    rcases s.shared.finish_cases generation ret now pick with ⟨-, -, hfinish⟩ | ⟨hnot, -⟩
    · have hsem : (handoffThreads.step s 0 (.finish ret now pick)).shared.handoffQuiescent =
          s.shared.handoffQuiescent.post pick := by
        rw [hstep, hbody, hfinish]
      rw [hsem]
      rcases s.shared.handoffQuiescent.post_cases pick with ⟨-, htokens, -⟩ | ⟨t, ht, hpost⟩
      · rw [htokens]
        exact Nat.succ_pos _
      · -- the one who is called was the only one to wait
        obtain ⟨k, hk⟩ := hs.tickets.held t ht
        have hkpending : Pending s k :=
          (HandoffPoint.pending_of_ticket hk).trans (decide_eq_true ht)
        obtain rfl := hfew j k (hold j hj) hkpending
        have hj0 : j ≠ 0 := by
          rintro rfl
          rw [hpc] at hk
          cases hk
        unfold Pending at hj
        rw [Threads.step_pc_of_ne hj0, HandoffPoint.pending_of_ticket hk, hsem, hpost] at hj
        exact absurd (of_decide_eq_true hj) s.shared.handoffQuiescent.nodup.not_mem_erase
    · exact absurd ⟨hlast, hwaits⟩ hnot

theorem Drained.step (h : Drained s) (hs : HandoffSound s) (hone : OneWaits s (i, input)) :
    Drained (handoffThreads.step s i input) := by
  cases hpc : s.pc i with
  | worker stage =>
    obtain rfl := (hs.worker i).mp ⟨stage, hpc⟩
    exact h.worker_section hs hpc hone
  | caller stage => exact h.caller_section hs hpc input

theorem Drained.not_forgotten (h : Drained s) : ¬Forgotten s := by
  rintro ⟨hzero, htokens, i, hi⟩
  exact absurd htokens (Nat.ne_of_gt (h.token hzero i hi))

theorem handoffSound_boot : HandoffSound handoffBoot where
  worker i := by
    unfold handoffBoot
    dsimp only
    split
    · next h => exact iff_of_true ⟨_, rfl⟩ h
    · next h => exact iff_of_false (fun ⟨_, hstage⟩ => by cases hstage) h
  tickets := by
    have hnone : (fun i => (handoffBoot.pc i).ticket) = fun _ => none := by
      funext i
      unfold handoffBoot
      dsimp only
      split <;> rfl
    rw [hnone]
    exact Semaphore.tickets_empty
  inflight := rfl
  generation := rfl
  call := nofun
  number i n h := by
    unfold handoffBoot at h
    dsimp only at h
    split at h <;> cases h
  counted := by
    refine ⟨[], nodup_nil, fun i => iff_of_false not_mem_nil ?_, rfl⟩
    unfold handoffBoot
    dsimp only
    split <;> exact Bool.false_ne_true
  waiters := rfl

theorem drained_boot : Drained handoffBoot := by
  have hnobody : ∀ i, ¬Pending handoffBoot i := by
    intro i hi
    unfold Pending handoffBoot at hi
    dsimp only at hi
    split at hi <;> cases hi
  exact ⟨fun _ i _ hi _ => absurd hi (hnobody i), fun _ i hi => absurd hi (hnobody i)⟩

/-! ## The life of a callback -/

theorem return_of_notes (h : HandoffSound s) {j number : Nat}
    (hn : (j, .returns number) ∈ handoffThreads.notes s i input) :
    s.shared.handoffInflight = 0 ∧ i ≠ 0 ∧
      number ≤ (handoffThreads.step s i input).shared.registered ∧
      handoffThreads.notes s i input = [(i, .returns number)] := by
  cases hpc : s.pc i with
  | worker stage =>
    obtain ⟨-, hnotes⟩ := (@step_worker s i input) hpc
    rw [hnotes] at hn
    obtain ⟨note, hmem, heq⟩ := mem_map.mp hn
    cases heq
    rcases @worker_cases s.shared stage input with ⟨-, -, hnone, -⟩ | ⟨callback, -, -, hbody⟩ |
      ⟨callback, generation, m, ret, now, pick, -, -, hbody⟩
    · rw [hnone] at hmem
      cases hmem
    · rw [hbody] at hmem
      cases mem_singleton.mp hmem
    · rw [hbody] at hmem
      cases hmem
  | caller stage =>
    obtain ⟨hstep, hnotes⟩ := (@step_caller s i input) hpc
    rw [hnotes] at hn ⊢
    obtain ⟨note, hmem, heq⟩ := mem_map.mp hn
    cases heq
    obtain ⟨hzero, hle, hone⟩ := return_of_note (fun n hn => h.number i n (by rwa [hpc])) hmem
    refine ⟨hzero, ?_, by rw [hstep]; exact hle, by rw [hone]; rfl⟩
    rintro rfl
    obtain ⟨stage', hworker⟩ := (h.worker 0).mpr rfl
    cases hpc.symm.trans hworker

theorem quiescent (h : HandoffSound s) (e : Nat × HandoffInput) : Quiescent s e := by
  obtain ⟨i, input⟩ := e
  intro j number hn k m hrunning
  obtain ⟨hzero, hi, -, -⟩ := return_of_notes h hn
  have hk : k = 0 := by
    refine ((h.step i input).worker k).mp ?_
    cases hpc : (handoffThreads.step s i input).pc k with
    | worker stage => exact ⟨stage, rfl⟩
    | caller stage =>
      rw [hpc] at hrunning
      cases hrunning
  subst hk
  rw [Threads.step_pc_of_ne hi.symm] at hrunning
  have hflight := h.inflight
  rw [hrunning, hzero] at hflight
  exact absurd hflight (by simp)

theorem start_of_notes {j m : Nat} {callback : Callback}
    (hn : (j, .starts callback m) ∈ handoffThreads.notes s i input) : m = s.shared.registered := by
  have hdrain : ∀ (s' : HandoffState) release number,
      .starts callback m ∉ (s'.drain release number).2.1 := by
    intro s' release number
    rcases s'.drain_cases release number with ⟨-, hd⟩ | ⟨-, hd⟩ <;> rw [hd] <;> simp
  cases hpc : s.pc i with
  | worker stage =>
    rw [(step_worker hpc).2] at hn
    obtain ⟨note, hmem, heq⟩ := mem_map.mp hn
    cases heq
    rcases @worker_cases s.shared stage input with ⟨-, -, hnone, -⟩ | ⟨callback', -, -, hbody⟩ |
      ⟨callback', generation, n, ret, now, pick, -, -, hbody⟩
    · rw [hnone] at hmem
      cases hmem
    · rw [hbody] at hmem
      cases mem_singleton.mp hmem
      rfl
    · rw [hbody] at hmem
      cases hmem
  | caller stage =>
    rw [(step_caller hpc).2] at hn
    obtain ⟨note, hmem, heq⟩ := mem_map.mp hn
    cases heq
    revert hmem
    fun_cases callerBody s.shared stage input with
    | case1 | case2 | case6 => exact fun hmem => absurd hmem (hdrain _ _ _)
    | _ => exact nofun

theorem registered_step :
    s.shared.registered ≤ (handoffThreads.step s i input).shared.registered := by
  cases hpc : s.pc i with
  | worker stage =>
    rw [(step_worker hpc).1]
    exact Nat.le_of_eq worker_same.1.symm
  | caller stage =>
    rw [(step_caller hpc).1]
    rcases @caller_registered s.shared stage input with ⟨hr, -⟩ | ⟨hr, -⟩
    · exact Nat.le_of_eq hr.symm
    · exact Nat.le_of_lt (Nat.lt_of_lt_of_eq (Nat.lt_succ_self _) hr.symm)

/-- The calls of a run are made under the registrations that there are, and later ones. -/
theorem start_of_history {j m : Nat} {callback : Callback} {events : List (Nat × HandoffInput)}
    (hn : (j, .starts callback m) ∈ handoffThreads.history s events) : s.shared.registered ≤ m := by
  obtain ⟨pre, post, hsplit⟩ := append_of_mem hn
  obtain ⟨before, e, after, l, r, -, hnotes, -⟩ := Threads.exists_step_of_history hsplit
  have hmem : (j, HandoffNote.starts callback m) ∈
      handoffThreads.notes (handoffThreads.machine.run s before) e.1 e.2 :=
    hnotes ▸ mem_append_right l mem_cons_self
  rw [start_of_notes hmem]
  exact @Threads.run_invariant _ _ _ _ handoffThreads s
    (fun t => s.shared.registered ≤ t.shared.registered)
    (fun t i input hle => Nat.le_trans hle registered_step) (Nat.le_refl _) before

theorem stale_harmless (h : HandoffSound s) (e : Nat × HandoffInput) (htimely : Timely s e) :
    StaleHarmless s e := by
  obtain ⟨i, input⟩ := e
  unfold StaleHarmless
  unfold Timely at htimely
  dsimp only at htimely ⊢
  split
  · next callback generation number ret now pick hpc =>
    rw [hpc] at htimely
    intro hstale
    obtain rfl := (h.worker i).mp ⟨_, hpc⟩
    obtain ⟨hgen, hle⟩ := h.call callback generation number hpc
    have hother : generation ≠ s.shared.handoffGeneration := by
      rw [hgen, h.generation]
      exact fun heq => hstale (UInt32.eq_of_ofNat_eq hle heq htimely)
    have happly : s.shared.apply generation ret now = s.shared.dcm := if_neg hother
    rw [(step_worker hpc).1]
    show (s.shared.finish generation ret now pick).dcm = s.shared.dcm
    rcases s.shared.finish_cases generation ret now pick with ⟨-, -, hf⟩ | ⟨-, hf⟩ <;> rw [hf] <;>
      exact happly
  · next number ret now pick hpc =>
    rw [hpc] at htimely
    exact fun hstale => absurd htimely.symm hstale
  · trivial

theorem handoffSound_run (events : List (Nat × HandoffInput)) :
    HandoffSound (handoffThreads.machine.run handoffBoot events) :=
  Threads.run_invariant (m := handoffThreads) (fun _ i input h => h.step i input) handoffSound_boot
    events

theorem noneStarts (events : List (Nat × HandoffInput)) :
    NoneStarts (handoffThreads.history handoffBoot events) := by
  intro pre i number post hsplit j callback m hstart
  obtain ⟨before, e, after, l, r, -, hnotes, -, rfl⟩ := Threads.exists_step_of_history hsplit
  have hmem : (i, HandoffNote.returns number) ∈
      handoffThreads.notes (handoffThreads.machine.run handoffBoot before) e.1 e.2 :=
    hnotes ▸ mem_append_right l mem_cons_self
  obtain ⟨-, -, hle, hone⟩ := return_of_notes (handoffSound_run before) hmem
  -- the section of the return notes nothing else
  have hr : r = [] := by
    have hlength := congrArg List.length (hnotes.symm.trans hone)
    rw [length_append, length_cons, length_singleton] at hlength
    exact eq_nil_of_length_eq_zero (by omega)
  rw [hr, nil_append] at hstart
  exact Nat.le_trans hle (start_of_history hstart)

/-- **The life of a callback.** In every run, when a call that registers another callback returns,
no older one is running, and none starts behind it. An invocation behind which there has been
another registration leaves the port alone, as long as every invocation is timely. And as long as
one caller at most waits when a call ends, nobody is left waiting where no call is in flight and no
token is left. -/
theorem handoff_lifetime (events : List (Nat × HandoffInput)) :
    handoffThreads.machine.Throughout Quiescent handoffBoot events ∧
      NoneStarts (handoffThreads.history handoffBoot events) ∧
      (handoffThreads.machine.Throughout Timely handoffBoot events →
        handoffThreads.machine.Throughout StaleHarmless handoffBoot events) ∧
      (handoffThreads.machine.Throughout OneWaits handoffBoot events →
        ∀ before, before <+: events →
          ¬Forgotten (handoffThreads.machine.run handoffBoot before)) := by
  refine ⟨?_, noneStarts events, fun htimely => ?_, ?_⟩
  · exact @Machine.throughout_of_invariant _ _ _ handoffThreads.machine HandoffSound
      (fun _ _ => True) Quiescent (fun s e h _ => ⟨quiescent h e, h.step e.1 e.2⟩) _ _
      handoffSound_boot (handoffThreads.machine.throughout_of_forall (fun _ _ _ => trivial) _)
  · exact @Machine.throughout_of_invariant _ _ _ handoffThreads.machine HandoffSound Timely
      StaleHarmless (fun s e h ht => ⟨stale_harmless h e ht, h.step e.1 e.2⟩) _ _
      handoffSound_boot htimely
  · rintro hone before ⟨after, rfl⟩
    have hall := (handoffThreads.machine.throughout_append.mp hone).1
    have hrun := Threads.run_invariant_of (m := handoffThreads)
      (fun s => HandoffSound s ∧ Drained s)
      (fun s i input hs hone => ⟨hs.1.step i input, hs.2.step hs.1 hone⟩)
      ⟨handoffSound_boot, drained_boot⟩ hall
    exact hrun.2.not_forgotten

end Steps

/-- A port is released while its callback runs. -/
def releaseRunning : List (Nat × HandoffInput) :=
  [(1, .register (some ⟨1, 2⟩)), (0, .invoke), (1, .release), (1, .go),
    (0, .finish 0 0 0), (1, .go),
    (1, .go)]

theorem handoff_lifetime_release :
    handoffThreads.machine.Throughout StaleHarmless handoffBoot releaseRunning ∧
      ¬Forgotten (handoffThreads.machine.run handoffBoot releaseRunning) := by
  refine ⟨(handoff_lifetime releaseRunning).2.2.1 ⟨trivial, trivial, trivial, trivial, ?_, trivial,
    trivial, trivial⟩, (handoff_lifetime releaseRunning).2.2.2 ⟨trivial, trivial, trivial, trivial,
    ?_, trivial, trivial, trivial⟩ _ prefix_rfl⟩
  · show 2 < 1 + 2 ^ 32
    decide
  · have honly : ∀ {i}, Pending (handoffThreads.machine.run handoffBoot (releaseRunning.take 4)) i →
        i = 1 := by
      intro i hi
      by_contra hne
      by_cases h0 : i = 0
      · subst h0
        cases hi
      · have hready : (handoffThreads.machine.run handoffBoot (releaseRunning.take 4)).pc i =
            .caller .ready :=
          (Threads.run_pc_of_ne (m := handoffThreads) (s := handoffBoot)
            (by simp [releaseRunning, Ne.symm hne, Ne.symm h0])).trans (if_neg h0)
        rw [Pending, hready] at hi
        cases hi
    exact ⟨by decide, fun i j hi hj => (honly hi).trans (honly hj).symm⟩

/-- Two callers release a port while its callback runs, and one is woken. -/
theorem not_handoff_lifetime :
    ¬∀ events, ¬Forgotten (handoffThreads.machine.run handoffBoot events) := by
  intro h
  refine h [(1, .register (some ⟨1, 2⟩)), (0, .invoke), (1, .release), (1, .go), (2, .release),
    (2, .go), (0, .finish 0 0 0), (1, .go), (1, .go)] ⟨?_, ?_, 2, ?_⟩
  · decide +kernel
  · decide +kernel
  · unfold Pending
    decide +kernel

end Brickwright.Legoport
