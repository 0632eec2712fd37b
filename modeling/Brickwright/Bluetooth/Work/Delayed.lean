import Brickwright.Bluetooth.Work.Tokens

/-!
# What a cancellation that does not wait leaves

`k_work_cancel_delayable` takes a new generation for the item. A timer thread submits it only if the
generation it was made for is that of the item, so that a request of an older one is as good as gone
(`Fresh`). What the generation does not reach is an item that is queued as well, one the worker has
taken and not begun, and a thread that has compared the generations and not submitted yet: if there
is none of these when the call returns 0 or 1 (`CancelsAll`), the handler is not called any more
(`Settled`).
-/

namespace Brickwright.Bluetooth.WorkQueue

open List

variable {slots : Nat} {k : Kernel} {pc : Point} {input : Input} {w : Nat}
  {s : Threads.State Kernel Point} {i : Nat}

/-! ## Generations -/

/-- What a section does to the generation of an item. -/
inductive Ages (w : Nat) (k k' : Kernel) (notes : List Note) (pc : Point) (input : Input) : Prop
  | stays (hgeneration : (k'.work w).generation = (k.work w).generation)
  | schedules (hnote : .scheduled w ∈ notes)
  | cancels (hgeneration : (k'.work w).generation = (k.work w).generation + 1)
      (hgoes : input.Goes)
      (hpc : (∃ c, pc = .cancelling c w) ∨ ∃ sync, pc = .cancellingDelayable sync w)

theorem ages_of_work {k' : Kernel} {notes : List Note} (h : k'.work = k.work) :
    Ages w k k' notes pc input :=
  .stays (by rw [h])

theorem ages_of_setWork {notes : List Note} {w' : Nat} {f : Work → Work}
    (hf : ∀ x, (f x).generation = x.generation) : Ages w k (k.setWork w' f) notes pc input := by
  refine .stays ?_
  by_cases hw : w = w'
  · subst hw
    rw [Kernel.setWork_self, hf]
  · rw [Kernel.setWork_of_ne hw]

/-- **The step lemma for the generations.** -/
theorem ages_step (slots : Nat) (k : Kernel) (pc : Point) (input : Input) (w : Nat) :
    Ages w k (body slots k pc input).1 (body slots k pc input).2.1 pc input := by
  have hact := body_act slots k pc input
  generalize body slots k pc input = r at hact ⊢
  cases hact with
  | queued who => cases who <;> exact ages_of_work rfl
  | puts who => cases who <;> exact ages_of_work rfl
  | schedules q w' =>
    by_cases hw : w = w'
    · subst hw
      exact .schedules (mem_singleton_self _)
    · refine .stays ?_
      rw [Kernel.setWork_of_ne hw]
  | cancels c w' =>
    by_cases hw : w = w'
    · subst hw
      refine .cancels ?_ trivial (.inl ⟨c, rfl⟩)
      rw [cancelLocked_kernel, Kernel.setWork_self]
    · refine .stays ?_
      rw [cancelLocked_kernel, Kernel.setWork_of_ne hw]
  | cancelsDelayable sync w' =>
    by_cases hw : w = w'
    · subst hw
      refine .cancels ?_ trivial (.inr ⟨sync, rfl⟩)
      rw [Kernel.setWork_self]
    · refine .stays ?_
      rw [Kernel.setWork_of_ne hw]
  | submits | fails | drops | takes | finishes | compares =>
    dsimp only
    exact ages_of_setWork fun _ => rfl
  | _ => exact ages_of_work rfl

/-! ## On the way to the handler -/

/-- On the way from a call of `schedule` to the handler. -/
def Point.Onward : Point → Prop
  | .submitting .schedule _ _ => True
  | .submitting (.timer _) _ _ => True
  | .allocating _ _ _ => True
  | .filling _ _ _ _ => True
  | .checking _ => True
  | .starting _ _ => True
  | _ => False

inductive Comes (k : Kernel) (pc pc' : Point) (notes : List Note) : Prop
  | stays (hpc' : pc' = pc)
  | elsewhere (hpc' : ¬ pc'.Onward)
  | schedules (w : Nat) (hnote : .scheduled w ∈ notes) (htask : pc'.task = some (.schedule w))
  | allocates (slot q w : Nat) (generation : UInt32) (hpc : pc = .allocating q w generation)
      (hpc' : pc' = .filling slot q w generation)
  | wakes (slot : Nat) (hpc : pc = .sleeping slot)
      (hcanceled : (k.requests slot).canceled = false) (hpc' : pc' = .checking slot)
  | compares (slot q w : Nat) (hpc : pc = .checking slot)
      (hwork : (k.requests slot).work = some w)
      (hgeneration : (k.requests slot).generation = (k.work w).generation)
      (hpc' : pc' = .submitting (.timer slot) q w)
  | takes (q w : Nat) (hpc : pc = .got q w) (hpc' : pc' = .starting q w)

theorem comes_submitReturns {k' : Kernel} {notes notes' : List Note} {result : Int}
    {who : Submitter} : Comes k pc (submitReturns k' notes result who).2.2 notes' := by
  cases who <;> exact .elsewhere id

/-- **The step lemma for the way.** -/
theorem comes_step (slots : Nat) (k : Kernel) (pc : Point) (input : Input) :
    Comes k pc (body slots k pc input).2.2 (body slots k pc input).2.1 := by
  have hact := body_act slots k pc input
  generalize body slots k pc input = r at hact ⊢
  cases hact with
  | stays => exact .stays rfl
  | calls c => cases c <;> exact .elsewhere id
  | passes h => cases h <;> exact .elsewhere id
  | marks h => cases h <;> exact .elsewhere id
  | queued => exact comes_submitReturns
  | puts => exact comes_submitReturns
  | schedules q w =>
    refine .schedules w (mem_singleton_self _) ?_
    split <;> rfl
  | allocates slot q w generation => exact .allocates slot q w generation rfl rfl
  | cancels c => cases c <;> exact .elsewhere id
  | takes q w => exact .takes q w rfl rfl
  | expires slot hcanceled => exact .wakes slot rfl hcanceled rfl
  | compares slot w hwork hgeneration => exact .compares slot _ w rfl hwork hgeneration rfl
  | _ => exact .elsewhere id

/-- A thread is where it was, or its section has led it there. -/
theorem comes_of_pc {j : Nat} {pc : Point} (hpc : ((threads slots).step s i input).pc j = pc) :
    s.pc j = pc ∨
      j = i ∧ Comes s.shared (s.pc j) pc (body slots s.shared (s.pc j) input).2.1 := by
  by_cases hj : j = i
  · subst hj
    rw [Threads.step_pc_self] at hpc
    exact .inr ⟨rfl, hpc ▸ comes_step slots s.shared (s.pc j) input⟩
  · rw [Threads.step_pc_of_ne hj] at hpc
    exact .inl hpc

/-! ## Requests that may still submit -/

/-- A request of that generation may still be compared with the item. -/
inductive Live (w : Nat) (generation : UInt32) (s : Threads.State Kernel Point) : Prop
  | calls (j q : Nat) (hpc : s.pc j = .allocating q w generation)
  | fills (j slot q : Nat) (hpc : s.pc j = .filling slot q w generation)
  | sleeps (slot : Nat) (hwork : (s.shared.requests slot).work = some w)
      (hgeneration : (s.shared.requests slot).generation = generation)
      (hcanceled : (s.shared.requests slot).canceled = false)
  | compares (j slot : Nat) (hwork : (s.shared.requests slot).work = some w)
      (hgeneration : (s.shared.requests slot).generation = generation)
      (hpc : s.pc j = .checking slot)

theorem slot_before {generation : UInt32} {slot : Nat}
    (hwork : (((threads slots).step s i input).shared.requests slot).work = some w)
    (hgeneration : (((threads slots).step s i input).shared.requests slot).generation =
      generation) :
    Live w generation s ∨ (s.shared.requests slot).work = some w ∧
      (s.shared.requests slot).generation = generation ∧
      ((((threads slots).step s i input).shared.requests slot).canceled = false →
        (s.shared.requests slot).canceled = false) := by
  -- the slot is another one, or what has been put into it is
  have hset (slot' : Nat) (r : Request)
      (hkernel : (body slots s.shared (s.pc i) input).1 = s.shared.setRequest slot' r)
      (hr : slot = slot' → r.work = some w → r.generation = generation →
        Live w generation s ∨ (s.shared.requests slot).work = some w ∧
          (s.shared.requests slot).generation = generation ∧
          (r.canceled = false → (s.shared.requests slot).canceled = false)) :
      Live w generation s ∨ (s.shared.requests slot).work = some w ∧
        (s.shared.requests slot).generation = generation ∧
        ((((threads slots).step s i input).shared.requests slot).canceled = false →
          (s.shared.requests slot).canceled = false) := by
    have hafter : ((threads slots).step s i input).shared.requests slot =
        if slot = slot' then r else s.shared.requests slot := by
      change (body slots s.shared (s.pc i) input).1.requests slot = _
      rw [hkernel]
      exact Function.update_apply ..
    rw [hafter] at hwork hgeneration ⊢
    split at hwork
    · next heq =>
      rw [if_pos heq] at hgeneration ⊢
      exact hr heq hwork hgeneration
    · next hne =>
      rw [if_neg hne] at hgeneration ⊢
      exact .inr ⟨hwork, hgeneration, id⟩
  cases slotted_step slots s.shared (s.pc i) input with
  | stays hrequests =>
    rcases hrequests slot with heq | heq
    · rw [show ((threads slots).step s i input).shared.requests slot = _ from heq]
        at hwork hgeneration ⊢
      exact .inr ⟨hwork, hgeneration, id⟩
    · rw [show ((threads slots).step s i input).shared.requests slot = _ from heq]
        at hwork hgeneration ⊢
      exact .inr ⟨hwork, hgeneration, nofun⟩
  | allocates slot' q w' g hpc hpc' hslot hfree hkernel =>
    refine hset slot' _ hkernel fun heq hwork hgeneration => .inr ?_
    subst heq
    exact ⟨hwork, hgeneration, id⟩
  | fills slot' q w' g hpc hpc' hkernel =>
    refine hset slot' _ hkernel fun _ hwork hgeneration => .inl ?_
    cases hwork
    cases hgeneration
    exact .fills i slot' q hpc
  | creates slot' w' g hpc hpc' hkernel =>
    refine hset slot' _ hkernel fun heq hwork hgeneration => .inr ?_
    subst heq
    exact ⟨hwork, hgeneration, id⟩
  | undoes slot' w' g hpc hpc' hkernel => exact hset slot' _ hkernel fun _ hwork => nomatch hwork
  | releases slot' hpc hpc' hkernel => exact hset slot' _ hkernel fun _ hwork => nomatch hwork

/-- A schedule is live after a section that does not make it only if it was before. -/
theorem live_step {generation : UInt32} (h : Live w generation ((threads slots).step s i input))
    (hnotes : .scheduled w ∉ (body slots s.shared (s.pc i) input).2.1) : Live w generation s := by
  cases h with
  | calls j q hpc =>
    rcases comes_of_pc hpc with hpc | ⟨rfl, hcomes⟩
    · exact .calls j q hpc
    · cases hcomes with
      | stays hpc' => exact .calls j q hpc'.symm
      | elsewhere hpc' => exact absurd trivial hpc'
      | schedules w' hnote htask =>
        cases htask
        exact absurd hnote hnotes
      | allocates _ _ _ _ _ hpc' => cases hpc'
      | wakes _ _ _ hpc' => cases hpc'
      | compares _ _ _ _ _ _ hpc' => cases hpc'
      | takes _ _ _ hpc' => cases hpc'
  | fills j slot q hpc =>
    rcases comes_of_pc hpc with hpc | ⟨rfl, hcomes⟩
    · exact .fills j slot q hpc
    · cases hcomes with
      | stays hpc' => exact .fills j slot q hpc'.symm
      | elsewhere hpc' => exact absurd trivial hpc'
      | schedules w' hnote htask =>
        cases htask
        exact absurd hnote hnotes
      | allocates _ _ _ _ hpc hpc' =>
        cases hpc'
        exact .calls j q hpc
      | wakes _ _ _ hpc' => cases hpc'
      | compares _ _ _ _ _ _ hpc' => cases hpc'
      | takes _ _ _ hpc' => cases hpc'
  | sleeps slot hwork hgeneration hcanceled =>
    rcases slot_before hwork hgeneration with hlive | ⟨hwork, hgeneration, hbefore⟩
    · exact hlive
    · exact .sleeps slot hwork hgeneration (hbefore hcanceled)
  | compares j slot hwork hgeneration hpc =>
    rcases slot_before hwork hgeneration with hlive | ⟨hwork', hgeneration', -⟩
    · exact hlive
    · rcases comes_of_pc hpc with hpc | ⟨rfl, hcomes⟩
      · exact .compares j slot hwork' hgeneration' hpc
      · cases hcomes with
        | stays hpc' => exact .compares j slot hwork' hgeneration' hpc'.symm
        | elsewhere hpc' => exact absurd trivial hpc'
        | schedules _ _ htask => cases htask
        | allocates _ _ _ _ _ hpc' => cases hpc'
        | wakes _ _ hcanceled hpc' =>
          cases hpc'
          exact .sleeps slot hwork' hgeneration' hcanceled
        | compares _ _ _ _ _ _ hpc' => cases hpc'
        | takes _ _ _ hpc' => cases hpc'

/-- A section in which `k_work_cancel_delayable` is to return 0 or 1. -/
def Point.Answers (pc : Point) (k : Kernel) (w : Nat) : Prop :=
  pc = .marking false w true ∨ pc = .cancelling .delayable w ∧ ¬ k.Busy w

/-- Nothing is under way to the handler that the generation does not reach. -/
structure Clear (w : Nat) (s : Threads.State Kernel Point) : Prop where
  pending : (s.shared.work w).pending = false
  starting : ∀ j q, s.pc j ≠ .starting q w
  submitting : ∀ j who q, s.pc j = .submitting who q w → who = .call

/-- The generation a cancellation takes is that of no request, and nothing is under way that it does
not reach when it returns 0 or 1. -/
def CancelsAll (w : Nat) (s : Threads.State Kernel Point) (e : Nat × Input) : Prop :=
  e.2.Goes →
    ((∃ c, s.pc e.1 = .cancelling c w) ∨ (∃ sync, s.pc e.1 = .cancellingDelayable sync w) →
      ¬ Live w ((s.shared.work w).generation + 1) s) ∧
    ((s.pc e.1).Answers s.shared w → Clear w s)

/-- No request is of the generation of the item. -/
def Fresh (w : Nat) (s : Threads.State Kernel Point) : Prop :=
  ¬ Live w (s.shared.work w).generation s

theorem fresh_step (h : Fresh w s) (hallowed : CancelsAll w s (i, input))
    (hnotes : .scheduled w ∉ (body slots s.shared (s.pc i) input).2.1) :
    Fresh w ((threads slots).step s i input) := by
  intro hlive
  have hbefore := live_step hlive hnotes
  rw [show (((threads slots).step s i input).shared.work w) =
    (body slots s.shared (s.pc i) input).1.work w from rfl] at hbefore
  cases ages_step slots s.shared (s.pc i) input w with
  | stays hgeneration =>
    rw [hgeneration] at hbefore
    exact h hbefore
  | schedules hnote => exact hnotes hnote
  | cancels hgeneration hgoes hpc =>
    rw [hgeneration] at hbefore
    exact (hallowed hgoes).1 hpc hbefore

theorem fresh_of_cancel (hallowed : CancelsAll w s (i, input)) {sync : Bool}
    (hpc : s.pc i = .cancellingDelayable sync w) (hgoes : input.Goes) :
    Fresh w ((threads slots).step s i input) := by
  cases input with
  | call c => exact absurd hgoes id
  | go flag now =>
    intro hlive
    have hbefore := live_step hlive (by rw [hpc]; exact nofun)
    have hgeneration : (((threads slots).step s i (.go flag now)).shared.work w).generation =
        (s.shared.work w).generation + 1 := by
      rw [Threads.step, hpc]
      change ((s.shared.setWork w fun x =>
        { x with deadline := 0, generation := x.generation + 1 }).work w).generation = _
      rw [Kernel.setWork_self]
    rw [hgeneration] at hbefore
    exact (hallowed hgoes).1 (.inr ⟨sync, hpc⟩) hbefore

/-- Nothing is under way to the handler. -/
structure Settled (w : Nat) (s : Threads.State Kernel Point) : Prop where
  clear : Clear w s
  fresh : Fresh w s

/-- The notes of a section that neither schedules the item nor submits it. -/
def Offerless (w : Nat) (notes : List Note) : Prop :=
  .scheduled w ∉ notes ∧ .submitted .call w ∉ notes

/-- Nothing brings a settled item back but a schedule or a submit. -/
theorem settled_step (hplaced : Placed w s) (h : Settled w s) (hallowed : CancelsAll w s (i, input))
    (hnotes : Offerless w (body slots s.shared (s.pc i) input).2.1) :
    Settled w ((threads slots).step s i input) := by
  have hgot (q : Nat) : s.pc i ≠ .got q w := by
    intro hpc
    exact hplaced.nowhere h.clear.pending (.hand i) (by rw [At, hpc]; rfl)
  refine ⟨⟨?_, fun j q hpc => ?_, fun j who q hpc => ?_⟩, fresh_step h.fresh hallowed hnotes.1⟩
  · change ((body slots s.shared (s.pc i) input).1.work w).pending = false
    cases flags_step slots s.shared (s.pc i) input w with
    | stays hpending => exact hpending.trans h.clear.pending
    | submits who q hpc hidle hwork hnote =>
      cases h.clear.submitting i who q hpc
      exact absurd hnote hnotes.2
    | cancels c hpc hnote hpending => exact hpending.trans h.clear.pending
    | drops q hpc => exact absurd hpc (hgot q)
    | takes q hpc => exact absurd hpc (hgot q)
    | finishes q hpc hpc' hwork => rw [hwork]; exact h.clear.pending
  · rcases comes_of_pc hpc with hpc | ⟨rfl, hcomes⟩
    · exact h.clear.starting j q hpc
    · cases hcomes with
      | stays hpc' => exact h.clear.starting j q hpc'.symm
      | elsewhere hpc' => exact hpc' trivial
      | schedules _ _ htask => cases htask
      | allocates _ _ _ _ _ hpc' => cases hpc'
      | wakes _ _ _ hpc' => cases hpc'
      | compares _ _ _ _ _ _ hpc' => cases hpc'
      | takes _ _ hpc hpc' =>
        cases hpc'
        exact hgot q hpc
  · rcases comes_of_pc hpc with hpc | ⟨rfl, hcomes⟩
    · exact h.clear.submitting j who q hpc
    · cases hcomes with
      | stays hpc' => exact h.clear.submitting j who q hpc'.symm
      | elsewhere hpc' =>
        cases who with
        | call => rfl
        | _ => exact absurd trivial hpc'
      | schedules w' hnote htask =>
        cases who with
        | schedule =>
          cases htask
          exact absurd hnote hnotes.1
        | _ => cases htask
      | allocates _ _ _ _ _ hpc' => cases hpc'
      | wakes _ _ _ hpc' => cases hpc'
      | compares slot _ _ hchecking hwork hgeneration hpc' =>
        cases hpc'
        exact absurd (.compares j slot hwork hgeneration hchecking) h.fresh
      | takes _ _ _ hpc' => cases hpc'

/-! ## From the first section to the return -/

/-- Between the first section of the cancellation and its return. -/
def Point.Deciding (pc : Point) (w : Nat) : Prop :=
  (∃ delayed, pc = .marking false w delayed) ∨ pc = .cancelling .delayable w

theorem deciding_step (slots : Nat) (k : Kernel) (input : Input) (h : pc.Deciding w) :
    (body slots k pc input).2.2.Deciding w ∨
      ∃ result, .returned result ∈ (body slots k pc input).2.1 := by
  cases input with
  | call c =>
    obtain ⟨delayed, rfl⟩ | rfl := h
    · exact .inl (.inl ⟨delayed, rfl⟩)
    · exact .inl (.inr rfl)
  | go flag now =>
    obtain ⟨delayed, rfl⟩ | rfl := h
    · cases delayed
      · exact .inl (.inr rfl)
      · exact .inr ⟨1, mem_singleton_self _⟩
    · exact .inr ⟨_, mem_cons_of_mem _ (mem_singleton_self _)⟩

theorem answers_of_returned (h : pc.Deciding w) {result : Int} (hresult : result = 0 ∨ result = 1)
    (hreturned : .returned result ∈ (body slots k pc input).2.1) :
    input.Goes ∧ pc.Answers k w := by
  cases input with
  | call c => obtain ⟨delayed, rfl⟩ | rfl := h <;> cases hreturned
  | go flag now =>
    refine ⟨trivial, ?_⟩
    obtain ⟨delayed, rfl⟩ | rfl := h
    · cases delayed
      · cases hreturned
      · exact .inl rfl
    · refine .inr ⟨rfl, fun hbusy => ?_⟩
      rcases mem_cons.mp hreturned with heq | hmem
      · cases heq
      · have hresult' := mem_singleton.mp hmem
        have hbusy' : ((k.work w).pending || (k.work w).running) = true := by
          rw [Bool.or_eq_true]
          exact hbusy
        rw [if_pos hbusy'] at hresult'
        injection hresult' with hresult'
        rw [hresult'] at hresult
        exact absurd hresult (by decide)

/-- The cancellation has begun and not returned. -/
structure Begun (w i : Nat) (s : Threads.State Kernel Point) : Prop where
  placed : Placed w s
  fresh : Fresh w s
  deciding : (s.pc i).Deciding w

structure Over (w : Nat) (s : Threads.State Kernel Point) : Prop where
  placed : Placed w s
  settled : Settled w s

def Note.Offers (w : Nat) (n : Note) : Prop := n = .scheduled w ∨ n = .submitted .call w

instance (n : Note) : Decidable (n.Offers w) := inferInstanceAs (Decidable (_ ∨ _))

def Unoffering (slots w : Nat) (s : Threads.State Kernel Point) (e : Nat × Input) : Prop :=
  CancelsAll w s e ∧ ∀ n ∈ (threads slots).notes s e.1 e.2, ¬ n.2.Offers w

theorem Unoffering.offerless (h : Unoffering slots w s (i, input)) :
    Offerless w (body slots s.shared (s.pc i) input).2.1 :=
  ⟨fun hmem => h.2 (i, _) (Threads.mem_notes.mpr ⟨rfl, hmem⟩) (.inl rfl),
    fun hmem => h.2 (i, _) (Threads.mem_notes.mpr ⟨rfl, hmem⟩) (.inr rfl)⟩

variable {events : List (Nat × Input)}

theorem not_started_of_over (h : Over w s)
    (hall : (threads slots).machine.Throughout (Unoffering slots w) s events) (j : Nat) :
    (j, .started w) ∉ (threads slots).history s events := by
  have hstep (h : List (Nat × Note)) (s : Threads.State Kernel Point) (i : Nat) (input : Input)
      (hs : Over w s ∧ ∀ j, (j, .started w) ∉ h) (hallowed : Unoffering slots w s (i, input)) :
      Over w ((threads slots).step s i input) ∧
        ∀ j, (j, .started w) ∉ h ++ (threads slots).notes s i input := by
    have hsettled := settled_step hs.1.placed hs.1.settled hallowed.1 hallowed.offerless
    refine ⟨⟨placed_step hs.1.placed i input, hsettled⟩, fun j hmem => ?_⟩
    rcases mem_append.mp hmem with hmem | hmem
    · exact hs.2 j hmem
    · cases notes_step slots _ _ _ (Threads.mem_notes.mp hmem).2 with
      | started q _ hpc => exact hs.1.settled.clear.starting i q hpc
  have hend := Threads.history_invariant_of hstep
    (h := []) ⟨h, fun _ => not_mem_nil⟩ events hall
  exact hend.2 j

theorem begun_run (h : Begun w i s)
    (hall : (threads slots).machine.Throughout (Unoffering slots w) s events)
    (hreturned : ∀ result, (i, .returned result) ∉ (threads slots).history s events) :
    Begun w i ((threads slots).machine.run s events) := by
  have hstep (s : Threads.State Kernel Point) (j : Nat) (input : Input) (hs : Begun w i s)
      (hallowed : Unoffering slots w s (j, input))
      (hnotes : ∀ n ∈ (threads slots).notes s j input, ∀ result, n ≠ (i, .returned result)) :
      Begun w i ((threads slots).step s j input) := by
    refine ⟨placed_step hs.placed j input,
      fresh_step hs.fresh hallowed.1 hallowed.offerless.1, ?_⟩
    by_cases hj : i = j
    · subst hj
      rw [Threads.step_pc_self]
      rcases deciding_step slots s.shared input hs.deciding with hnext | ⟨result, hmem⟩
      · exact hnext
      · exact absurd rfl (hnotes _ (Threads.mem_notes.mpr ⟨rfl, hmem⟩) result)
    · rw [Threads.step_pc_of_ne hj]
      exact hs.deciding
  have hsilent : (threads slots).machine.Throughout (fun s e =>
      ∀ n ∈ (threads slots).notes s e.1 e.2, ∀ result, n ≠ (i, .returned result)) s events :=
    Threads.throughout_of_history fun n hn result heq => hreturned result (heq ▸ hn)
  refine Threads.run_invariant_of (Begun w i) ?_ h (hall.and hsilent)
  exact fun s j input hs hallowed => hstep s j input hs hallowed.1 hallowed.2

theorem begun_of_cancel (hplaced : Placed w s) (hallowed : CancelsAll w s (i, input))
    (hpc : s.pc i = .cancellingDelayable false w) (hgoes : input.Goes) :
    Begun w i ((threads slots).step s i input) := by
  refine ⟨placed_step hplaced i input, fresh_of_cancel hallowed hpc hgoes, ?_⟩
  rw [Threads.step_pc_self, hpc]
  cases input with
  | call c => exact absurd hgoes id
  | go flag now => exact .inl ⟨_, rfl⟩

theorem notes_of_cancel (hpc : s.pc i = .cancellingDelayable false w) (hgoes : input.Goes) :
    (threads slots).notes s i input = [(i, .delayCanceled false w)] := by
  rw [Threads.notes, hpc]
  cases input with
  | call c => exact absurd hgoes id
  | go flag now => rfl

theorem unoffering_of_history
    (hallowed : (threads slots).machine.Throughout (CancelsAll w) s events)
    (hnotes : ∀ n ∈ (threads slots).history s events, ¬ n.2.Offers w) :
    (threads slots).machine.Throughout (Unoffering slots w) s events :=
  hallowed.and (Threads.throughout_of_history hnotes)

theorem not_started_of_begun (h : Begun w i s)
    (hallowed : (threads slots).machine.Throughout (CancelsAll w) s events)
    {mid post : List (Nat × Note)} {rc : Int} (hrc : rc = 0 ∨ rc = 1)
    (hhistory : (threads slots).history s events = mid ++ (i, .returned rc) :: post)
    (hfirst : ∀ result, (i, .returned result) ∉ mid)
    (hlast : ∀ n ∈ mid ++ post, ¬ n.2.Offers w) (j : Nat) : (j, .started w) ∉ post := by
  obtain ⟨before, ⟨i', input⟩, after, l, r, rfl, hnotes, rfl, rfl⟩ :=
    Threads.exists_step_of_history hhistory
  obtain ⟨hbefore, hreturn⟩ := (Machine.throughout_append _).mp hallowed
  have hbegun : Begun w i ((threads slots).machine.run s before) :=
    begun_run h (unoffering_of_history hbefore fun n hn => hlast n (by simp [hn]))
      fun result hmem => hfirst result (mem_append_left _ hmem)
  have hmem : (i, .returned rc) ∈
      (threads slots).notes ((threads slots).machine.run s before) i' input := by
    rw [hnotes]
    exact mem_append_right _ mem_cons_self
  obtain ⟨rfl, hnote⟩ := Threads.mem_notes.mp hmem
  obtain ⟨hgoes, hanswers⟩ := answers_of_returned hbegun.deciding hrc hnote
  have hover : Over w ((threads slots).machine.run s before) :=
    ⟨hbegun.placed, (hreturn.1 hgoes).2 hanswers, hbegun.fresh⟩
  -- from the state before the return on, nothing offers the item
  have hrest : (threads slots).history ((threads slots).machine.run s before)
      ((i, input) :: after) = l ++ (i, .returned rc) :: (r ++ (threads slots).history
        ((threads slots).step ((threads slots).machine.run s before) i input) after) := by
    rw [Threads.history_cons]
    rw [hnotes, append_assoc, cons_append]
  have hall := unoffering_of_history hreturn fun n hn => by
    rw [hrest] at hn
    rcases mem_append.mp hn with hn | hn
    · exact hlast n (by simp [hn])
    · rcases mem_cons.mp hn with rfl | hn
      · exact not_or.mpr ⟨nofun, nofun⟩
      · exact hlast n (mem_append_right _ hn)
  have hnone := not_started_of_over hover hall j
  rw [hrest] at hnone
  exact fun hmem => hnone (mem_append_right _ (mem_cons_of_mem _ hmem))

/-- **Cancellation without waiting.** In a run in which no cancellation takes the generation of a
request, and nothing is under way that the generation does not reach when one returns 0 or 1: when
`k_work_cancel_delayable` has returned 0 or 1, the handler is not called any more unless a schedule
or a submit has come after it. -/
theorem cancel_delayable_settled (slots w i : Nat) (events : List (Nat × Input))
    (hallowed : (threads slots).machine.Throughout (CancelsAll w) initial events)
    (pre mid post : List (Nat × Note)) (rc : Int) (hrc : rc = 0 ∨ rc = 1)
    (hhistory : (threads slots).history initial events =
      pre ++ (i, .delayCanceled false w) :: (mid ++ (i, .returned rc) :: post))
    (hfirst : ∀ result, (i, .returned result) ∉ mid)
    (hlast : ∀ n ∈ mid ++ post, ¬ n.2.Offers w) (j : Nat) : (j, .started w) ∉ post := by
  obtain ⟨before, ⟨i', input⟩, rest, l, r, rfl, hnotes, -, hrest⟩ :=
    Threads.exists_step_of_history hhistory
  obtain ⟨-, hcall, hallowed⟩ := (Machine.throughout_append _).mp hallowed
  have hmem : (i, .delayCanceled false w) ∈
      (threads slots).notes ((threads slots).machine.run initial before) i' input := by
    rw [hnotes]
    exact mem_append_right _ mem_cons_self
  obtain ⟨rfl, hnote⟩ := Threads.mem_notes.mp hmem
  obtain ⟨hpc, hgoes⟩ : ((threads slots).machine.run initial before).pc i =
      .cancellingDelayable false w ∧ input.Goes := by
    cases notes_step slots _ _ _ hnote with
    | delayCanceled _ _ hpc hgoes => exact ⟨hpc, hgoes⟩
  have hbegun : Begun w i
      ((threads slots).step ((threads slots).machine.run initial before) i input) :=
    begun_of_cancel (placed_run slots w before) hcall hpc hgoes
  obtain rfl : r = [] := by
    have hlength := congrArg List.length (hnotes.symm.trans (notes_of_cancel hpc hgoes))
    rw [length_append, length_cons, length_singleton] at hlength
    exact length_eq_zero_iff.mp (by omega)
  exact not_started_of_begun hbegun hallowed hrc hrest.symm hfirst hlast j

/-- An item is scheduled, and the cancellation called. -/
def scheduleAndCancel : List (Nat × Input) :=
  [(0, .call (.schedule 0 0 5 false)), (0, .go true 0), (0, .go true 0), (0, .go true 0),
    (0, .go true 0), (0, .call (.cancelDelayable 0))]

/-- The cancellation returns, the timer thread leaves, and the item is waited for. -/
def cancelReturns : List (Nat × Input) :=
  [(0, .go true 0), (0, .go true 0), (2, .go true 0), (2, .go true 0), (2, .go true 0),
    (0, .call (.flush 0)), (0, .go true 0)]

/-- The sections that are conditional on nothing. -/
def Point.Free : Point → Prop
  | .cancelling _ _ => False
  | .cancellingDelayable _ _ => False
  | .marking _ _ _ => False
  | _ => True

theorem cancelsAll_of_free {e : Nat × Input} (h : (s.pc e.1).Free) : CancelsAll w s e := by
  intro _
  refine ⟨?_, ?_⟩
  · rintro (⟨c, hpc⟩ | ⟨sync, hpc⟩) <;> rw [hpc] at h <;> exact absurd h id
  · rintro (hpc | ⟨hpc, -⟩) <;> rw [hpc] at h <;> exact absurd h id

theorem not_onward_of_first (slots : Nat) (events : List (Nat × Input)) (h : ∀ e ∈ events, e.1 = 0)
    (hpc : ¬ (((threads slots).machine.run initial events).pc 0).Onward) (j : Nat) :
    ¬ (((threads slots).machine.run initial events).pc j).Onward := by
  by_cases hj : j = 0
  · rw [hj]
    exact hpc
  · rw [Threads.run_pc_of_ne fun e he => (h e he).trans_ne (Ne.symm hj), initial]
    dsimp only
    repeat' split
    all_goals exact id

theorem not_live_scheduleAndCancel :
    ¬ Live 0 2 ((threads 1).machine.run initial scheduleAndCancel) := by
  have honward := not_onward_of_first 1 scheduleAndCancel (by decide) id
  intro hlive
  cases hlive with
  | calls j q hpc => exact honward j (by rw [hpc]; trivial)
  | fills j slot q hpc => exact honward j (by rw [hpc]; trivial)
  | sleeps slot hwork hgeneration =>
    cases slot with
    | zero => exact absurd hgeneration (by decide)
    | succ slot => cases hwork
  | compares j slot hwork hgeneration hpc => exact honward j (by rw [hpc]; trivial)

theorem clear_marking : Clear 0 ((threads 1).machine.run initial
    (scheduleAndCancel ++ [(0, .go true 0)])) := by
  have honward := not_onward_of_first 1 (scheduleAndCancel ++ [(0, .go true 0)]) (by decide) id
  refine ⟨rfl, fun j q hpc => honward j (by rw [hpc]; trivial), fun j who q hpc => ?_⟩
  cases who with
  | call => rfl
  | schedule => exact absurd (by rw [hpc]; trivial) (honward j)
  | timer slot => exact absurd (by rw [hpc]; trivial) (honward j)

theorem throughout_cancelReturns : (threads 1).machine.Throughout (CancelsAll 0) initial
    (scheduleAndCancel ++ cancelReturns) := by
  refine (Machine.throughout_append _).mpr ⟨?_, ?_, ?_, ?_⟩
  · refine ⟨?_, ?_, ?_, ?_, ?_, ?_, trivial⟩ <;> exact cancelsAll_of_free trivial
  · exact fun _ => ⟨fun _ => not_live_scheduleAndCancel, by rintro (hpc | ⟨hpc, -⟩) <;> cases hpc⟩
  · refine fun _ => ⟨?_, fun _ => clear_marking⟩
    rintro (⟨c, hpc⟩ | ⟨sync, hpc⟩) <;> cases hpc
  · refine ⟨?_, ?_, ?_, ?_, ?_, trivial⟩ <;> exact cancelsAll_of_free trivial

theorem cancel_delayable_settled_once :
    (1, Note.started 0) ∉ [(0, .called (.flush 0)), (0, .returned 0)] := by
  refine cancel_delayable_settled 1 0 0 (scheduleAndCancel ++ cancelReturns)
    throughout_cancelReturns
    [(0, .called (.schedule 0 0 5 false)), (0, .scheduled 0), (0, .returned 1),
      (0, .called (.cancelDelayable 0))] [] _ 1 (.inr rfl) ?_ (fun _ => not_mem_nil) ?_ 1
  · decide
  · decide

/-- An item is scheduled and submitted, and the cancellation returns 1 for the schedule. -/
theorem canceled_item_started :
    ∃ events pre mid post, ∃ rc : Int, (threads 1).history initial events =
        pre ++ (0, .delayCanceled false 0) :: (mid ++ (0, .returned rc) :: post) ∧
      (rc = 0 ∨ rc = 1) ∧ (∀ result, (0, .returned result) ∉ mid) ∧
      (∀ n ∈ mid ++ post, ¬ n.2.Offers 0) ∧ (1, .started 0) ∈ post := by
  refine ⟨[(0, .call (.schedule 0 0 5 false)), (0, .go true 0), (0, .go true 0), (0, .go true 0),
    (0, .go true 0), (0, .call (.submit 0 0)), (0, .go true 0), (0, .go true 0),
    (0, .call (.cancelDelayable 0)), (0, .go true 0), (0, .go true 0),
    (1, .go true 0), (1, .go true 0), (1, .go true 0)],
    [(0, .called (.schedule 0 0 5 false)), (0, .scheduled 0), (0, .returned 1),
      (0, .called (.submit 0 0)), (0, .submitted .call 0), (0, .returned 1),
      (0, .called (.cancelDelayable 0))], [], [(1, .started 0)], 1, ?_, .inr rfl,
    fun _ => not_mem_nil, ?_, mem_singleton_self _⟩
  · decide
  · decide

/-- The timer thread has compared the generations and not submitted yet: the cancellation returns
0. -/
example : (threads 1).history initial
    [(0, .call (.schedule 0 0 5 false)), (0, .go true 0), (0, .go true 0), (0, .go true 0),
      (0, .go true 0), (2, .go true 5), (2, .go true 5), (2, .go true 5),
      (0, .call (.cancelDelayable 0)), (0, .go true 5), (0, .go true 5), (0, .go true 5),
      (2, .go true 5), (2, .go true 5), (1, .go true 5), (1, .go true 5), (1, .go true 5)] =
    [(0, .called (.schedule 0 0 5 false)), (0, .scheduled 0), (0, .returned 1),
      (0, .called (.cancelDelayable 0)), (0, .delayCanceled false 0), (0, .canceled 0),
      (0, .returned 0), (2, .submitted (.timer 0) 0), (1, .started 0)] := by
  decide

end Brickwright.Bluetooth.WorkQueue
