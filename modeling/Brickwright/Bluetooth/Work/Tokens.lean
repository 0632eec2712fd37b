import Brickwright.Bluetooth.Work.Slots

/-!
# Where an item is

While an item is pending it is in one place: in the hands of the thread that is about to queue it,
in a queue, or in the hands of the worker that has got it and not looked at its flags yet
(`Placed`). `place_step` says what a section can do to that; everything about queued items follows
from it.
-/

namespace Brickwright.Bluetooth.WorkQueue

open List

variable {slots : Nat} {k : Kernel} {pc : Point} {input : Input} {w : Nat}

/-- The thread has the item in its hands. -/
def Point.Carries (pc : Point) (w : Nat) : Prop :=
  match pc with
  | .putting _ _ w' => w' = w
  | .got _ w' => w' = w
  | _ => False

def Kernel.count (k : Kernel) (w q : Nat) : Nat := (k.fifo q).count w

/-- What a section does to the place of an item. -/
inductive Moves (w : Nat) (k : Kernel) (pc : Point) (k' : Kernel) (pc' : Point) : Prop
  | stays (hpending : (k'.work w).pending = (k.work w).pending) (hqueue : k'.count w = k.count w)
      (hhand : pc'.Carries w ↔ pc.Carries w)
  | submits (hidle : (k.work w).pending = false) (hpending : (k'.work w).pending = true)
      (hqueue : k'.count w = k.count w) (hhand : ¬ pc.Carries w) (hhand' : pc'.Carries w)
  | puts (q : Nat) (hpending : (k'.work w).pending = (k.work w).pending)
      (hqueue : k'.count w = Function.update (k.count w) q (k.count w q + 1))
      (hhand : pc.Carries w) (hhand' : ¬ pc'.Carries w)
  | gets (q : Nat) (hpending : (k'.work w).pending = (k.work w).pending)
      (hqueue : k.count w = Function.update (k'.count w) q (k'.count w q + 1))
      (hhand : ¬ pc.Carries w) (hhand' : pc'.Carries w)
  | takes (hpending : (k'.work w).pending = false) (hqueue : k'.count w = k.count w)
      (hhand : pc.Carries w) (hhand' : ¬ pc'.Carries w)

theorem moves_of_work {k' : Kernel} {pc' : Point}
    (hpending : (k'.work w).pending = (k.work w).pending) (hfifo : k'.fifo = k.fifo)
    (hhand : ¬ pc.Carries w) (hhand' : ¬ pc'.Carries w) : Moves w k pc k' pc' := by
  refine .stays hpending ?_ (iff_of_false hhand' hhand)
  funext q
  rw [Kernel.count, Kernel.count, hfifo]

theorem pending_setWork {w' : Nat} {f : Work → Work} (h : ∀ x, (f x).pending = x.pending) :
    ((k.setWork w' f).work w).pending = (k.work w).pending := by
  by_cases hw : w = w'
  · subst hw
    rw [Kernel.setWork_self, h]
  · rw [Kernel.setWork_of_ne hw]

theorem moves_of_same {pc pc' : Point} (h : ¬ pc.Carries w) (h' : ¬ pc'.Carries w) :
    Moves w k pc k pc' :=
  moves_of_work rfl rfl h h'

theorem moves_of_setWork {pc pc' : Point} {w' : Nat} {f : Work → Work}
    (hf : ∀ x, (f x).pending = x.pending) (h : ¬ pc.Carries w) (h' : ¬ pc'.Carries w) :
    Moves w k pc (k.setWork w' f) pc' :=
  moves_of_work (pending_setWork hf) rfl h h'

theorem count_setFifo {q : Nat} {items : List Nat} :
    (k.setFifo q items).count w = Function.update (k.count w) q (items.count w) := by
  funext q'
  by_cases hq : q' = q
  · subst hq
    rw [Kernel.count, Kernel.setFifo_self, Function.update_self]
  · rw [Kernel.count, Kernel.setFifo_of_ne hq, Function.update_of_ne hq, Kernel.count]

theorem moves_putting {s : Submitter} {q w' : Nat} {notes : List Note} {result : Int} :
    Moves w k (.putting s q w')
      (submitReturns (k.setFifo q (k.fifo q ++ [w'])) notes result s).1
      (submitReturns (k.setFifo q (k.fifo q ++ [w'])) notes result s).2.2 := by
  have hkernel : (submitReturns (k.setFifo q (k.fifo q ++ [w'])) notes result s).1 =
      k.setFifo q (k.fifo q ++ [w']) := by cases s <;> rfl
  have hhand' :
      ¬ (submitReturns (k.setFifo q (k.fifo q ++ [w'])) notes result s).2.2.Carries w := by
    cases s <;> exact id
  rw [hkernel]
  by_cases hw : w' = w
  · subst hw
    refine .puts q rfl ?_ rfl hhand'
    rw [count_setFifo, count_append, count_singleton_self]
    rfl
  · refine .stays rfl ?_ (iff_of_false hhand' hw)
    rw [count_setFifo, count_append, count_singleton, if_neg (by simpa using hw),
      Nat.add_zero]
    exact Function.update_eq_self q _

theorem moves_getting {q w' : Nat} {rest : List Nat} (hfifo : k.fifo q = w' :: rest) :
    Moves w k (.getting q) (k.setFifo q rest) (.got q w') := by
  by_cases hw : w' = w
  · subst hw
    refine .gets q rfl ?_ id rfl
    rw [count_setFifo, Function.update_self, Function.update_idem]
    have hcount : k.count w' q = rest.count w' + 1 := by
      rw [Kernel.count, hfifo, count_cons_self]
    rw [← hcount, Function.update_eq_self]
  · refine .stays rfl ?_ (iff_of_false hw id)
    have hcount : k.count w q = rest.count w := by
      rw [Kernel.count, hfifo, count_cons_of_ne hw]
    rw [count_setFifo, ← hcount, Function.update_eq_self]

/-- **The step lemma for the place of an item.** -/
theorem place_step (slots : Nat) (k : Kernel) (pc : Point) (input : Input) (w : Nat) :
    Moves w k pc (body slots k pc input).1 (body slots k pc input).2.2 := by
  have hact := body_act slots k pc input
  generalize body slots k pc input = r at hact ⊢
  cases hact with
  | stays => exact .stays rfl rfl Iff.rfl
  | calls c => cases c <;> exact moves_of_same id id
  | passes h => cases h <;> exact moves_of_same id id
  | marks h => cases h <;> exact moves_of_work rfl rfl id id
  | queued s => cases s <;> exact moves_of_same id id
  | puts => exact moves_putting
  | submits s q w' hidle =>
    by_cases hw : w' = w
    · subst hw
      refine .submits hidle ?_ rfl id rfl
      rw [Kernel.setWork_self]
    · refine moves_of_work ?_ rfl id hw
      rw [Kernel.setWork_of_ne (Ne.symm hw)]
  | schedules =>
    dsimp only
    refine moves_of_setWork (fun _ => rfl) id ?_
    split <;> exact id
  | cancels c =>
    rw [cancelLocked_kernel]
    refine moves_of_setWork (fun _ => rfl) id ?_
    cases c <;> exact id
  | gets q w' rest hfifo => exact moves_getting hfifo
  | drops q w' | takes q w' =>
    by_cases hw : w' = w
    · subst hw
      refine .takes ?_ rfl rfl id
      rw [Kernel.setWork_self]
    · refine moves_of_work ?_ rfl hw id
      rw [Kernel.setWork_of_ne (Ne.symm hw)]
  | fails | cancelsDelayable | finishes | compares =>
    dsimp only
    exact moves_of_setWork (fun _ => rfl) id id
  | _ => exact moves_of_work rfl rfl id id

/-! ## One place -/

inductive Place where
  | hand (i : Nat)
  | queue (q : Nat)
  deriving DecidableEq

variable {s : Threads.State Kernel Point} {p : Place}

def At (s : Threads.State Kernel Point) (w : Nat) : Place → Prop
  | .hand i => (s.pc i).Carries w
  | .queue q => 0 < s.shared.count w q

/-- An item is in one place while it is pending, and in none otherwise. -/
structure Placed (w : Nat) (s : Threads.State Kernel Point) : Prop where
  nowhere : (s.shared.work w).pending = false → ∀ p, ¬ At s w p
  somewhere : (s.shared.work w).pending = true → ∃ p, At s w p
  unique : ∀ p p', At s w p → At s w p' → p = p'
  once : ∀ q, s.shared.count w q ≤ 1

theorem placed_initial (w : Nat) : Placed w initial := by
  have hcount (q : Nat) : initial.shared.count w q = 0 := rfl
  have hnone (p : Place) : ¬ At initial w p := by
    cases p with
    | hand i =>
      change ¬ (initial.pc i).Carries w
      rw [initial]
      dsimp only
      split
      · exact id
      · split <;> exact id
    | queue q => exact Nat.lt_irrefl 0
  exact ⟨fun _ => hnone, by rintro ⟨⟩, fun p _ h => absurd h (hnone p),
    fun q => by rw [hcount]; omega⟩

theorem Placed.pending_of_at (h : Placed w s) (hp : At s w p) :
    (s.shared.work w).pending = true := by
  by_contra hpending
  exact h.nowhere (Bool.eq_false_iff.mpr hpending) p hp

variable {i : Nat}

theorem at_hand_of_ne {j : Nat} (hj : j ≠ i) (input : Input) :
    At ((threads slots).step s i input) w (.hand j) ↔ At s w (.hand j) := by
  rw [At, At, Threads.step_pc_of_ne hj]

theorem placed_of_only {s' : Threads.State Kernel Point}
    (hpending : (s'.shared.work w).pending = true) (hp : At s' w p)
    (honly : ∀ p', At s' w p' → p' = p) (honce : ∀ q, s'.shared.count w q ≤ 1) : Placed w s' where
  nowhere hfalse := by
    rw [hpending] at hfalse
    cases hfalse
  somewhere _ := ⟨p, hp⟩
  unique p' p'' hp' hp'' := (honly p' hp').trans (honly p'' hp'').symm
  once := honce

/-- **Every section keeps an item in its place.** -/
theorem placed_step (h : Placed w s) (i : Nat) (input : Input) :
    Placed w ((threads slots).step s i input) := by
  have hself : ((threads slots).step s i input).pc i = (body slots s.shared (s.pc i) input).2.2 :=
    Threads.step_pc_self i input
  have hcount (q : Nat) (hzero : ¬ At s w (.queue q)) : s.shared.count w q = 0 :=
    Nat.eq_zero_of_not_pos hzero
  cases place_step slots s.shared (s.pc i) input w with
  | stays hpending hqueue hhand =>
    have hat (p : Place) : At ((threads slots).step s i input) w p ↔ At s w p := by
      cases p with
      | hand j =>
        by_cases hj : j = i
        · subst hj
          rw [At, At, hself, hhand]
        · exact at_hand_of_ne hj input
      | queue q => exact iff_of_eq (congrArg (0 < ·) (congrFun hqueue q))
    refine ⟨fun hp p => ?_, fun hp => ?_, fun p p' hp hp' => ?_, fun q => ?_⟩
    · rw [hat]
      exact h.nowhere (hpending.symm.trans hp) p
    · obtain ⟨p, hp⟩ := h.somewhere (hpending.symm.trans hp)
      exact ⟨p, (hat p).mpr hp⟩
    · exact h.unique p p' ((hat p).mp hp) ((hat p').mp hp')
    · exact Nat.le_trans (Nat.le_of_eq (congrFun hqueue q)) (h.once q)
  | submits hidle hpending hqueue hhand hhand' =>
    have hnone := h.nowhere hidle
    -- an idle item is nowhere, so the hand of this thread is its only place
    have hzero (q : Nat) : ((threads slots).step s i input).shared.count w q = 0 :=
      (congrFun hqueue q).trans (hcount q (hnone _))
    refine placed_of_only (p := .hand i) hpending (by rw [At, hself]; exact hhand') ?_
      fun q => Nat.le_trans (Nat.le_of_eq (hzero q)) (Nat.zero_le 1)
    intro p' hp'
    cases p' with
    | hand j =>
      by_contra hj
      exact hnone _ ((at_hand_of_ne (fun h => hj (congrArg Place.hand h)) input).mp hp')
    | queue q => exact absurd hp' (by rw [At, hzero]; exact Nat.lt_irrefl 0)
  | puts q hpending hqueue hhand hhand' =>
    have hmine : At s w (.hand i) := hhand
    -- held here, it was in no queue, so the entry that is put is the only one
    have hzero (q' : Nat) : s.shared.count w q' = 0 :=
      hcount q' fun hq' => Place.noConfusion (h.unique _ _ hq' hmine)
    have hafter (q' : Nat) : ((threads slots).step s i input).shared.count w q' =
        if q' = q then 1 else 0 := by
      change (body slots s.shared (s.pc i) input).1.count w q' = _
      rw [hqueue, hzero q, Function.update_apply, hzero q']
    refine placed_of_only (p := .queue q) (hpending.trans (h.pending_of_at hmine))
      (by rw [At, hafter, if_pos rfl]; exact Nat.one_pos) ?_
      fun q' => by rw [hafter]; split <;> omega
    intro p' hp'
    cases p' with
    | hand j =>
      by_cases hj : j = i
      · subst hj
        rw [At, hself] at hp'
        exact absurd hp' hhand'
      · exact absurd (h.unique _ _ ((at_hand_of_ne hj input).mp hp') hmine)
          fun heq => hj (Place.hand.inj heq)
    | queue q' =>
      rw [At, hafter] at hp'
      split at hp'
      · next hq => rw [hq]
      · exact absurd hp' (Nat.lt_irrefl 0)
  | gets q hpending hqueue hhand hhand' =>
    have hmine : At s w (.queue q) := by
      rw [At, hqueue, Function.update_self]
      exact Nat.succ_pos _
    -- the entry that is taken out was the only one
    have hafter (q' : Nat) : ((threads slots).step s i input).shared.count w q' = 0 := by
      change (body slots s.shared (s.pc i) input).1.count w q' = 0
      have hq' := congrFun hqueue q'
      by_cases hq : q' = q
      · subst hq
        rw [Function.update_self] at hq'
        have honce := h.once q'
        omega
      · rw [Function.update_of_ne hq] at hq'
        rw [← hq']
        exact hcount q' fun hat => hq (Place.queue.inj (h.unique _ _ hat hmine))
    refine placed_of_only (p := .hand i) (hpending.trans (h.pending_of_at hmine))
      (by rw [At, hself]; exact hhand') ?_
      fun q' => Nat.le_trans (Nat.le_of_eq (hafter q')) (Nat.zero_le 1)
    intro p' hp'
    cases p' with
    | hand j =>
      by_contra hj
      exact Place.noConfusion
        (h.unique _ _ ((at_hand_of_ne (fun h => hj (congrArg Place.hand h)) input).mp hp') hmine)
    | queue q' => exact absurd hp' (by rw [At, hafter]; exact Nat.lt_irrefl 0)
  | takes hpending hqueue hhand hhand' =>
    have hmine : At s w (.hand i) := hhand
    have hnone (p : Place) : ¬ At ((threads slots).step s i input) w p := by
      intro hp
      cases p with
      | hand j =>
        by_cases hj : j = i
        · subst hj
          rw [At, hself] at hp
          exact hhand' hp
        · exact hj (Place.hand.inj (h.unique _ _ ((at_hand_of_ne hj input).mp hp) hmine))
      | queue q =>
        have hq : At s w (.queue q) := by
          rw [At, ← congrFun hqueue q]
          exact hp
        exact Place.noConfusion (h.unique _ _ hq hmine)
    refine ⟨fun _ => hnone, fun htrue => ?_, fun p _ hp => absurd hp (hnone p), fun q => ?_⟩
    · rw [show (((threads slots).step s i input).shared.work w).pending = false from hpending]
        at htrue
      cases htrue
    · exact Nat.le_trans (Nat.le_of_eq (congrFun hqueue q)) (h.once q)

theorem placed_run (slots w : Nat) (events : List (Nat × Input)) :
    Placed w ((threads slots).machine.run initial events) := by
  have hstep (s : Threads.State Kernel Point) (i : Nat) (input : Input) (h : Placed w s) :
      Placed w ((threads slots).step s i input) := placed_step h i input
  exact Threads.run_invariant hstep (placed_initial w) events

/-!
## Whoever offers an item

An item is offered to its handler by a caller in `k_work_submit_to_queue` or in `schedule`
(`Point.task`), or by a timer thread, and to that the slot refers to the item (`Unslotted`).
While nobody offers it, an item that is not queued stays so (`pending_of_unoffered`).
-/

variable {slots : Nat} {k : Kernel} {pc : Point} {input : Input} {w : Nat}
  {s : Threads.State Kernel Point} {i : Nat}

inductive Task where
  | submit (w : Nat)
  | schedule (w : Nat)
  deriving DecidableEq, Repr

def Submitter.task (w : Nat) : Submitter → Option Task
  | .call => some (.submit w)
  | .schedule => some (.schedule w)
  | .timer _ => none

def Point.task : Point → Option Task
  | .submitting who _ w => who.task w
  | .putting who _ w => who.task w
  | .scheduling _ w _ _ => some (.schedule w)
  | .allocating _ w _ => some (.schedule w)
  | .filling _ _ w _ => some (.schedule w)
  | .creating _ w _ => some (.schedule w)
  | .undoing _ w _ => some (.schedule w)
  | .failing w _ => some (.schedule w)
  | _ => none

def Call.task : Call → Option Task
  | .submit _ w => some (.submit w)
  | .schedule _ w _ _ => some (.schedule w)
  | _ => none

inductive Tasks (pc : Point) (input : Input) (pc' : Point) : Prop
  | stays (htask : pc'.task = pc.task)
  | ends (htask : pc'.task = none)
  | begins (c : Call) (hinput : input = .call c) (htask : pc'.task = c.task)

theorem tasks_submitReturns {notes : List Note} {result : Int} {who : Submitter} :
    Tasks pc input (submitReturns k notes result who).2.2 := by
  cases who <;> exact .ends rfl

/-- **The step lemma for the calls.** -/
theorem tasks_step (slots : Nat) (k : Kernel) (pc : Point) (input : Input) :
    Tasks pc input (body slots k pc input).2.2 := by
  have hact := body_act slots k pc input
  generalize body slots k pc input = r at hact ⊢
  cases hact with
  | stays => exact .stays rfl
  | calls c => exact .begins c rfl (by cases c <;> rfl)
  | passes h => cases h <;> first | exact .stays rfl | exact .ends rfl
  | marks h => cases h <;> exact .ends rfl
  | queued => exact tasks_submitReturns
  | puts => exact tasks_submitReturns
  | schedules =>
    split <;> exact .stays rfl
  | cancels c => cases c <;> exact .ends rfl
  | submits | allocates | fills | undoes => exact .stays rfl
  | _ => exact .ends rfl

def NoTask (s : Threads.State Kernel Point) (task : Task) : Prop :=
  ∀ i, (s.pc i).task ≠ some task

def Input.Avoids (input : Input) (task : Task) : Prop :=
  match input with
  | .call c => c.task ≠ some task
  | .go _ _ => True

instance (task : Task) : Decidable (input.Avoids task) :=
  match input with
  | .call c => inferInstanceAs (Decidable (c.task ≠ some task))
  | .go _ _ => inferInstanceAs (Decidable True)

theorem noTask_initial (task : Task) : NoTask initial task := by
  intro i
  rw [initial]
  dsimp only
  repeat' split
  all_goals exact fun h => by cases h

theorem noTask_step {task : Task} (h : NoTask s task) (hinput : input.Avoids task) :
    NoTask ((threads slots).step s i input) task := by
  intro j
  by_cases hj : j = i
  · subst hj
    rw [Threads.step_pc_self]
    change (body slots s.shared (s.pc j) input).2.2.task ≠ some task
    cases tasks_step slots s.shared (s.pc j) input with
    | stays htask =>
      rw [htask]
      exact h j
    | ends htask =>
      rw [htask]
      exact nofun
    | begins c hc htask =>
      subst hc
      rw [htask]
      exact hinput
  · rw [Threads.step_pc_of_ne hj]
    exact h j

/-! ### No slot -/

def Unslotted (w : Nat) (s : Threads.State Kernel Point) : Prop :=
  ∀ slot, (s.shared.requests slot).work ≠ some w

theorem unslotted_update {r : Request} {slot : Nat} (h : Unslotted w s) (hr : r.work ≠ some w)
    (hkernel : (body slots s.shared (s.pc i) input).1 = s.shared.setRequest slot r) :
    Unslotted w ((threads slots).step s i input) := by
  intro slot'
  change ((body slots s.shared (s.pc i) input).1.requests slot').work ≠ some w
  rw [hkernel]
  by_cases hslot : slot' = slot
  · subst hslot
    rwa [Kernel.setRequest_self]
  · rw [Kernel.setRequest_of_ne hslot]
    exact h slot'

theorem unslotted_step (h : Unslotted w s) (htask : NoTask s (.schedule w)) (i : Nat)
    (input : Input) : Unslotted w ((threads slots).step s i input) := by
  cases slotted_step slots s.shared (s.pc i) input with
  | stays hrequests =>
    intro slot
    change ((body slots s.shared (s.pc i) input).1.requests slot).work ≠ some w
    rcases hrequests slot with heq | heq <;> rw [heq] <;> exact h slot
  | allocates slot _ _ _ _ _ _ _ hkernel =>
    refine unslotted_update h ?_ hkernel
    exact h slot
  | fills slot q w' generation hpc _ hkernel =>
    refine unslotted_update h (fun hw => htask i ?_) hkernel
    obtain rfl := Option.some.inj hw
    rw [hpc]
    rfl
  | creates slot _ _ _ _ hkernel =>
    refine unslotted_update h ?_ hkernel
    exact h slot
  | undoes slot _ _ _ _ hkernel => exact unslotted_update h (Option.some_ne_none w).symm hkernel
  | releases slot _ _ hkernel => exact unslotted_update h (Option.some_ne_none w).symm hkernel

/-! ### No offer -/

structure Unoffered (w : Nat) (s : Threads.State Kernel Point) : Prop where
  submit : NoTask s (.submit w)
  schedule : NoTask s (.schedule w)

def Input.Withholds (input : Input) (w : Nat) : Prop :=
  input.Avoids (.submit w) ∧ input.Avoids (.schedule w)

instance : Decidable (input.Withholds w) := inferInstanceAs (Decidable (_ ∧ _))

theorem unoffered_step (h : Unoffered w s) (hinput : input.Withholds w) :
    Unoffered w ((threads slots).step s i input) :=
  ⟨noTask_step h.submit hinput.1, noTask_step h.schedule hinput.2⟩

/-- Nobody is about to submit an item that is offered by nobody and to which no slot refers. -/
theorem not_submitting (hslots : Slots slots s) (hoffered : Unoffered w s)
    (hslotted : Unslotted w s) (i : Nat) (who : Submitter) (q : Nat) :
    s.pc i ≠ .submitting who q w := by
  intro hpc
  cases who with
  | call => exact hoffered.submit i (by rw [hpc]; rfl)
  | schedule => exact hoffered.schedule i (by rw [hpc]; rfl)
  | timer slot => exact hslotted slot (hslots.brings i slot w (by rw [hpc]; exact ⟨rfl, rfl⟩))

theorem pending_of_unoffered (hplaced : Placed w s) (hslots : Slots slots s)
    (hoffered : Unoffered w s) (hslotted : Unslotted w s)
    (hpending : (s.shared.work w).pending = false) (i : Nat) (input : Input) :
    (((threads slots).step s i input).shared.work w).pending = false := by
  change ((body slots s.shared (s.pc i) input).1.work w).pending = false
  have hgot (q : Nat) : s.pc i ≠ .got q w := by
    intro hpc
    exact hplaced.nowhere hpending (.hand i) (by rw [At, hpc]; rfl)
  cases flags_step slots s.shared (s.pc i) input w with
  | stays hnext => exact hnext.trans hpending
  | submits who q hpc => exact absurd hpc (not_submitting hslots hoffered hslotted i who q)
  | cancels c hpc hnote hnext => exact hnext.trans hpending
  | drops q hpc => exact absurd hpc (hgot q)
  | takes q hpc => exact absurd hpc (hgot q)
  | finishes q hpc hpc' hwork => rw [hwork]; exact hpending

end Brickwright.Bluetooth.WorkQueue
