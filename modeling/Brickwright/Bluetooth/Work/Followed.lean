import Brickwright.Bluetooth.Work.Tokens
import Mathlib.Data.Nat.Pairing

/-!
# Every submit is followed by the handler

An item that is pending and not canceled is on its way to its handler (`Ahead`), with the thread
that is to move it on and a rank: how many items its worker has before it, and how far the worker is
with the one it has. `ahead_step`: the item is canceled, or its handler called, or it comes closer,
or it stays where it is and that thread has not moved.

An item that has been canceled and that its worker has not dropped yet is still pending:
`k_work_submit_to_queue` takes it for queued and the worker drops it.
-/

namespace Brickwright.Bluetooth.WorkQueue

open List

variable {slots : Nat} {k : Kernel} {pc : Point} {input : Input} {w : Nat}
  {s : Threads.State Kernel Point} {i : Nat}

inductive Queues (k : Kernel) (pc : Point) (k' : Kernel) : Prop
  | stays (hfifo : k'.fifo = k.fifo)
  | puts (who : Submitter) (q w : Nat) (hpc : pc = .putting who q w)
      (hfifo : k'.fifo = Function.update k.fifo q (k.fifo q ++ [w]))
  | gets (q : Nat) (hpc : pc = .getting q)
      (hfifo : k'.fifo = Function.update k.fifo q (k.fifo q).tail)

theorem queues_step (slots : Nat) (k : Kernel) (pc : Point) (input : Input) :
    Queues k pc (body slots k pc input).1 := by
  have hact := body_act slots k pc input
  generalize body slots k pc input = r at hact ⊢
  cases hact with
  | queued who => cases who <;> exact .stays rfl
  | puts who q w => cases who <;> exact .puts _ q w rfl rfl
  | cancels c => cases c <;> exact .stays rfl
  | gets q w rest hfifo =>
    refine .gets q rfl ?_
    rw [hfifo]
    rfl
  | _ => exact .stays rfl

/-! ## On the way -/

/-- How far a worker is with the item it has. -/
def phase : Point → Nat
  | .got _ _ => 4
  | .starting _ _ => 3
  | .handling _ _ => 2
  | .finishing _ _ => 1
  | _ => 0

/-- The item is on its way to its handler: the thread that is to move, and the rank. -/
inductive Ahead (w : Nat) (s : Threads.State Kernel Point) : Nat → Nat ×ₗ Nat → Prop
  | putting {i : Nat} {who : Submitter} {q : Nat} (hpc : s.pc i = .putting who q w)
      (hcanceled : (s.shared.work w).canceled = false) : Ahead w s i (toLex (1, 0))
  | queued {q : Nat} {before after : List Nat} (hfifo : s.shared.fifo q = before ++ w :: after)
      (hcanceled : (s.shared.work w).canceled = false) :
      Ahead w s (3 * q + 1) (toLex (0, 5 * before.length + 5 + phase (s.pc (3 * q + 1))))
  | got {q : Nat} (hpc : s.pc (3 * q + 1) = .got q w)
      (hcanceled : (s.shared.work w).canceled = false) : Ahead w s (3 * q + 1) (toLex (0, 2))
  | starting {q : Nat} (hpc : s.pc (3 * q + 1) = .starting q w) :
      Ahead w s (3 * q + 1) (toLex (0, 1))

theorem at_queue_iff {q : Nat} : At s w (.queue q) ↔ w ∈ s.shared.fifo q := count_pos_iff

theorem ahead_of_pending (hplaced : Placed w s) (hroles : Roles s)
    (hpending : (s.shared.work w).pending = true)
    (hcanceled : (s.shared.work w).canceled = false) : ∃ t r, Ahead w s t r := by
  obtain ⟨p, hp⟩ := hplaced.somewhere hpending
  cases p with
  | hand i =>
    rw [At] at hp
    have hrole := hroles i
    cases hpc : s.pc i <;> rw [hpc] at hp hrole
    case putting => exact ⟨_, _, .putting (by rw [hpc, show _ = w from hp]) hcanceled⟩
    case got q w' =>
      cases hp
      obtain rfl := worker_eq hrole.symm
      exact ⟨_, _, .got hpc hcanceled⟩
    all_goals exact absurd hp id
  | queue q =>
    obtain ⟨before, after, hfifo⟩ := append_of_mem (at_queue_iff.mp hp)
    exact ⟨_, _, .queued hfifo hcanceled⟩

theorem not_got_of_at (hplaced : Placed w s) {p : Place} (hp : At s w p) (hne : p ≠ .hand i)
    (q : Nat) : s.pc i ≠ .got q w := by
  intro hgot
  have hat : At s w (.hand i) := by
    rw [At, hgot]
    rfl
  exact hne (hplaced.unique _ _ hp hat)

/-- Nobody but `k_work_cancel` sets the flag of a pending item. -/
theorem canceled_stays (slots : Nat) (input : Input)
    (hpending : (k.work w).pending = true) (hcanceled : (k.work w).canceled = false)
    (hgot : ∀ q, pc ≠ .got q w) :
    .canceled w ∈ (body slots k pc input).2.1 ∨
      ((body slots k pc input).1.work w).canceled = false := by
  cases flags_step slots k pc input w with
  | stays hp hc => exact .inr (hc.trans hcanceled)
  | submits who q hpc hidle hwork =>
    rw [hpending] at hidle
    cases hidle
  | cancels c hpc hnote => exact .inl hnote
  | drops q hpc => exact absurd hpc (hgot q)
  | takes q hpc => exact absurd hpc (hgot q)
  | finishes q hpc hpc' hwork =>
    refine .inr ?_
    rw [hwork]
    exact hcanceled

theorem lex_lt {a b : Nat} (h : a < b) : toLex (0, a) < toLex ((0 : Nat), b) :=
  Prod.Lex.lt_iff.mpr (.inr ⟨rfl, h⟩)

/-- The item has been canceled, or its handler called. -/
def Settles (w : Nat) (notes : List Note) : Prop := .canceled w ∈ notes ∨ .started w ∈ notes

/-- What one section does to an item on its way. -/
def Moved (slots : Nat) (w : Nat) (s : Threads.State Kernel Point) (i : Nat) (input : Input)
    (t : Nat) (r : Nat ×ₗ Nat) : Prop :=
  Settles w (body slots s.shared (s.pc i) input).2.1 ∨
    (∃ t' r', r' < r ∧ Ahead w ((threads slots).step s i input) t' r') ∨
    Ahead w ((threads slots).step s i input) t r ∧ ¬ (i = t ∧ input.Goes)

theorem moved_of_still {t : Nat} {r : Nat ×ₗ Nat} {c : Call} (h : Ahead w s t r)
    (hstill : body slots s.shared (s.pc i) (.call c) = (s.shared, [], s.pc i)) :
    Moved slots w s i (.call c) t r := by
  refine .inr (.inr ⟨?_, fun h => h.2⟩)
  rw [(Threads.step_of_still (m := threads slots) hstill).1]
  exact h

theorem ahead_step_putting (hplaced : Placed w s) {t : Nat} {who : Submitter} {q : Nat}
    (hpc : s.pc t = .putting who q w) (hcanceled : (s.shared.work w).canceled = false)
    (i : Nat) (input : Input) : Moved slots w s i input t (toLex (1, 0)) := by
  have hat : At s w (.hand t) := by
    rw [At, hpc]
    rfl
  by_cases hi : i = t
  · subst hi
    cases input with
    | call c =>
      refine moved_of_still (.putting hpc hcanceled) ?_
      rw [hpc]
      rfl
    | go flag now =>
      have hkernel : ((threads slots).step s i (.go flag now)).shared =
          s.shared.setFifo q (s.shared.fifo q ++ [w]) := by
        rw [Threads.step, hpc]
        cases who <;> rfl
      have hfifo : ((threads slots).step s i (.go flag now)).shared.fifo q =
          s.shared.fifo q ++ w :: [] := by rw [hkernel, Kernel.setFifo_self]
      refine .inr (.inl ⟨_, _, ?_, .queued hfifo ?_⟩)
      · exact Prod.Lex.lt_iff.mpr (.inl Nat.one_pos)
      · rw [hkernel]
        exact hcanceled
  · have hgot := not_got_of_at (i := i) hplaced hat fun h => hi (Place.hand.inj h).symm
    rcases canceled_stays slots input (hplaced.pending_of_at hat) hcanceled hgot
      with hnote | hcanceled'
    · exact .inl (.inl hnote)
    · have hpc' : ((threads slots).step s i input).pc t = .putting who q w := by
        rw [Threads.step_pc_of_ne (Ne.symm hi)]
        exact hpc
      exact .inr (.inr ⟨.putting hpc' hcanceled', fun h => hi h.1⟩)

theorem ahead_step_worker (hplaced : Placed w s) (hroles : Roles s) {q : Nat}
    {before after : List Nat} (hfifo : s.shared.fifo q = before ++ w :: after)
    (hcanceled : (s.shared.work w).canceled = false) (input : Input) :
    Moved slots w s (3 * q + 1) input (3 * q + 1)
      (toLex (0, 5 * before.length + 5 + phase (s.pc (3 * q + 1)))) := by
  have hat : At s w (.queue q) := by
    rw [at_queue_iff, hfifo]
    exact mem_append_right _ mem_cons_self
  have hgot := not_got_of_at (i := 3 * q + 1) hplaced hat nofun
  have hrole := (hroles (3 * q + 1)).trans (roleOf_worker q)
  -- the worker is behind the queue: it comes closer to its next look at it
  have hcloser (hnext : (body slots s.shared (s.pc (3 * q + 1)) input).1.fifo = s.shared.fifo)
      (hphase : phase (body slots s.shared (s.pc (3 * q + 1)) input).2.2 <
        phase (s.pc (3 * q + 1))) :
      Moved slots w s (3 * q + 1) input (3 * q + 1)
        (toLex (0, 5 * before.length + 5 + phase (s.pc (3 * q + 1)))) := by
    rcases canceled_stays slots input (hplaced.pending_of_at hat) hcanceled hgot
      with hnote | hcanceled'
    · exact .inl (.inl hnote)
    · refine .inr (.inl ⟨_, _, ?_, .queued ((congrFun hnext q).trans hfifo) hcanceled'⟩)
      rw [Threads.step_pc_self]
      exact lex_lt (Nat.add_lt_add_left hphase _)
  cases input with
  | call c =>
    refine moved_of_still (.queued hfifo hcanceled) ?_
    rcases worker_points hrole with hpc | ⟨w', hpc | hpc | hpc | hpc⟩ <;> rw [hpc] <;> rfl
  | go flag now =>
    rcases worker_points hrole with hpc | ⟨w', hpc | hpc | hpc | hpc⟩
    · cases before with
      | nil =>
        have hlt : toLex (0, 2) <
            toLex ((0 : Nat), 5 * ([] : List Nat).length + 5 + phase (s.pc (3 * q + 1))) :=
          lex_lt (by omega)
        refine .inr (.inl ⟨3 * q + 1, toLex (0, 2), hlt, .got (q := q) ?_ ?_⟩)
        · rw [Threads.step_pc_self, hpc]
          simp [threads, body, hfifo]
        · rw [Threads.step, hpc]
          simpa [threads, body, hfifo] using hcanceled
      | cons w' before =>
        have hrest : ((threads slots).step s (3 * q + 1) (.go flag now)).shared.fifo q =
            before ++ w :: after := by
          rw [Threads.step, hpc]
          simp [threads, body, hfifo]
        refine .inr (.inl ⟨_, _, lex_lt ?_, .queued hrest ?_⟩)
        · rw [Threads.step_pc_self, hpc]
          simp [threads, body, hfifo, phase]
          omega
        · rw [Threads.step, hpc]
          simpa [threads, body, hfifo] using hcanceled
    · refine hcloser ?_ ?_
      · rw [hpc]
        change (takeLocked s.shared q w').1.fifo = _
        rw [takeLocked]
        split <;> rfl
      · rw [hpc]
        change phase (takeLocked s.shared q w').2.2 < 4
        rw [takeLocked]
        split <;> simp only [phase] <;> omega
    · exact hcloser (by rw [hpc]; rfl) (by rw [hpc]; exact Nat.lt_succ_self _)
    · exact hcloser (by rw [hpc]; rfl) (by rw [hpc]; exact Nat.lt_succ_self _)
    · exact hcloser (by rw [hpc]; rfl) (by rw [hpc]; exact Nat.lt_succ_self _)

theorem ahead_step_queued (hplaced : Placed w s) (hroles : Roles s) {q : Nat}
    {before after : List Nat} (hfifo : s.shared.fifo q = before ++ w :: after)
    (hcanceled : (s.shared.work w).canceled = false) (i : Nat) (input : Input) :
    Moved slots w s i input (3 * q + 1)
      (toLex (0, 5 * before.length + 5 + phase (s.pc (3 * q + 1)))) := by
  by_cases hi : i = 3 * q + 1
  · subst hi
    exact ahead_step_worker hplaced hroles hfifo hcanceled input
  · have hat : At s w (.queue q) := by
      rw [at_queue_iff, hfifo]
      exact mem_append_right _ mem_cons_self
    have hgot := not_got_of_at (i := i) hplaced hat nofun
    have hafter : ∃ after', ((threads slots).step s i input).shared.fifo q =
        before ++ w :: after' := by
      change ∃ after', (body slots s.shared (s.pc i) input).1.fifo q = _
      cases queues_step slots s.shared (s.pc i) input with
      | stays hnext => exact ⟨after, (congrFun hnext q).trans hfifo⟩
      | puts who q' w' hpc hnext =>
        by_cases hq : q = q'
        · subst hq
          refine ⟨after ++ [w'], ?_⟩
          rw [hnext, Function.update_self, hfifo, append_assoc, cons_append]
        · exact ⟨after, by rw [hnext, Function.update_of_ne hq, hfifo]⟩
      | gets q' hpc hnext =>
        have hrole := hroles i
        rw [hpc] at hrole
        have hworker := worker_eq hrole.symm
        exact ⟨after, by rw [hnext, Function.update_of_ne (by omega), hfifo]⟩
    obtain ⟨after', hafter⟩ := hafter
    rcases canceled_stays slots input (hplaced.pending_of_at hat) hcanceled hgot
      with hnote | hcanceled'
    · exact .inl (.inl hnote)
    · refine .inr (.inr ⟨?_, fun h => hi h.1⟩)
      have hahead := Ahead.queued hafter hcanceled'
      rwa [Threads.step_pc_of_ne (Ne.symm hi)] at hahead

theorem ahead_step_got (hplaced : Placed w s) {q : Nat} (hpc : s.pc (3 * q + 1) = .got q w)
    (hcanceled : (s.shared.work w).canceled = false) (i : Nat) (input : Input) :
    Moved slots w s i input (3 * q + 1) (toLex (0, 2)) := by
  have hat : At s w (.hand (3 * q + 1)) := by
    rw [At, hpc]
    rfl
  by_cases hi : i = 3 * q + 1
  · subst hi
    cases input with
    | call c =>
      refine moved_of_still (.got hpc hcanceled) ?_
      rw [hpc]
      rfl
    | go flag now =>
      refine .inr (.inl ⟨3 * q + 1, toLex (0, 1), lex_lt Nat.one_lt_two, .starting ?_⟩)
      rw [Threads.step_pc_self, hpc]
      change (takeLocked s.shared q w).2.2 = _
      rw [takeLocked, if_neg (by rw [hcanceled]; exact Bool.false_ne_true)]
  · have hgot := not_got_of_at (i := i) hplaced hat fun h => hi (Place.hand.inj h).symm
    rcases canceled_stays slots input (hplaced.pending_of_at hat) hcanceled hgot
      with hnote | hcanceled'
    · exact .inl (.inl hnote)
    · refine .inr (.inr ⟨.got ?_ hcanceled', fun h => hi h.1⟩)
      rw [Threads.step_pc_of_ne (Ne.symm hi)]
      exact hpc

theorem ahead_step_starting {q : Nat} (hpc : s.pc (3 * q + 1) = .starting q w) (i : Nat)
    (input : Input) : Moved slots w s i input (3 * q + 1) (toLex (0, 1)) := by
  by_cases hi : i = 3 * q + 1
  · subst hi
    cases input with
    | call c =>
      refine moved_of_still (.starting hpc) ?_
      rw [hpc]
      rfl
    | go flag now =>
      refine .inl (.inr ?_)
      rw [hpc]
      exact mem_singleton_self _
  · refine .inr (.inr ⟨.starting ?_, fun h => hi h.1⟩)
    rw [Threads.step_pc_of_ne (Ne.symm hi)]
    exact hpc

/-- **The step lemma for an item on its way.** -/
theorem ahead_step (hplaced : Placed w s) (hroles : Roles s) {t : Nat} {r : Nat ×ₗ Nat}
    (h : Ahead w s t r) (i : Nat) (input : Input) : Moved slots w s i input t r := by
  cases h with
  | putting hpc hcanceled => exact ahead_step_putting hplaced hpc hcanceled i input
  | queued hfifo hcanceled => exact ahead_step_queued hplaced hroles hfifo hcanceled i input
  | got hpc hcanceled => exact ahead_step_got hplaced hpc hcanceled i input
  | starting hpc => exact ahead_step_starting hpc i input

/-! ## The submits -/

/-- The section is no `k_work_submit_to_queue` that finds the item canceled and not dropped yet. -/
def NotHalfCanceled (w : Nat) (s : Threads.State Kernel Point) (e : Nat × Input) : Prop :=
  e.2.Goes → ∀ who q, s.pc e.1 = .submitting who q w → (s.shared.work w).pending = true →
    (s.shared.work w).canceled = false

theorem ahead_of_submitted (hplaced : Placed w s) (hroles : Roles s) {who : Submitter}
    (hallowed : NotHalfCanceled w s (i, input))
    (h : .submitted who w ∈ (body slots s.shared (s.pc i) input).2.1) :
    ∃ t r, Ahead w ((threads slots).step s i input) t r := by
  obtain ⟨q, hpc, hgoes⟩ : ∃ q, s.pc i = .submitting who q w ∧ input.Goes := by
    cases notes_step slots s.shared (s.pc i) input h with
    | submitted _ q _ hpc hgoes => exact ⟨q, hpc, hgoes⟩
  cases input with
  | call c => exact absurd hgoes id
  | go flag now =>
    have hkernel : ((threads slots).step s i (.go flag now)).shared =
        (submitLocked s.shared who q w).1 := by
      rw [Threads.step, hpc]
      rfl
    have hflags : (((submitLocked s.shared who q w).1).work w).pending = true ∧
        (((submitLocked s.shared who q w).1).work w).canceled = false := by
      rw [submitLocked]
      split
      · next hpending =>
        have hcanceled := hallowed hgoes who q hpc hpending
        cases who <;> exact ⟨hpending, hcanceled⟩
      · rw [Kernel.setWork_self]
        exact ⟨rfl, rfl⟩
    refine ahead_of_pending (placed_step hplaced i _) (roles_step hroles i _) ?_ ?_
    · rw [hkernel]
      exact hflags.1
    · rw [hkernel]
      exact hflags.2

/-- **No submit is lost.** An item is in one queue at most, and there once. In an endless run that
takes every thread on again and again, every submit that does not find the item canceled and not
dropped yet is followed by a call of the handler, or by a cancellation. -/
theorem submit_followed (slots w : Nat) :
    (∀ events q q',
      ((threads slots).machine.run initial events).shared.count w q ≤ 1 ∧
        (w ∈ ((threads slots).machine.run initial events).shared.fifo q →
          w ∈ ((threads slots).machine.run initial events).shared.fifo q' → q = q')) ∧
    ∀ e : Nat → Nat × Input, Threads.Fair Input.Goes e →
      ∀ n, NotHalfCanceled w ((threads slots).stateAt initial e n) (e n) →
      ∀ i who, (i, .submitted who w) ∈ (threads slots).notesAt initial e n →
        ∃ n', n < n' ∧ ∃ j, (j, .started w) ∈ (threads slots).notesAt initial e n' ∨
          (j, .canceled w) ∈ (threads slots).notesAt initial e n' := by
  constructor
  · intro events q q'
    have hplaced := placed_run slots w events
    exact ⟨hplaced.once q, fun hq hq' =>
      Place.queue.inj (hplaced.unique _ _ (at_queue_iff.mpr hq) (at_queue_iff.mpr hq'))⟩
  · intro e hfair n hallowed i who hnote
    have hinv : ∀ n, Placed w ((threads slots).stateAt initial e n) ∧
        Roles ((threads slots).stateAt initial e n) :=
      Threads.stateAt_invariant (fun s => Placed w s ∧ Roles s)
        (fun s i input h => ⟨placed_step h.1 i input, roles_step h.2 i input⟩)
        ⟨placed_initial w, roles_initial⟩
    obtain ⟨-, hnote⟩ := Threads.mem_notes.mp hnote
    obtain ⟨t, r, hahead⟩ := ahead_of_submitted (hinv n).1 (hinv n).2 hallowed hnote
    have hstep (n t : Nat) (r : Nat ×ₗ Nat)
        (h : Ahead w ((threads slots).stateAt initial e n) t r) :
        Moved slots w ((threads slots).stateAt initial e n) (e n).1 (e n).2 t r :=
      ahead_step (hinv n).1 (hinv n).2 h (e n).1 (e n).2
    obtain ⟨n', hn', hgoal⟩ := Threads.eventually_of_rank hfair (n := n + 1)
      hstep hahead
    refine ⟨n', hn', (e n').1, ?_⟩
    rcases hgoal with hgoal | hgoal
    · exact .inr (Threads.mem_notes.mpr ⟨rfl, hgoal⟩)
    · exact .inl (Threads.mem_notes.mpr ⟨rfl, hgoal⟩)

/-- One submit, and all threads over and over. -/
def submitOnce : Nat → Nat × Input
  | 0 => (0, .call (.submit 0 0))
  | n + 1 => ((Nat.unpair n).1, .go true 0)

theorem fair_submitOnce : Threads.Fair Input.Goes submitOnce := by
  intro i n
  refine ⟨Nat.pair i n + 1, Nat.le_succ_of_le (Nat.right_le_pair i n), ?_, trivial⟩
  rw [submitOnce, Nat.unpair_pair]

theorem submit_followed_once : ∃ n' > 1, ∃ j,
    (j, .started 0) ∈ (threads 1).notesAt initial submitOnce n' ∨
      (j, .canceled 0) ∈ (threads 1).notesAt initial submitOnce n' := by
  have hallowed : NotHalfCanceled 0 ((threads 1).stateAt initial submitOnce 1) (submitOnce 1) :=
    fun _ _ _ _ _ => rfl
  exact (submit_followed 1 0).2 submitOnce fair_submitOnce 1 hallowed 0 .call (by decide)

/-- A submit behind a cancellation: the worker has not dropped the item yet, which is taken for
queued. -/
def submitCancelSubmit : Nat → Nat × Input
  | 0 => (0, .call (.submit 0 0))
  | 3 => (0, .call (.cancel 0))
  | 5 => (0, .call (.submit 0 0))
  | 1 | 2 | 4 | 6 => (0, .go true 0)
  | n + 7 => ((Nat.unpair n).1, .go true 0)

/-- Nobody is about to do anything but to get items from the queues. -/
def Point.Calm : Point → Prop
  | .idle => True
  | .getting _ => True
  | .got _ _ => True
  | .dormant _ => True
  | _ => False

structure Calm (s : Threads.State Kernel Point) : Prop where
  points : ∀ i, (s.pc i).Calm
  uncreated : ∀ slot, (s.shared.requests slot).created = false
  canceled : ∀ w, (s.shared.work w).pending = true → (s.shared.work w).canceled = true
  placed : ∀ w, Placed w s

theorem calm_step (h : Calm s) (i : Nat) {input : Input} (hinput : input.Goes) :
    Calm ((threads slots).step s i input) := by
  have hnext : (body slots s.shared (s.pc i) input).2.2.Calm ∧
      (body slots s.shared (s.pc i) input).1.requests = s.shared.requests ∧
      ∀ w, ((body slots s.shared (s.pc i) input).1.work w).pending = true →
        ((body slots s.shared (s.pc i) input).1.work w).canceled = true := by
    cases input with
    | call c => exact absurd hinput id
    | go flag now =>
      have hpoint := h.points i
      cases hpc : s.pc i <;> rw [hpc] at hpoint <;> try exact absurd hpoint id
      case idle => exact ⟨trivial, rfl, h.canceled⟩
      case getting q =>
        simp only [body]
        split
        · exact ⟨trivial, rfl, h.canceled⟩
        · exact ⟨trivial, rfl, h.canceled⟩
      case got q w =>
        have hat : At s w (.hand i) := by
          rw [At, hpc]
          rfl
        have hcanceled := h.canceled w ((h.placed w).pending_of_at hat)
        have htake : body slots s.shared (.got q w) (.go flag now) = (s.shared.setWork w fun x =>
            { x with pending := false, canceled := false }, [], .getting q) := by
          rw [body, takeLocked, if_pos hcanceled]
        rw [htake]
        refine ⟨trivial, rfl, fun w' => ?_⟩
        by_cases hw : w' = w
        · subst hw
          rw [Kernel.setWork_self]
          rintro ⟨⟩
        · rw [Kernel.setWork_of_ne hw]
          exact h.canceled w'
      case dormant slot =>
        have hstill : body slots s.shared (.dormant slot) (.go flag now) =
            (s.shared, [], .dormant slot) := by simp [body, h.uncreated slot]
        rw [hstill]
        exact ⟨trivial, rfl, h.canceled⟩
  refine ⟨fun j => ?_, fun slot => ?_, hnext.2.2, fun w => placed_step (h.placed w) i input⟩
  · by_cases hj : j = i
    · subst hj
      rw [Threads.step_pc_self]
      exact hnext.1
    · rw [Threads.step_pc_of_ne hj]
      exact h.points j
  · exact (congrArg Request.created (congrFun hnext.2.1 slot)).trans (h.uncreated slot)

theorem calm_submitCancelSubmit (n : Nat) :
    Calm ((threads 1).stateAt initial submitCancelSubmit (n + 7)) := by
  induction n with
  | zero =>
    refine ⟨fun j => ?_, fun slot => rfl, fun w => ?_, fun w => ?_⟩
    · rw [Threads.stateAt_eq_run]
      by_cases hj : j = 0
      · subst hj
        exact trivial
      · have hzero : ∀ e ∈ (List.range (0 + 7)).map submitCancelSubmit, e.1 = 0 := by decide
        rw [Threads.run_pc_of_ne fun e he => (hzero e he).trans_ne (Ne.symm hj), initial]
        dsimp only
        repeat' split
        all_goals trivial
    · by_cases hw : w = 0
      · subst hw
        decide
      · intro hpending
        have hwork : ((threads 1).stateAt initial submitCancelSubmit 7).shared.work w =
            initial.shared.work w := by
          simp [Threads.stateAt, Threads.step, threads, body, submitCancelSubmit, callPoint,
            submitLocked, initial, submitReturns, cancelLocked, Kernel.setWork_of_ne hw]
        rw [Nat.zero_add, hwork] at hpending
        cases hpending
    · rw [Threads.stateAt_eq_run]
      exact placed_run 1 w _
  | succ n ih => exact calm_step ih _ trivial

theorem fair_submitCancelSubmit : Threads.Fair Input.Goes submitCancelSubmit := by
  intro i n
  refine ⟨Nat.pair i n + 7, by have := Nat.right_le_pair i n; omega, ?_, trivial⟩
  rw [submitCancelSubmit, Nat.unpair_pair]

/-- The second submit returns 0 and is followed by nothing. -/
theorem submit_lost_behind_cancel :
    ∃ e : Nat → Nat × Input, Threads.Fair Input.Goes e ∧ ∃ n,
      (threads 1).notesAt initial e n = [(0, .submitted .call 0), (0, .returned 0)] ∧
        ∀ n' > n, ∀ j, (j, .started 0) ∉ (threads 1).notesAt initial e n' ∧
          (j, .canceled 0) ∉ (threads 1).notesAt initial e n' := by
  refine ⟨submitCancelSubmit, fair_submitCancelSubmit, 6, by decide, fun n' hn' j => ?_⟩
  obtain ⟨n, rfl⟩ := Nat.exists_eq_add_of_lt hn'
  have hcalm := (calm_submitCancelSubmit n).points (submitCancelSubmit (n + 7)).1
  rw [show 6 + n + 1 = n + 7 by omega]
  constructor
  · intro hnote
    cases notes_step 1 _ _ _ (Threads.mem_notes.mp hnote).2 with
    | started q _ hpc => exact absurd hcalm (by rw [hpc]; exact id)
  · intro hnote
    cases notes_step 1 _ _ _ (Threads.mem_notes.mp hnote).2 with
    | canceled c _ hpc => exact absurd hcalm (by rw [hpc]; exact id)

end Brickwright.Bluetooth.WorkQueue
