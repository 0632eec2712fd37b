import Mathlib.Data.Prod.Lex
import Mathlib.Order.WellFounded
import Brickwright.Machine.History

/-!
# Threads that share a state

Every thread stands at a point of its program. One input takes one thread through one section of its
code, which reads and writes the shared state as a whole, notes what it did, and leaves the thread
at its next point. A call from inside a callback is a thread of its own: its caller stays where it
is.

* `history_invariant` — what every section keeps of the notes so far and the state, every run keeps.
* `exists_step_of_history` — a note of a run was made by one of its sections.
-/

universe u v w x

/-- The code: what one section does to the shared state, what it notes, where the thread is then. -/
structure Threads (σ : Type u) (π : Type v) (ι : Type w) (ν : Type x) where
  body : σ → π → ι → σ × List ν × π

namespace Threads

open List

structure State (σ : Type u) (π : Type v) where
  shared : σ
  pc : Nat → π

variable {σ : Type u} {π : Type v} {ι : Type w} {ν : Type x} (m : Threads σ π ι ν)

/-- The state after one section of a thread. -/
def step (s : State σ π) (i : Nat) (input : ι) : State σ π where
  shared := (m.body s.shared (s.pc i) input).1
  pc := Function.update s.pc i (m.body s.shared (s.pc i) input).2.2

/-- The notes of that section, with the thread that made them. -/
def notes (s : State σ π) (i : Nat) (input : ι) : List (Nat × ν) :=
  (m.body s.shared (s.pc i) input).2.1.map (Prod.mk i)

def machine : Machine (State σ π) (Nat × ι) (List (Nat × ν)) where
  step s e := (m.step s e.1 e.2, m.notes s e.1 e.2)

def history (s : State σ π) (events : List (Nat × ι)) : List (Nat × ν) :=
  (m.machine.trace s events).flatMap Prod.snd

@[simp] theorem history_cons (s : State σ π) (e : Nat × ι) (events : List (Nat × ι)) :
    m.history s (e :: events) = m.notes s e.1 e.2 ++ m.history (m.step s e.1 e.2) events := rfl

@[simp] theorem run_nil (s : State σ π) : m.machine.run s [] = s := rfl

@[simp] theorem run_cons (s : State σ π) (e : Nat × ι) (events : List (Nat × ι)) :
    m.machine.run s (e :: events) = m.machine.run (m.step s e.1 e.2) events := rfl

theorem history_append (s : State σ π) (events events' : List (Nat × ι)) :
    m.history s (events ++ events') =
      m.history s events ++ m.history (m.machine.run s events) events' :=
  m.machine.history_append s events events'

variable {m} {s : State σ π}

theorem step_pc_self (i : Nat) (input : ι) :
    (m.step s i input).pc i = (m.body s.shared (s.pc i) input).2.2 :=
  Function.update_self ..

theorem step_pc_of_ne {i j : Nat} (h : j ≠ i) (input : ι) : (m.step s i input).pc j = s.pc j :=
  Function.update_of_ne h ..

theorem step_of_still {i : Nat} {input : ι}
    (h : m.body s.shared (s.pc i) input = (s.shared, [], s.pc i)) :
    m.step s i input = s ∧ m.notes s i input = [] := by
  rw [step, notes, h, Function.update_eq_self]
  exact ⟨rfl, rfl⟩

variable {events : List (Nat × ι)}

theorem run_pc_of_ne {i : Nat} (h : ∀ e ∈ events, e.1 ≠ i) :
    (m.machine.run s events).pc i = s.pc i := by
  induction events generalizing s with
  | nil => rfl
  | cons e events ih =>
    rw [run_cons, ih fun e' he' => h e' (mem_cons_of_mem _ he')]
    exact step_pc_of_ne (h e mem_cons_self).symm _

theorem mem_notes {i j : Nat} {input : ι} {n : ν} :
    (j, n) ∈ m.notes s i input ↔ j = i ∧ n ∈ (m.body s.shared (s.pc i) input).2.1 := by
  rw [notes, mem_map]
  constructor
  · rintro ⟨n', hn, heq⟩
    cases heq
    exact ⟨rfl, hn⟩
  · rintro ⟨rfl, hn⟩
    exact ⟨n, hn, rfl⟩

variable {Inv : List (Nat × ν) → State σ π → Prop} {Allowed : State σ π → Nat × ι → Prop}

/-- **The induction over runs of allowed inputs**, from a state with a history. -/
theorem history_invariant_of
    (hstep : ∀ h s i input, Inv h s → Allowed s (i, input) →
      Inv (h ++ m.notes s i input) (m.step s i input))
    {h : List (Nat × ν)} (h0 : Inv h s) (events : List (Nat × ι))
    (hall : m.machine.Throughout Allowed s events) :
    Inv (h ++ m.history s events) (m.machine.run s events) :=
  Machine.history_invariant_of (m := m.machine) (fun h s e => hstep h s e.1 e.2) h0 events hall

/-- **The induction over runs.** -/
theorem history_invariant
    (hstep : ∀ h s i input, Inv h s → Inv (h ++ m.notes s i input) (m.step s i input))
    {h : List (Nat × ν)} (h0 : Inv h s) (events : List (Nat × ι)) :
    Inv (h ++ m.history s events) (m.machine.run s events) :=
  Machine.history_invariant (m := m.machine) (fun h s e => hstep h s e.1 e.2) h0 events

theorem run_invariant {Inv : State σ π → Prop}
    (hstep : ∀ s i input, Inv s → Inv (m.step s i input)) (h0 : Inv s) (events : List (Nat × ι)) :
    Inv (m.machine.run s events) :=
  m.machine.run_invariant (fun s e hs => hstep s e.1 e.2 hs) s events h0

theorem run_invariant_of (Inv : State σ π → Prop)
    (hstep : ∀ s i input, Inv s → Allowed s (i, input) → Inv (m.step s i input)) (h0 : Inv s)
    (hall : m.machine.Throughout Allowed s events) :
    Inv (m.machine.run s events) := by
  induction events generalizing s with
  | nil => exact h0
  | cons e events ih => exact ih (hstep s e.1 e.2 h0 hall.1) hall.2

/-- A note of a run was made by one of its sections: the notes before it are those of the run up to
there, and those behind it those of the rest. -/
theorem exists_step_of_history {pre post : List (Nat × ν)} {n : Nat × ν}
    (h : m.history s events = pre ++ n :: post) :
    ∃ before e after l r, events = before ++ e :: after ∧
      m.notes (m.machine.run s before) e.1 e.2 = l ++ n :: r ∧
      pre = m.history s before ++ l ∧
      post = r ++ m.history (m.step (m.machine.run s before) e.1 e.2) after :=
  Machine.exists_step_of_history (m := m.machine) h

/-- Where a section notes one thing at most, a note stands behind those of the run up to there. -/
theorem exists_section_of_history (hone : ∀ s pc input, (m.body s pc input).2.1.length ≤ 1)
    {pre post : List (Nat × ν)} {n : Nat × ν} (h : m.history s events = pre ++ n :: post) :
    ∃ before input after, events = before ++ (n.1, input) :: after ∧ pre = m.history s before ∧
      n.2 ∈ (m.body (m.machine.run s before).shared ((m.machine.run s before).pc n.1)
        input).2.1 := by
  obtain ⟨before, ⟨i, input⟩, after, l, r, rfl, hnotes, rfl, -⟩ := m.exists_step_of_history h
  have hmem : n ∈ m.notes (m.machine.run s before) i input := by
    rw [hnotes]
    exact mem_append_right _ mem_cons_self
  have hlen : (l ++ n :: r).length ≤ 1 := by
    rw [← hnotes, notes, length_map]
    exact hone ..
  have hnil : l = [] := by
    rw [length_append, length_cons] at hlen
    exact eq_nil_of_length_eq_zero (by omega)
  obtain ⟨rfl, hbody⟩ := mem_notes.mp hmem
  exact ⟨before, input, after, rfl, by rw [hnil, append_nil], hbody⟩

theorem throughout_of_history {P : Nat × ν → Prop} (h : ∀ n ∈ m.history s events, P n) :
    m.machine.Throughout (fun s e => ∀ n ∈ m.notes s e.1 e.2, P n) s events := by
  induction events generalizing s with
  | nil => trivial
  | cons e events ih =>
    exact ⟨fun n hn => h n (mem_append_left _ hn),
      ih fun n hn => h n (mem_append_right _ hn)⟩

end Threads

/-!
## Endless runs

An endless run takes one input after the other. It is fair when every thread is given an input of
some kind, say one that lets it go on, again and again.

* `stateAt_invariant` — what every section keeps holds at every time.
* `eventually_of_rank` — while a goal is not reached, some thread is to move; nobody raises the rank
  and the move of that thread lowers it: the goal is reached.
-/

namespace Threads

variable {σ : Type u} {π : Type v} {ι : Type w} {ν : Type x} (m : Threads σ π ι ν)

/-- The state before the `n`th input. -/
def stateAt (s : State σ π) (e : Nat → Nat × ι) : Nat → State σ π
  | 0 => s
  | n + 1 => m.step (stateAt s e n) (e n).1 (e n).2

/-- What the `n`th section notes. -/
def notesAt (s : State σ π) (e : Nat → Nat × ι) (n : Nat) : List (Nat × ν) :=
  m.notes (m.stateAt s e n) (e n).1 (e n).2

variable {m} {s : State σ π} {e : Nat → Nat × ι}

theorem stateAt_succ (n : Nat) :
    m.stateAt s e (n + 1) = m.step (m.stateAt s e n) (e n).1 (e n).2 := rfl

theorem stateAt_eq_run (n : Nat) :
    m.stateAt s e n = m.machine.run s ((List.range n).map e) := by
  induction n with
  | zero => rfl
  | succ n ih =>
    rw [stateAt_succ, ih, List.range_succ, List.map_append, Machine.run_append]
    rfl

theorem stateAt_invariant (Inv : State σ π → Prop)
    (hstep : ∀ s i input, Inv s → Inv (m.step s i input)) (h0 : Inv s) (n : Nat) :
    Inv (m.stateAt s e n) := by
  rw [stateAt_eq_run]
  exact run_invariant hstep h0 _

/-- Every thread is given such an input again and again. -/
def Fair (Go : ι → Prop) (e : Nat → Nat × ι) : Prop :=
  ∀ i n, ∃ n', n ≤ n' ∧ (e n').1 = i ∧ Go (e n').2

/-- **The rule of the helpful thread.** `Waits t r n`: at time `n` thread `t` is to move, at rank
`r`. -/
theorem eventually_of_rank {α : Type*} [Preorder α] [WellFoundedLT α] {Go : ι → Prop}
    (hfair : Fair Go e) {Waits : Nat → α → Nat → Prop} {Goal : Nat → Prop}
    (hstep : ∀ n t r, Waits t r n → Goal n ∨ (∃ t' r', r' < r ∧ Waits t' r' (n + 1)) ∨
      Waits t r (n + 1) ∧ ¬ ((e n).1 = t ∧ Go (e n).2)) {n : Nat} {t : Nat} {r : α}
    (h : Waits t r n) : ∃ n', n ≤ n' ∧ Goal n' := by
  induction r using WellFoundedLT.induction generalizing n t with
  | ind r ih =>
    obtain ⟨n', hn', hmoves⟩ := hfair t n
    -- until thread `t` moves, the rank falls or all stays as it is
    obtain ⟨d, rfl⟩ := Nat.exists_eq_add_of_le hn'
    clear hn'
    induction d generalizing n with
    | zero =>
      rcases hstep n t r h with hgoal | ⟨t', r', hlt, hnext⟩ | ⟨-, hstays⟩
      · exact ⟨n, Nat.le_refl n, hgoal⟩
      · obtain ⟨n', hn', hgoal⟩ := ih r' hlt hnext
        exact ⟨n', by omega, hgoal⟩
      · exact absurd hmoves hstays
    | succ d ihd =>
      rcases hstep n t r h with hgoal | ⟨t', r', hlt, hnext⟩ | ⟨hnext, -⟩
      · exact ⟨n, Nat.le_refl n, hgoal⟩
      · obtain ⟨n', hn', hgoal⟩ := ih r' hlt hnext
        exact ⟨n', by omega, hgoal⟩
      · obtain ⟨n', hn', hgoal⟩ := ihd hnext (by rwa [show n + 1 + d = n + (d + 1) by omega])
        exact ⟨n', by omega, hgoal⟩

end Threads

/-!
## A lock that threads hold across sections

A thread that takes a lock and gives it back in one section needs no more than that section. One
that keeps it for longer stands at a point that `Holds` it until then. `Locks` is what the code has
to do for the lock to be one, section by section; `Locking` is what holds of the threads then.
-/

namespace Threads

variable {σ : Type u} {π : Type v} {ι : Type w} {ν : Type x}

/-- Who comes to hold the lock finds it free, and only who holds it gives it back. -/
structure Locks (m : Threads σ π ι ν) (Holds : π → Prop) (locked : σ → Prop) (s : σ) : Prop where
  takes : ∀ pc input, Holds (m.body s pc input).2.2 → Holds pc ∨ ¬locked s
  holds : ∀ pc input, (Holds pc → locked s) → Holds (m.body s pc input).2.2 →
    locked (m.body s pc input).1
  keeps : ∀ pc input, ¬Holds pc → locked s → locked (m.body s pc input).1

/-- One thread at most holds the lock, and it is taken then. -/
structure Locking (Holds : π → Prop) (locked : σ → Prop) (s : State σ π) : Prop where
  locked : ∀ i, Holds (s.pc i) → locked s.shared
  one : ∀ i j, Holds (s.pc i) → Holds (s.pc j) → i = j

variable {m : Threads σ π ι ν} {Holds : π → Prop} {locked : σ → Prop} {s : State σ π}

theorem Locking.start (h : ∀ i, ¬Holds (s.pc i)) : Locking Holds locked s :=
  ⟨fun i hi => absurd hi (h i), fun i _ hi => absurd hi (h i)⟩

/-- **One section.** -/
theorem Locking.step (hm : m.Locks Holds locked s.shared) (h : Locking Holds locked s) (i : Nat)
    (input : ι) : Locking Holds locked (m.step s i input) := by
  -- the thread that moves comes to hold the lock only where no other does
  have hothers : ∀ {j}, j ≠ i → Holds (s.pc j) → ¬Holds (m.body s.shared (s.pc i) input).2.2 := by
    intro j hji hj hi
    rcases hm.takes _ _ hi with hheld | hfree
    · exact hji (h.one j i hj hheld)
    · exact hfree (h.locked j hj)
  refine ⟨fun j hj => ?_, fun j k hj hk => ?_⟩
  · by_cases hji : j = i
    · subst hji
      rw [step_pc_self] at hj
      exact hm.holds _ _ (h.locked j) hj
    · rw [step_pc_of_ne hji] at hj
      exact hm.keeps _ _ (fun hi => hji (h.one j i hj hi)) (h.locked j hj)
  · by_cases hji : j = i <;> by_cases hki : k = i
    · exact hji.trans hki.symm
    · subst hji
      rw [step_pc_self] at hj
      rw [step_pc_of_ne hki] at hk
      exact absurd hj (hothers hki hk)
    · subst hki
      rw [step_pc_self] at hk
      rw [step_pc_of_ne hji] at hj
      exact absurd hk (hothers hji hj)
    · rw [step_pc_of_ne hji] at hj
      rw [step_pc_of_ne hki] at hk
      exact h.one j k hj hk

theorem Locking.not_holds (h : Locking Holds locked s) {i j : Nat} (hi : Holds (s.pc i))
    (hji : j ≠ i) : ¬Holds (s.pc j) :=
  fun hj => hji (h.one j i hj hi)

end Threads
