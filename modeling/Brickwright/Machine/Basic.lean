import Mathlib.Algebra.GroupWithZero.Nat
import Mathlib.Data.List.Basic

/-!
# Deterministic machines and their runs

A `Machine` answers one input at a time: `step` gives the next state and the output. Whatever is
nondeterministic about a program (the order in which parties speak, what a callback returns, when a
clock is read) is in the input sequence, so a statement about every run is a statement about every
list of inputs.

Four things are proved once here and used by every module that talks about runs:

* `run_append` — a run is its prefix followed by its suffix.
* `run_invariant` — what every step preserves, every run preserves.
* `trace_invariant` — the same for a property of the *history*: the invariant relates the state to
  the whole list of inputs and outputs that led to it.
-/

universe u v w

/-- What one input does to the state, and what the machine answers. -/
structure Machine (σ : Type u) (ι : Type v) (ο : Type w) where
  step : σ → ι → σ × ο

namespace Machine

open List

variable {σ : Type u} {ι : Type v} {ο : Type w} (m : Machine σ ι ο)

def run : σ → List ι → σ
  | s, [] => s
  | s, i :: is => run (m.step s i).1 is

/-- The inputs of a run, each with the answer it got. -/
def trace : σ → List ι → List (ι × ο)
  | _, [] => []
  | s, i :: is => (i, (m.step s i).2) :: trace (m.step s i).1 is

@[simp] theorem run_nil (s : σ) : m.run s [] = s := rfl

@[simp] theorem run_cons (s : σ) (i : ι) (is : List ι) :
    m.run s (i :: is) = m.run (m.step s i).1 is := rfl

@[simp] theorem trace_nil (s : σ) : m.trace s [] = [] := rfl

@[simp] theorem trace_cons (s : σ) (i : ι) (is : List ι) :
    m.trace s (i :: is) = (i, (m.step s i).2) :: m.trace (m.step s i).1 is := rfl

theorem run_append (s : σ) (is js : List ι) : m.run s (is ++ js) = m.run (m.run s is) js := by
  induction is generalizing s with
  | nil => rfl
  | cons i is ih => exact ih _

theorem run_concat (s : σ) (is : List ι) (i : ι) :
    m.run s (is ++ [i]) = (m.step (m.run s is) i).1 := by
  rw [run_append, run_cons, run_nil]

/-- **The induction over runs**: what every step preserves holds after every run. -/
theorem run_invariant {Inv : σ → Prop} (hstep : ∀ s i, Inv s → Inv (m.step s i).1) :
    ∀ (s : σ) (is : List ι), Inv s → Inv (m.run s is)
  | _, [], h => h
  | s, i :: is, h => run_invariant hstep _ is (hstep s i h)

/-- **The induction over histories**: a relation between the trace so far and the state, kept by
every step, holds of every run and its trace. -/
theorem trace_invariant {Inv : List (ι × ο) → σ → Prop} {s : σ}
    (hstep : ∀ h t i, Inv h t → Inv (h ++ [(i, (m.step t i).2)]) (m.step t i).1)
    (h0 : Inv [] s) (is : List ι) : Inv (m.trace s is) (m.run s is) := by
  have key : ∀ (js : List ι) (h : List (ι × ο)) (t : σ), Inv h t →
      Inv (h ++ m.trace t js) (m.run t js) := by
    intro js
    induction js with
    | nil => intro h t ht; simpa using ht
    | cons j js ih =>
      intro h t ht
      have := ih (h ++ [(j, (m.step t j).2)]) (m.step t j).1 (hstep h t j ht)
      simpa [append_assoc] using this
  simpa using key is [] s h0

/-- At every step of the run, `P` holds of the state and the input. -/
def Throughout (P : σ → ι → Prop) : σ → List ι → Prop
  | _, [] => True
  | s, i :: is => P s i ∧ Throughout P (m.step s i).1 is

instance decidableThroughout (P : σ → ι → Prop) [∀ s i, Decidable (P s i)] :
    ∀ s is, Decidable (m.Throughout P s is)
  | _, [] => isTrue trivial
  | s, i :: is =>
    have := decidableThroughout P (m.step s i).1 is
    inferInstanceAs (Decidable (P s i ∧ m.Throughout P (m.step s i).1 is))

theorem throughout_append {P : σ → ι → Prop} {s : σ} {is js : List ι} :
    m.Throughout P s (is ++ js) ↔ m.Throughout P s is ∧ m.Throughout P (m.run s is) js := by
  induction is generalizing s with
  | nil => exact (and_iff_right trivial).symm
  | cons i is ih =>
    rw [cons_append, Throughout, Throughout, ih, run_cons, and_assoc]

variable {m} in
theorem Throughout.and {P Q : σ → ι → Prop} {s : σ} {is : List ι} (hp : m.Throughout P s is)
    (hq : m.Throughout Q s is) : m.Throughout (fun s i => P s i ∧ Q s i) s is := by
  induction is generalizing s with
  | nil => trivial
  | cons i is ih => exact ⟨⟨hp.1, hq.1⟩, ih hp.2 hq.2⟩

/-- What holds of an input in every state holds throughout every run of such inputs. -/
theorem throughout_of_forall {P : σ → ι → Prop} {is : List ι} (h : ∀ i ∈ is, ∀ s, P s i) (s : σ) :
    m.Throughout P s is := by
  induction is generalizing s with
  | nil => trivial
  | cons i is ih =>
    refine ⟨h i mem_cons_self s, ?_⟩
    exact ih (fun j hj => h j (mem_cons_of_mem i hj)) _

/-- **The induction over runs of allowed inputs.** -/
theorem throughout_of_invariant {Inv : σ → Prop} {Allowed P : σ → ι → Prop}
    (hstep : ∀ s i, Inv s → Allowed s i → P s i ∧ Inv (m.step s i).1) {s : σ} {is : List ι}
    (h0 : Inv s) (hall : m.Throughout Allowed s is) : m.Throughout P s is := by
  induction is generalizing s with
  | nil => trivial
  | cons i is ih =>
    obtain ⟨hp, hnext⟩ := hstep s i h0 hall.1
    exact ⟨hp, ih hnext hall.2⟩

/-- Two demands on a run that agree in every state of an invariant, which a step that meets them
keeps, agree on the run. -/
theorem throughout_congr {Inv : σ → Prop} {P Q : σ → ι → Prop}
    (hstep : ∀ s i, Inv s → (P s i ↔ Q s i) ∧ (P s i → Inv (m.step s i).1)) {s : σ} (h0 : Inv s)
    (is : List ι) : m.Throughout P s is ↔ m.Throughout Q s is := by
  induction is generalizing s with
  | nil => exact Iff.rfl
  | cons i is ih =>
    obtain ⟨hiff, hnext⟩ := hstep s i h0
    rw [Throughout, Throughout, ← hiff]
    exact and_congr_right fun hp => ih (hnext hp)

end Machine

/-!
## Noninterference by unwinding

`purge keep` deletes the inputs that do not concern an observer. A machine does not let the deleted
inputs *interfere* when the observer's view of the kept ones is the same with and without them.

The proof rule is the usual unwinding one: a relation `R` between the state of the full run and the
state of the purged run, kept when the full run alone takes a deleted step, and kept, with equal
views, when both take the same kept step. Promises about the environment (a clock that does not go
back, a deadline that is met) restrict the *full* run only; they are the predicate `Ok` on a state
and the inputs still to come, and the rule asks nothing of it but that it survives a step.
-/

universe x

namespace Machine

open List

variable {σ : Type u} {ι : Type v} {ο : Type w} {ν : Type x} (m : Machine σ ι ο)

/-- The observer's view of a trace: the kept inputs, each with what the observer sees of the
answer. -/
def observe (keep : ι → Bool) (view : ι → ο → ν) (tr : List (ι × ο)) : List ν :=
  (tr.filter fun e => keep e.1).map fun e => view e.1 e.2

/-- What has to be checked of a relation for it to witness noninterference. -/
structure Unwinding (R : σ → σ → Prop) (Ok : σ → List ι → Prop) (keep : ι → Bool)
    (view : ι → ο → ν) : Prop where
  /-- The promise about the environment survives a step of the full run. -/
  ok_step : ∀ s i is, Ok s (i :: is) → Ok (m.step s i).1 is
  /-- A deleted input moves the full run only. -/
  deleted : ∀ s t i is, R s t → Ok s (i :: is) → keep i = false → R (m.step s i).1 t
  /-- A kept input moves both, and the observer sees the same. -/
  kept : ∀ s t i is, R s t → Ok s (i :: is) → keep i = true →
    R (m.step s i).1 (m.step t i).1 ∧ view i (m.step s i).2 = view i (m.step t i).2

/-- **Noninterference**: deleting the other inputs changes neither the observer's view nor the
relation between the two final states. -/
theorem Unwinding.purge {R : σ → σ → Prop} {Ok : σ → List ι → Prop} {keep : ι → Bool}
    {view : ι → ο → ν} (U : m.Unwinding R Ok keep view) :
    ∀ (is : List ι) (s t : σ), R s t → Ok s is →
      R (m.run s is) (m.run t (is.filter keep)) ∧
        observe keep view (m.trace s is) = observe keep view (m.trace t (is.filter keep)) := by
  intro is
  induction is with
  | nil => intro s t hR _; exact ⟨hR, rfl⟩
  | cons i is ih =>
    intro s t hR hOk
    have hOk' := U.ok_step s i is hOk
    cases hk : keep i with
    | false =>
      obtain ⟨hrun, hobs⟩ := ih _ t (U.deleted s t i is hR hOk hk) hOk'
      rw [filter_cons_of_neg (by simp [hk])]
      exact ⟨hrun, by simpa [observe, hk] using hobs⟩
    | true =>
      obtain ⟨hR', hview⟩ := U.kept s t i is hR hOk hk
      obtain ⟨hrun, hobs⟩ := ih _ _ hR' hOk'
      rw [filter_cons_of_pos hk]
      refine ⟨hrun, ?_⟩
      simp only [observe, trace_cons, filter_cons_of_pos, hk, map_cons, hview] at hobs ⊢
      rw [hobs]

end Machine
