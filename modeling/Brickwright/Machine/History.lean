import Mathlib.Data.List.Induction
import Brickwright.Machine.Basic

/-!
# The notes of a run

A machine whose every step answers with some notes: the notes of a run are those of its steps, one
after the other.

* `history_invariant` — what every step keeps of the notes so far and the state, every run keeps.
* `exists_step_of_history` — a note of a run was made by one of its steps.
-/

universe u v w

namespace Machine

open List

variable {σ : Type u} {ι : Type v} {ν : Type w} (m : Machine σ ι (List ν))

def history (s : σ) (is : List ι) : List ν := (m.trace s is).flatMap Prod.snd

@[simp] theorem history_nil (s : σ) : m.history s [] = [] := rfl

@[simp] theorem history_cons (s : σ) (i : ι) (is : List ι) :
    m.history s (i :: is) = (m.step s i).2 ++ m.history (m.step s i).1 is := rfl

theorem history_append (s : σ) (is is' : List ι) :
    m.history s (is ++ is') = m.history s is ++ m.history (m.run s is) is' := by
  induction is generalizing s with
  | nil => rfl
  | cons i is ih =>
    rw [cons_append, history_cons, history_cons, ih, run_cons, append_assoc]

variable {m} {s : σ}

/-- **The induction over runs of allowed inputs**, from a state with a history. -/
theorem history_invariant_of {Inv : List ν → σ → Prop} {Allowed : σ → ι → Prop}
    (hstep : ∀ h s i, Inv h s → Allowed s i → Inv (h ++ (m.step s i).2) (m.step s i).1)
    {h : List ν} (h0 : Inv h s) (is : List ι) (hall : m.Throughout Allowed s is) :
    Inv (h ++ m.history s is) (m.run s is) := by
  induction is generalizing h s with
  | nil =>
    rw [history_nil, append_nil]
    exact h0
  | cons i is ih =>
    rw [history_cons, ← append_assoc]
    exact ih (hstep h s i h0 hall.1) hall.2

/-- **The induction over runs.** -/
theorem history_invariant {Inv : List ν → σ → Prop}
    (hstep : ∀ h s i, Inv h s → Inv (h ++ (m.step s i).2) (m.step s i).1) {h : List ν}
    (h0 : Inv h s) (is : List ι) : Inv (h ++ m.history s is) (m.run s is) := by
  have hall : m.Throughout (fun _ _ => True) s is :=
    m.throughout_of_forall (fun _ _ _ => trivial) s
  exact history_invariant_of (fun h s i hs _ => hstep h s i hs) h0 is hall

/-- A note of a run was made by one of its steps: the notes before it are those of the run up to
there, and those behind it those of the rest. -/
theorem exists_step_of_history {is : List ι} {pre post : List ν} {n : ν}
    (h : m.history s is = pre ++ n :: post) :
    ∃ before i after l r, is = before ++ i :: after ∧
      (m.step (m.run s before) i).2 = l ++ n :: r ∧ pre = m.history s before ++ l ∧
      post = r ++ m.history (m.step (m.run s before) i).1 after := by
  induction is generalizing s pre with
  | nil => exact absurd h (by simp)
  | cons i is ih =>
    rcases append_eq_append_iff.mp h with ⟨as, rfl, has⟩ | ⟨bs, hbs, hpost⟩
    · obtain ⟨before, i', after, l, r, rfl, hnotes, rfl, rfl⟩ := ih has
      exact ⟨i :: before, i', after, l, r, rfl, hnotes, (append_assoc ..).symm, rfl⟩
    · cases bs with
      | nil =>
        rw [append_nil] at hbs
        have hlater : m.history (m.step s i).1 is = [] ++ n :: post := hpost.symm
        obtain ⟨before, i', after, l, r, rfl, hnotes, hl, rfl⟩ := ih hlater
        refine ⟨i :: before, i', after, l, r, rfl, hnotes, ?_, rfl⟩
        rw [history_cons, append_assoc, ← hl, append_nil, hbs]
      | cons b bs =>
        cases hpost
        exact ⟨[], i, is, pre, bs, rfl, hbs, rfl, rfl⟩

theorem throughout_of_steps {P : σ → ι → Prop} {is : List ι}
    (h : ∀ before i after, is = before ++ i :: after → P (m.run s before) i) :
    m.Throughout P s is := by
  induction is generalizing s with
  | nil => trivial
  | cons i is ih =>
    refine ⟨h [] i is rfl, ih fun before j after hsplit => ?_⟩
    exact h (i :: before) j after (congrArg (i :: ·) hsplit)

end Machine

/-!
## What has come since

Some notes begin a new count, others add to it. `since` is what has been added since the last note
that began one.
-/

namespace Machine

open List

variable {ν : Type u} {β : Type v} {starts : ν → Bool} {piece : ν → List β} {h notes : List ν}

def sinceStep (starts : ν → Bool) (piece : ν → List β) (pieces : List β) (n : ν) : List β :=
  if starts n then [] else pieces ++ piece n

/-- The pieces since the last note that starts anew. -/
def since (starts : ν → Bool) (piece : ν → List β) (h : List ν) : List β :=
  h.foldl (sinceStep starts piece) []

@[simp] theorem since_nil : since starts piece [] = [] := rfl

theorem since_append :
    since starts piece (h ++ notes) = notes.foldl (sinceStep starts piece) (since starts piece h) :=
  foldl_append

theorem since_append_filter {p : ν → Bool}
    (hplain : ∀ n, p n = false → starts n = false ∧ piece n = []) :
    since starts piece (h ++ notes) = since starts piece (h ++ notes.filter p) := by
  induction notes generalizing h with
  | nil => rfl
  | cons n notes ih =>
    cases hn : p n with
    | true => rw [filter_cons_of_pos hn, append_cons, ih, ← append_cons]
    | false =>
      have hsame : since starts piece (h ++ [n]) = since starts piece h := by
        simp [since_append, sinceStep, hplain n hn]
      rw [filter_cons_of_neg (by simp [hn]), append_cons, ih, since_append, hsame,
        ← since_append]

theorem since_append_of_plain (hplain : ∀ n ∈ notes, starts n = false ∧ piece n = []) :
    since starts piece (h ++ notes) = since starts piece h := by
  induction notes generalizing h with
  | nil => rw [append_nil]
  | cons n notes ih =>
    have hn := hplain n mem_cons_self
    rw [append_cons, ih fun m hm => hplain m (mem_cons_of_mem _ hm), since_append]
    simp [sinceStep, hn]

end Machine

/-!
## What a history leaves outstanding

A resource that is opened by some events of a log and closed by others is *outstanding* when one of
its openings is followed by no closing. The definition quantifies over positions of the log, which
is what a safety statement wants to say; the lemmas read it off the log one event at a time, which
is what an induction over a run needs.
-/

/-- Some opening event of the log is followed by no closing one. -/
def Outstanding {α : Type u} (opens closes : α → Prop) (log : List α) : Prop :=
  ∃ pre e post, log = pre ++ e :: post ∧ opens e ∧ ∀ x ∈ post, ¬ closes x

namespace Outstanding

open List

variable {α : Type u} {opens closes : α → Prop} {log : List α} {e : α}

theorem split_left {log' pre post : List α} (heq : log ++ log' = pre ++ e :: post)
    (he : e ∉ log') : ∃ post', log = pre ++ e :: post' ∧ post = post' ++ log' := by
  rcases append_eq_append_iff.mp heq with ⟨as, -, rfl⟩ | ⟨bs, rfl, hbs⟩
  · exact absurd (by simp) he
  · cases bs with
    | nil =>
      rw [nil_append] at hbs
      exact absurd (by rw [← hbs]; exact mem_cons_self) he
    | cons b bs =>
      cases hbs
      exact ⟨bs, rfl, rfl⟩

theorem nil : ¬ Outstanding opens closes [] := by
  rintro ⟨pre, e, post, h, -⟩
  simp at h

/-- The last event decides: it opens, or it leaves what was outstanding before unless it closes. -/
theorem concat : Outstanding opens closes (log ++ [e]) ↔
    opens e ∨ (Outstanding opens closes log ∧ ¬ closes e) := by
  constructor
  · rintro ⟨pre, x, post, heq, hx, hpost⟩
    rcases eq_nil_or_concat post with rfl | ⟨post, y, rfl⟩
    · obtain ⟨-, rfl⟩ := append_inj' heq rfl |>.imp_right singleton_inj.mp
      exact .inl hx
    · rw [concat_eq_append, ← cons_append, ← append_assoc] at heq
      obtain ⟨rfl, hy⟩ := append_inj' heq rfl
      obtain rfl := singleton_inj.mp hy
      exact .inr ⟨⟨pre, x, post, rfl, hx, fun z hz => hpost z (by simp [hz])⟩,
        hpost e (by simp)⟩
  · rintro (he | ⟨⟨pre, x, post, rfl, hx, hpost⟩, he⟩)
    · exact ⟨log, e, [], rfl, he, by simp⟩
    · refine ⟨pre, x, post ++ [e], by simp, hx, ?_⟩
      intro z hz
      rcases mem_append.mp hz with hz | hz
      · exact hpost z hz
      · obtain rfl := mem_singleton.mp hz
        exact he

variable {log' : List α}

theorem append_right (h : Outstanding opens closes log') :
    Outstanding opens closes (log ++ log') := by
  obtain ⟨pre, e, post, rfl, he, hpost⟩ := h
  exact ⟨log ++ pre, e, post, by rw [append_assoc], he, hpost⟩

/-- What is outstanding stays so until something closes it. -/
theorem append_left (h : Outstanding opens closes log)
    (hno : ∀ x ∈ log', ¬ closes x) : Outstanding opens closes (log ++ log') := by
  obtain ⟨pre, e, post, rfl, he, hpost⟩ := h
  refine ⟨pre, e, post ++ log', by rw [append_assoc, cons_append], he, ?_⟩
  intro x hx
  rcases mem_append.mp hx with hx | hx
  · exact hpost x hx
  · exact hno x hx

theorem append_of_not_opens (hno : ∀ x ∈ log', ¬ opens x) :
    Outstanding opens closes (log ++ log') ↔
      Outstanding opens closes log ∧ ∀ x ∈ log', ¬ closes x := by
  constructor
  · rintro ⟨pre, e, post, heq, he, hpost⟩
    obtain ⟨post', rfl, rfl⟩ := split_left heq fun hmem => hno e hmem he
    exact ⟨⟨pre, e, post', rfl, he, fun x hx => hpost x (mem_append_left _ hx)⟩,
      fun x hx => hpost x (mem_append_right _ hx)⟩
  · exact fun h => h.1.append_left h.2

theorem append_iff (hno : ∀ x ∈ log', ¬ opens x ∧ ¬ closes x) :
    Outstanding opens closes (log ++ log') ↔ Outstanding opens closes log := by
  rw [append_of_not_opens fun x hx => (hno x hx).1]
  exact and_iff_left fun x hx => (hno x hx).2

/-- Events that a filter drops do not matter if it keeps what opens and what closes. -/
theorem filter_iff {p : α → Bool} (hkeep : ∀ x, opens x ∨ closes x → p x = true) :
    Outstanding opens closes (log.filter p) ↔ Outstanding opens closes log := by
  induction log using List.reverseRecOn with
  | nil => exact Iff.rfl
  | append_singleton log e ih =>
    rw [filter_append, concat, ← ih]
    cases hp : p e with
    | true =>
      rw [filter_cons_of_pos hp]
      exact concat
    | false =>
      have hno : ∀ x ∈ [e], ¬ opens x ∧ ¬ closes x := by
        intro x hx
        rw [mem_singleton.mp hx]
        refine ⟨fun h => ?_, fun h => ?_⟩
        · exact Bool.false_ne_true (hp.symm.trans (hkeep e (.inl h)))
        · exact Bool.false_ne_true (hp.symm.trans (hkeep e (.inr h)))
      rw [filter_cons_of_neg (by rw [hp]; exact Bool.false_ne_true), filter_nil,
        append_nil]
      have hlast := hno e (mem_singleton_self e)
      constructor
      · exact fun h => .inr ⟨h, hlast.2⟩
      · rintro (h | ⟨h, -⟩)
        · exact absurd h hlast.1
        · exact h

/-- Behind a closing event that nothing opens after, only that event itself can be outstanding. -/
theorem of_closing {pre post : List α} (h : Outstanding opens closes (pre ++ e :: post))
    (he : closes e) (hno : ∀ x ∈ post, ¬ opens x) : opens e ∧ ∀ x ∈ post, ¬ closes x := by
  obtain ⟨pre', x, post', heq, hx, hpost⟩ := h
  rcases append_eq_append_iff.mp heq with ⟨as, rfl, has⟩ | ⟨bs, rfl, hbs⟩
  · cases as with
    | nil =>
      cases has
      exact ⟨hx, hpost⟩
    | cons a as =>
      cases has
      exact absurd hx (hno x (by simp))
  · cases bs with
    | nil =>
      cases hbs
      exact ⟨hx, hpost⟩
    | cons b bs =>
      cases hbs
      exact absurd he (hpost e (by simp))

/-- Nothing is outstanding exactly when every opening is followed by a closing. -/
theorem not_iff : ¬ Outstanding opens closes log ↔
    ∀ pre e post, log = pre ++ e :: post → opens e → ∃ x ∈ post, closes x := by
  constructor
  · intro h pre e post heq he
    by_contra hno
    exact h ⟨pre, e, post, heq, he, fun x hx hc => hno ⟨x, hx, hc⟩⟩
  · rintro h ⟨pre, e, post, heq, he, hpost⟩
    obtain ⟨x, hx, hc⟩ := h pre e post heq he
    exact hpost x hx hc

end Outstanding

/-!
## What a run owes

Notes incur an obligation or settle one; in between the state holds it. When every step balances
what it incurs, settles and holds, so does every run.
-/

namespace Machine

open List

variable {σ : Type u} {ι : Type v} {ν : Type w} {m : Machine σ ι (List ν)}

def tally (f : ν → Nat) (notes : List ν) : Nat := (notes.map f).sum

@[simp] theorem tally_nil (f : ν → Nat) : tally f [] = 0 := rfl

@[simp] theorem tally_cons (f : ν → Nat) (n : ν) (notes : List ν) :
    tally f (n :: notes) = f n + tally f notes := by
  rw [tally, map_cons, sum_cons, tally]

@[simp] theorem tally_append (f : ν → Nat) (notes notes' : List ν) :
    tally f (notes ++ notes') = tally f notes + tally f notes' := by
  rw [tally, map_append, sum_append, tally, tally]

variable {notes : List ν}

theorem le_tally {f : ν → Nat} {n : ν} (h : n ∈ notes) : f n ≤ tally f notes := by
  induction notes with
  | nil => exact absurd h not_mem_nil
  | cons n' notes ih =>
    rcases mem_cons.mp h with rfl | h
    · exact Nat.le_add_right _ _
    · exact Nat.le_trans (ih h) (Nat.le_add_left _ _)

theorem tally_eq_zero {f : ν → Nat} :
    tally f notes = 0 ↔ ∀ n ∈ notes, f n = 0 := by
  induction notes with
  | nil => simp
  | cons n notes ih => simp [ih]

theorem tally_pos {f : ν → Nat} : 0 < tally f notes ↔ ∃ n ∈ notes, 0 < f n := by
  rw [Nat.pos_iff_ne_zero, ne_eq, tally_eq_zero]
  simp [Nat.pos_iff_ne_zero]

/-- What is held, and what was settled, was incurred. -/
def Balanced (held : σ → Nat) (incurs settles : ν → Nat) (h : List ν) (s : σ) : Prop :=
  held s + tally settles h = tally incurs h

theorem Balanced.concat {held : σ → Nat} {incurs settles : ν → Nat} {h notes : List ν} {s s' : σ}
    (hbal : Balanced held incurs settles h s)
    (hstep : held s' + tally settles notes = held s + tally incurs notes) :
    Balanced held incurs settles (h ++ notes) s' := by
  rw [Balanced] at *
  rw [tally_append, tally_append]
  omega

end Machine
