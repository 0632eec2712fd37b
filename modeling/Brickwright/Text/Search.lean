import Mathlib.Data.List.Infix

/-!
# The first place a string stands at

* `indexOf_append` — a place that was found stays the first one when more is read.
* `indexOf_append_needle` — a string no part of which is both its start and its end (`Unbordered`)
  is found where it was put, if the text before does not have it.
-/

universe u

namespace List

open List

variable {α : Type u} [DecidableEq α]

/-- Where `needle` first stands in a text. -/
def indexOf (needle : List α) : List α → Option Nat
  | [] => if needle = [] then some 0 else none
  | b :: bs => if needle <+: b :: bs then some 0 else (indexOf needle bs).map (· + 1)

/-- No start of the string, but the whole of it, is its end. -/
def Unbordered (needle : List α) : Prop :=
  ∀ k < needle.length, 0 < k → needle.take k ≠ needle.drop (needle.length - k)

instance (needle : List α) : Decidable needle.Unbordered :=
  inferInstanceAs (Decidable (∀ k < needle.length, _))

variable {needle l : List α} {k : Nat}

theorem indexOf_of_start {b : α} {bs : List α} (h : needle <+: b :: bs) :
    indexOf needle (b :: bs) = some 0 := if_pos h

theorem indexOf_of_not_start {b : α} {bs : List α} (h : ¬ needle <+: b :: bs) :
    indexOf needle (b :: bs) = (indexOf needle bs).map (· + 1) := if_neg h

theorem prefix_of_indexOf (h : indexOf needle l = some k) : needle <+: l.drop k := by
  induction l generalizing k with
  | nil =>
    rw [indexOf] at h
    split at h
    · next hnil =>
      cases h
      exact hnil ▸ prefix_rfl
    · cases h
  | cons b bs ih =>
    by_cases hp : needle <+: b :: bs
    · rw [indexOf_of_start hp] at h
      cases h
      exact hp
    · rw [indexOf_of_not_start hp] at h
      obtain ⟨i, hi, rfl⟩ := Option.map_eq_some_iff.mp h
      exact ih hi

theorem indexOf_add_length_le (h : indexOf needle l = some k) (hne : needle ≠ []) :
    k + needle.length ≤ l.length := by
  have hle := (prefix_of_indexOf h).length_le
  have hpos := length_pos_iff.mpr hne
  rw [length_drop] at hle
  omega

/-- **What was found stays found** when more is read. -/
theorem indexOf_append (h : indexOf needle l = some k) (hne : needle ≠ []) (more : List α) :
    indexOf needle (l ++ more) = some k := by
  induction l generalizing k with
  | nil =>
    rw [indexOf, if_neg hne] at h
    cases h
  | cons b bs ih =>
    by_cases hp : needle <+: b :: bs
    · rw [indexOf_of_start hp] at h
      cases h
      exact indexOf_of_start (hp.trans (prefix_append (b :: bs) more))
    · have hlong : needle.length ≤ (b :: bs).length :=
        le_trans (Nat.le_add_left _ _) (indexOf_add_length_le h hne)
      have hp' : ¬ needle <+: b :: (bs ++ more) := by
        intro hpre
        exact hp (prefix_of_prefix_length_le hpre (prefix_append (b :: bs) more) hlong)
      rw [indexOf_of_not_start hp] at h
      obtain ⟨i, hi, rfl⟩ := Option.map_eq_some_iff.mp h
      rw [cons_append, indexOf_of_not_start hp', ih hi]
      rfl

theorem indexOf_eq_none (h : ¬ needle <:+: l) : indexOf needle l = none := by
  match hfound : indexOf needle l with
  | none => rfl
  | some k =>
    exact absurd ((prefix_of_indexOf hfound).isInfix.trans (drop_suffix k l).isInfix) h

omit [DecidableEq α] in
theorem not_prefix_of_unbordered (hu : needle.Unbordered) {text : List α} (hne : text ≠ [])
    (hnot : ¬ needle <:+: text) (rest : List α) : ¬ needle <+: text ++ (needle ++ rest) := by
  intro hpre
  have hpos := length_pos_iff.mpr hne
  rcases Nat.lt_or_ge text.length needle.length with hshort | hlong
  · -- the text is a start of the string, and what follows of it is another: a border
    obtain ⟨tail, htail⟩ := hpre
    have hdrop := congrArg (List.drop text.length) htail
    rw [drop_append_of_le_length hshort.le, drop_left] at hdrop
    have hcut := congrArg (List.take (needle.length - text.length)) hdrop
    rw [take_append_of_le_length (by rw [length_drop]),
      take_of_length_le (by rw [length_drop]),
      take_append_of_le_length (Nat.sub_le _ _)] at hcut
    apply hu (needle.length - text.length) (by omega) (by omega)
    rw [← hcut]
    congr 1
    omega
  · have hin : needle <+: text :=
      prefix_of_prefix_length_le hpre (prefix_append text _) hlong
    exact hnot hin.isInfix

/-- **It is found where it was put.** -/
theorem indexOf_append_needle (hu : needle.Unbordered) (hne : needle ≠ []) {text : List α}
    (hnot : ¬ needle <:+: text) (rest : List α) :
    indexOf needle (text ++ (needle ++ rest)) = some text.length := by
  induction text with
  | nil =>
    obtain ⟨b, bs, rfl⟩ := exists_cons_of_ne_nil hne
    exact indexOf_of_start (prefix_append (b :: bs) rest)
  | cons a text ih =>
    have hnot' : ¬ needle <:+: text := fun h => hnot (h.trans (suffix_cons a text).isInfix)
    have hp : ¬ needle <+: a :: (text ++ (needle ++ rest)) :=
      not_prefix_of_unbordered hu (cons_ne_nil a text) hnot rest
    rw [cons_append, indexOf_of_not_start hp, ih hnot']
    rfl

end List
