import Mathlib.Data.List.Basic
import Mathlib.Order.Lattice

/-!
# Queues with fences

Some entries of a queue are fences. Every entry carries an epoch, and a fence that is served raises
the epoch from which on other entries count; what was pushed behind a fence with a later epoch than
its own is out of date, and must not count when it is served.

The queue may drop entries that are not fences, and it may write a new fence over one that is the
newest entry. It is sound (`Sound`) as long as fences are pushed in the order of their epochs: then
an entry is served after every fence pushed before it has had its effect, or a later one has.
-/

universe u v

namespace Fenced

open List

variable {α : Type u} {ε : Type v} [LinearOrder ε] (fence : α → Bool) (epoch : α → ε)

/-- Fences are pushed in the order of their epochs. -/
def InOrder (pushed : List α) : Prop :=
  (pushed.filter fence).Pairwise fun x y => epoch x ≤ epoch y

/-- An epoch has been seen, or a fence among the entries `l` brings it. -/
def Reached (seen : ε) (l : List α) (e : ε) : Prop :=
  e ≤ seen ∨ ∃ g ∈ l, fence g = true ∧ e ≤ epoch g

/-- `line` is what is left to serve of the entries `pushed`, `seen` the epoch of the last fence
served. -/
structure Sound (pushed line : List α) (seen : ε) : Prop where
  mem : ∀ x ∈ line, x ∈ pushed
  sorted : (line.filter fence).Pairwise fun x y => epoch x ≤ epoch y
  seen_le : ∀ g ∈ line, fence g = true → seen ≤ epoch g
  seen_pushed : (∀ e, seen ≤ e) ∨ ∃ f ∈ pushed, fence f = true ∧ seen ≤ epoch f
  reached : ∀ f ∈ pushed, fence f = true → Reached fence epoch seen line (epoch f)
  before : ∀ l x r f, line = l ++ x :: r → fence x = false → fence f = true →
    [f, x].Sublist pushed → Reached fence epoch seen l (epoch f)

variable {fence epoch} {pushed line l r : List α} {x y f : α} {seen seen' e : ε}

theorem inOrder_of_prefix (h : InOrder fence epoch (pushed ++ l)) : InOrder fence epoch pushed := by
  rw [InOrder, filter_append] at h
  exact (pairwise_append.mp h).1

theorem InOrder.le_last (h : InOrder fence epoch (pushed ++ [x])) (hx : fence x = true)
    (hf : f ∈ pushed) (hfence : fence f = true) : epoch f ≤ epoch x := by
  rw [InOrder, filter_append] at h
  have hlast : x ∈ [x].filter fence := by simp [hx]
  exact (pairwise_append.mp h).2.2 f (mem_filter.mpr ⟨hf, hfence⟩) x hlast

theorem Reached.mono (h : Reached fence epoch seen l e)
    (hsub : ∀ g ∈ l, fence g = true → Reached fence epoch seen' r (epoch g))
    (hseen : seen ≤ seen') : Reached fence epoch seen' r e := by
  rcases h with hle | ⟨g, hg, hfence, hle⟩
  · exact .inl (hle.trans hseen)
  · rcases hsub g hg hfence with hle' | ⟨g', hg', hfence', hle'⟩
    · exact .inl (hle.trans hle')
    · exact .inr ⟨g', hg', hfence', hle.trans hle'⟩

theorem reached_of_mem (hx : x ∈ l) (hfence : fence x = true) :
    Reached fence epoch seen l (epoch x) :=
  .inr ⟨x, hx, hfence, le_rfl⟩

theorem Reached.subset (h : Reached fence epoch seen l e) (hsub : ∀ g ∈ l, fence g = true → g ∈ r) :
    Reached fence epoch seen r e :=
  h.mono (fun g hg hfence => reached_of_mem (hsub g hg hfence) hfence) le_rfl

theorem sound_nil (hseen : ∀ e, seen ≤ e) : Sound fence epoch ([] : List α) [] seen where
  mem x hx := absurd hx not_mem_nil
  sorted := List.Pairwise.nil
  seen_le g hg := absurd hg not_mem_nil
  seen_pushed := .inl hseen
  reached f hf := absurd hf not_mem_nil
  before l x r f hline := absurd hline (by simp)

theorem pair_sublist_of_ne (h : [f, y].Sublist (pushed ++ [x])) (hne : y ≠ x) :
    [f, y].Sublist pushed := by
  obtain ⟨l₁, l₂, hsplit, hl₁, hl₂⟩ := sublist_append_iff.mp h
  cases l₂ with
  | nil =>
    rw [append_nil] at hsplit
    rw [hsplit]
    exact hl₁
  | cons z l₂ =>
    -- The last entry would be the last of the pair.
    obtain rfl : l₂ = [] := by
      have hlen := hl₂.length_le
      rw [length_cons, length_singleton] at hlen
      exact eq_nil_of_length_eq_zero (by omega)
    obtain rfl : z = x := mem_singleton.mp (hl₂.subset mem_cons_self)
    rw [show [f, y] = [f] ++ [y] from rfl] at hsplit
    have hlast := (append_inj' hsplit rfl).2
    exact absurd (singleton_inj.mp hlast) hne

theorem split_cases {l' r' : List α} (h : l ++ r = l' ++ y :: r') :
    (∃ m, l = l' ++ y :: m ∧ r' = m ++ r) ∨ ∃ m, l' = l ++ m ∧ r = m ++ y :: r' := by
  rcases append_eq_append_iff.mp h with ⟨m, hl', hr⟩ | ⟨m, hl, hr'⟩
  · exact .inr ⟨m, hl', hr⟩
  · cases m with
    | nil =>
      rw [append_nil] at hl
      exact .inr ⟨[], by rw [hl, append_nil], hr'.symm⟩
    | cons a m =>
      obtain ⟨rfl, htail⟩ := cons_eq_cons.mp hr'
      exact .inl ⟨m, hl, htail⟩

/-- **A push**: behind everything, or over the newest entry when both are fences. -/
theorem Sound.push (h : Sound fence epoch pushed line seen) (hfresh : x ∉ pushed)
    (horder : InOrder fence epoch (pushed ++ [x])) (hline : line = l ++ r)
    (hrest : ∀ g ∈ r, fence g = true → fence x = true) :
    Sound fence epoch (pushed ++ [x]) (l ++ [x]) seen := by
  subst hline
  refine ⟨?_, ?_, ?_, ?_, ?_, ?_⟩
  · intro y hy
    rcases mem_append.mp hy with hy | hy
    · exact mem_append_left _ (h.mem y (mem_append_left _ hy))
    · exact mem_append_right _ hy
  · have hsorted := h.sorted
    rw [filter_append] at hsorted
    rw [filter_append, pairwise_append]
    refine ⟨(pairwise_append.mp hsorted).1, (pairwise_singleton _ x).filter fence, ?_⟩
    intro g hg y hy
    obtain ⟨hg, hfence⟩ := mem_filter.mp hg
    obtain ⟨hy, hx⟩ := mem_filter.mp hy
    obtain rfl := mem_singleton.mp hy
    exact horder.le_last hx (h.mem g (mem_append_left _ hg)) hfence
  · intro g hg hfence
    rcases mem_append.mp hg with hg | hg
    · exact h.seen_le g (mem_append_left _ hg) hfence
    · obtain rfl := mem_singleton.mp hg
      rcases h.seen_pushed with hall | ⟨f, hf, hffence, hle⟩
      · exact hall _
      · exact hle.trans (horder.le_last hfence hf hffence)
  · rcases h.seen_pushed with hall | ⟨f, hf, hffence, hle⟩
    · exact .inl hall
    · exact .inr ⟨f, mem_append_left _ hf, hffence, hle⟩
  · intro f hf hfence
    rcases mem_append.mp hf with hf | hf
    · apply (h.reached f hf hfence).mono _ le_rfl
      intro g hg hgfence
      rcases mem_append.mp hg with hgl | hgr
      · exact reached_of_mem (mem_append_left _ hgl) hgfence
      · have hx := hrest g hgr hgfence
        exact .inr ⟨x, mem_append_right _ mem_cons_self, hx,
          horder.le_last hx (h.mem g hg) hgfence⟩
    · obtain rfl := mem_singleton.mp hf
      exact reached_of_mem (mem_append_right _ mem_cons_self) hfence
  · intro l' y r' f hsplit hy hfence hpair
    rcases split_cases hsplit with ⟨m, rfl, -⟩ | ⟨m, rfl, hm⟩
    · have hmem : y ∈ pushed := h.mem y (by simp)
      have hne : y ≠ x := by
        rintro rfl
        exact hfresh hmem
      have hold : l' ++ y :: m ++ r = l' ++ y :: (m ++ r) := by simp
      exact h.before l' y (m ++ r) f hold hy hfence (pair_sublist_of_ne hpair hne)
    · -- The entry is the new one.
      obtain ⟨rfl, hxy, -⟩ : m = [] ∧ x = y ∧ r' = [] := by
        cases m with
        | nil => simpa using hm
        | cons a m => simp at hm
      subst hxy
      have hne : f ≠ x := by
        rintro rfl
        rw [hfence] at hy
        cases hy
      have hf : f ∈ pushed := by
        rcases mem_append.mp (hpair.subset mem_cons_self) with hf | hf
        · exact hf
        · exact absurd (mem_singleton.mp hf) hne
      rw [append_nil]
      apply (h.reached f hf hfence).subset
      intro g hg hgfence
      rcases mem_append.mp hg with hg | hg
      · exact hg
      · rw [hrest g hg hgfence] at hy
        cases hy

/-- **A drop** of an entry that is not a fence. -/
theorem Sound.drop (h : Sound fence epoch pushed (l ++ x :: r) seen) (hx : fence x = false) :
    Sound fence epoch pushed (l ++ r) seen := by
  have hkept : ∀ g ∈ l ++ x :: r, fence g = true → g ∈ l ++ r := by
    intro g hg hfence
    rcases mem_append.mp hg with hg | hg
    · exact mem_append_left _ hg
    · rcases mem_cons.mp hg with rfl | hg
      · rw [hfence] at hx
        cases hx
      · exact mem_append_right _ hg
  have hsub : (l ++ r).Sublist (l ++ x :: r) :=
    (List.Sublist.refl l).append (sublist_cons_self x r)
  refine ⟨fun y hy => h.mem y (hsub.subset hy), h.sorted.sublist (hsub.filter fence),
    fun g hg => h.seen_le g (hsub.subset hg), h.seen_pushed,
    fun f hf hfence => (h.reached f hf hfence).subset hkept, ?_⟩
  intro l' y r' f hsplit hy hfence hpair
  rcases split_cases hsplit with ⟨m, rfl, -⟩ | ⟨m, rfl, hm⟩
  · exact h.before l' y (m ++ x :: r) f (by simp) hy hfence hpair
  · -- Behind the entry that was dropped.
    have hold : l ++ x :: r = (l ++ x :: m) ++ y :: r' := by simp [hm]
    apply (h.before _ y r' f hold hy hfence hpair).subset
    intro g hg hgfence
    rcases mem_append.mp hg with hg | hg
    · exact mem_append_left _ hg
    · rcases mem_cons.mp hg with rfl | hg
      · rw [hgfence] at hx
        cases hx
      · exact mem_append_right _ hg

/-- **A fence is served**: it raises the epoch. -/
theorem Sound.serve_fence (h : Sound fence epoch pushed (x :: line) seen) (hx : fence x = true) :
    seen ≤ epoch x ∧ Sound fence epoch pushed line (epoch x) := by
  have hseen : seen ≤ epoch x := h.seen_le x mem_cons_self hx
  have hsorted := h.sorted
  rw [filter_cons_of_pos hx] at hsorted
  obtain ⟨hle, hsorted⟩ := pairwise_cons.mp hsorted
  have hreached : ∀ l : List α, ∀ g ∈ x :: l, fence g = true →
      Reached fence epoch (epoch x) l (epoch g) := by
    intro l g hg hfence
    rcases mem_cons.mp hg with rfl | hg
    · exact .inl le_rfl
    · exact reached_of_mem hg hfence
  refine ⟨hseen, fun y hy => h.mem y (mem_cons_of_mem x hy), hsorted,
    fun g hg hfence => hle g (mem_filter.mpr ⟨hg, hfence⟩),
    .inr ⟨x, h.mem x mem_cons_self, hx, le_rfl⟩, ?_, ?_⟩
  · intro f hf hfence
    exact (h.reached f hf hfence).mono (hreached line) hseen
  · intro l y r f hline hy hfence hpair
    exact (h.before (x :: l) y r f (by rw [hline]; rfl) hy hfence hpair).mono (hreached l) hseen

/-- **Another entry is served**, after every fence pushed before it. -/
theorem Sound.serve (h : Sound fence epoch pushed (x :: line) seen) (hx : fence x = false) :
    (∀ f, fence f = true → [f, x].Sublist pushed → epoch f ≤ seen) ∧
      Sound fence epoch pushed line seen := by
  refine ⟨?_, h.drop (l := []) hx⟩
  intro f hf hpair
  rcases h.before [] x line f rfl hx hf hpair with hle | ⟨g, hg, -⟩
  · exact hle
  · exact absurd hg not_mem_nil

end Fenced
