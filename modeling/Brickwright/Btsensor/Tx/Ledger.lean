import Brickwright.Btsensor.Tx.Contents

/-!
# The ledger of a run

The notes of a run say which items came in and which went out and why. `Ledger` is what they have to
do with what is queued, and moves keep it: every item has a ticket of its own, it is queued in one
place or it has been removed once, and what is queued is what was admitted.
-/

namespace Brickwright.Btsensor.Tx

open List

structure Ledger (l : List Note) (c : Contents) : Prop where
  ok : c.Ok
  balance : ∀ n, l.countP (Note.admits n) = l.countP (Note.removes n) + c.tickets n
  once : ∀ n, l.countP (Note.admits n) ≤ 1
  fresh : ∀ n, c.ticket < n → l.countP (Note.admits n) = 0
  admitted : ∀ k x, c.Has k x → .admitted k x ∈ l
  removed : ∀ k x why, .removed k x why ∈ l → .admitted k x ∈ l ∧
    (why = .evicted → k = .frame) ∧ (why = .stale → x.tag.link = .ble)

variable {c c' : Contents} {l notes : List Note} {k k' : Kind} {x y : Slot} {why : Reason}

theorem index_of_countP_le_one {α : Type} {p : α → Bool} {l : List α} (h : l.countP p ≤ 1)
    {i j : Nat} {a b : α} (hi : l[i]? = some a) (hj : l[j]? = some b) (ha : p a = true)
    (hb : p b = true) : i = j := by
  induction l generalizing i j with
  | nil => cases hi
  | cons x l ih =>
    have hle : l.countP p ≤ (x :: l).countP p := (sublist_cons_self x l).countP_le
    have hpos : ∀ {m : Nat} {z : α}, l[m]? = some z → p z = true → 0 < l.countP p :=
      fun hm hz => countP_pos_iff.mpr ⟨_, mem_of_getElem? hm, hz⟩
    cases i with
    | zero =>
      cases j with
      | zero => rfl
      | succ j =>
        cases hi
        have := hpos hj hb
        rw [countP_cons_of_pos ha] at h
        omega
    | succ i =>
      cases j with
      | zero =>
        cases hj
        have := hpos hi ha
        rw [countP_cons_of_pos hb] at h
        omega
      | succ j => exact congrArg _ (ih (Nat.le_trans hle h) hi hj)

theorem Move.removed (h : Move c notes c') (hn : .removed k x why ∈ notes) :
    c.Has k x ∧ (why = .evicted → k = .frame) ∧ (why = .stale → x.tag.link = .ble) := by
  cases h with
  | silent n h =>
    cases mem_singleton.mp hn
    exact absurd h id
  | drop p why' hwhy =>
    obtain ⟨k', -, hk⟩ := mem_flatMap.mp hn
    obtain ⟨o, ho, heq⟩ := mem_filterMap.mp hk
    obtain ⟨y, hy, heq'⟩ := Option.map_eq_some_iff.mp heq
    cases heq'
    obtain ⟨rfl, -⟩ := Option.filter_eq_some_iff.mp hy
    exact ⟨ho, fun h => absurd h hwhy.1, fun h => absurd h hwhy.2⟩
  | relink => exact absurd hn not_mem_nil
  | put => cases mem_singleton.mp hn
  | take k' i y why' h hevicted hstale =>
    cases mem_singleton.mp hn
    exact ⟨mem_of_getElem? h, hevicted, hstale⟩

theorem Move.admits (h : Move c notes c') (n : Nat) :
    notes.countP (Note.admits n) = 0 ∨
      (n = c.ticket + 1 ∧ c'.ticket = c.ticket + 1 ∧ notes.countP (Note.admits n) = 1) := by
  cases h with
  | silent note h =>
    left
    rw [countP_singleton, h.not_admits]
    rfl
  | drop p why => exact .inl (countP_admits_removals p why n)
  | relink => exact .inl rfl
  | put k i x _ _ _ _ hticket =>
    by_cases hn : x.tag.ticket = n
    · right
      refine ⟨hn ▸ hticket, rfl, ?_⟩
      rw [countP_singleton, Note.admits, decide_eq_true hn]
      rfl
    · left
      rw [countP_singleton, Note.admits, decide_eq_false hn]
      rfl
  | take => exact .inl rfl

namespace Ledger

theorem move (hl : Ledger l c) (h : Move c notes c') : Ledger (l ++ notes) c' where
  ok := h.ok hl.ok
  balance n := by
    have hmove := h.balance n
    have hbefore := hl.balance n
    rw [countP_append, countP_append]
    omega
  once n := by
    rw [countP_append]
    rcases h.admits n with hno | ⟨hn, -, hone⟩
    · have := hl.once n
      omega
    · have := hl.fresh n (by omega)
      omega
  fresh n hn := by
    rw [countP_append]
    have hle := h.ticket_le
    have := hl.fresh n (by omega)
    rcases h.admits n with hno | ⟨heq, hticket, -⟩
    · omega
    · omega
  admitted k x hx := by
    rcases h.has hx with hbefore | ⟨hnote, -⟩
    · exact mem_append_left _ (hl.admitted k x hbefore)
    · exact mem_append_right _ hnote
  removed k x why hn := by
    rcases mem_append.mp hn with hn | hn
    · obtain ⟨hadmitted, hreason⟩ := hl.removed k x why hn
      exact ⟨mem_append_left _ hadmitted, hreason⟩
    · obtain ⟨hhas, hreason⟩ := h.removed hn
      exact ⟨mem_append_left _ (hl.admitted k x hhas), hreason⟩

theorem moves (hl : Ledger l c) (h : Moves c notes c') : Ledger (l ++ notes) c' :=
  h.invariant (fun _ _ _ _ hl h => hl.move h) hl

theorem tickets_le (hl : Ledger l c) (n : Nat) : c.tickets n ≤ 1 := by
  have := hl.balance n
  have := hl.once n
  omega

/-- **A ticket is in one place.** -/
theorem place (hl : Ledger l c) {i j : Nat} (hx : (c.items k)[i]? = some (some x))
    (hy : (c.items k')[j]? = some (some y)) (h : x.tag.ticket = y.tag.ticket) :
    k = k' ∧ i = j ∧ x = y := by
  have hle := hl.tickets_le x.tag.ticket
  have hpx : Contents.holds x.tag.ticket (some x) = true := decide_eq_true rfl
  have hpy : Contents.holds x.tag.ticket (some y) = true := decide_eq_true h.symm
  have hcx : 0 < (c.items k).countP (Contents.holds x.tag.ticket) :=
    countP_pos_iff.mpr ⟨_, mem_of_getElem? hx, hpx⟩
  have hcy : 0 < (c.items k').countP (Contents.holds x.tag.ticket) :=
    countP_pos_iff.mpr ⟨_, mem_of_getElem? hy, hpy⟩
  have hk : k = k' := by
    rw [Contents.tickets] at hle
    cases k <;> cases k' <;> first | rfl | omega
  subst hk
  have hone : (c.items k).countP (Contents.holds x.tag.ticket) ≤ 1 := by
    rw [Contents.tickets] at hle
    cases k <;> omega
  obtain rfl := index_of_countP_le_one hone hx hy hpx hpy
  cases hx.symm.trans hy
  exact ⟨rfl, rfl, rfl⟩

theorem admitted_unique (hl : Ledger l c) (hx : .admitted k x ∈ l) (hy : .admitted k' y ∈ l)
    (h : x.tag.ticket = y.tag.ticket) : k = k' ∧ x = y := by
  obtain ⟨i, hi⟩ := mem_iff_getElem?.mp hx
  obtain ⟨j, hj⟩ := mem_iff_getElem?.mp hy
  have hij := index_of_countP_le_one (hl.once x.tag.ticket) hi hj (decide_eq_true rfl)
    (decide_eq_true h.symm)
  subst hij
  cases hi.symm.trans hj
  exact ⟨rfl, rfl⟩

theorem old (hl : Ledger l c) (hx : .admitted k x ∈ l) : x.tag.ticket ≤ c.ticket := by
  by_contra hgt
  have hpos : 0 < l.countP (Note.admits x.tag.ticket) :=
    countP_pos_iff.mpr ⟨_, hx, decide_eq_true rfl⟩
  rw [hl.fresh x.tag.ticket (Nat.not_le.mp hgt)] at hpos
  exact Nat.lt_irrefl _ hpos

theorem tickets_pos (n : Nat) : 0 < c.tickets n ↔ ∃ k x, c.Has k x ∧ x.tag.ticket = n := by
  have hiff : ∀ k, 0 < (c.items k).countP (Contents.holds n) ↔
      ∃ x, c.Has k x ∧ x.tag.ticket = n := by
    intro k
    rw [countP_pos_iff]
    constructor
    · rintro ⟨o, ho, hn⟩
      cases o with
      | none => exact absurd hn Bool.false_ne_true
      | some x => exact ⟨x, ho, of_decide_eq_true hn⟩
    · rintro ⟨x, hx, hn⟩
      exact ⟨some x, hx, decide_eq_true hn⟩
  rw [Contents.tickets]
  constructor
  · intro h
    rcases Nat.eq_zero_or_pos ((c.items .response).countP (Contents.holds n)) with hr | hr
    · obtain ⟨x, hx⟩ := (hiff .frame).mp (by omega)
      exact ⟨_, x, hx⟩
    · obtain ⟨x, hx⟩ := (hiff .response).mp hr
      exact ⟨_, x, hx⟩
  · rintro ⟨k, x, hx⟩
    have := (hiff k).mpr ⟨x, hx⟩
    cases k <;> omega

/-- **The fate of an item**: it is queued as it was admitted and no note removes it, or it is not
queued and one note does. -/
theorem fate (hl : Ledger l c) (hx : .admitted k x ∈ l) :
    (c.Has k x ∧ l.countP (Note.removes x.tag.ticket) = 0) ∨
      ((∀ k' y, c.Has k' y → y.tag.ticket ≠ x.tag.ticket) ∧
        l.countP (Note.removes x.tag.ticket) = 1) := by
  have hpos : 0 < l.countP (Note.admits x.tag.ticket) :=
    countP_pos_iff.mpr ⟨_, hx, decide_eq_true rfl⟩
  have hbalance := hl.balance x.tag.ticket
  have honce := hl.once x.tag.ticket
  rcases Nat.eq_zero_or_pos (c.tickets x.tag.ticket) with hzero | hqueued
  · right
    refine ⟨fun k' y hy heq => ?_, by omega⟩
    have := (tickets_pos x.tag.ticket).mpr ⟨k', y, hy, heq⟩
    omega
  · left
    obtain ⟨k', y, hy, heq⟩ := (tickets_pos x.tag.ticket).mp hqueued
    obtain ⟨rfl, rfl⟩ := hl.admitted_unique (hl.admitted k' y hy) hx heq
    exact ⟨hy, by omega⟩

end Ledger

theorem Moves.ticket_le (h : Moves c notes c') : c.ticket ≤ c'.ticket := by
  induction h with
  | nil => exact Nat.le_refl _
  | cons h _ ih => exact Nat.le_trans h.ticket_le ih

theorem Moves.has (h : Moves c notes c') (hx : c'.Has k x) :
    c.Has k x ∨ c.ticket < x.tag.ticket := by
  induction h with
  | nil => exact .inl hx
  | cons h _ ih =>
    rcases ih hx with hbefore | hnew
    · rcases h.has hbefore with hbefore | ⟨-, hticket, -⟩
      · exact .inl hbefore
      · exact .inr (by omega)
    · exact .inr (Nat.lt_of_le_of_lt h.ticket_le hnew)

theorem Moves.removed (h : Moves c notes c') (hn : .removed k x why ∈ notes) :
    c.Has k x ∨ c.ticket < x.tag.ticket := by
  induction h with
  | nil => exact absurd hn not_mem_nil
  | cons h _ ih =>
    rcases mem_append.mp hn with hn | hn
    · exact .inl (h.removed hn).1
    · rcases ih hn with hbefore | hnew
      · rcases h.has hbefore with hbefore | ⟨-, hticket, -⟩
        · exact .inl hbefore
        · exact .inr (by omega)
      · exact .inr (Nat.lt_of_le_of_lt h.ticket_le hnew)

/-! ## What is gone -/

/-- Nothing queued satisfies `P`, and nothing that is admitted later will. -/
structure Gone (P : Kind → Slot → Prop) (c : Contents) : Prop where
  absent : ∀ k x, c.Has k x → ¬ P k x
  old : ∀ k x, P k x → x.tag.ticket ≤ c.ticket

theorem Gone.move {P : Kind → Slot → Prop} (hg : Gone P c) (h : Move c notes c') : Gone P c' where
  absent k x hx hp := by
    rcases h.has hx with hbefore | ⟨-, hticket, -⟩
    · exact hg.absent k x hbefore hp
    · have := hg.old k x hp
      omega
  old k x hp := Nat.le_trans (hg.old k x hp) h.ticket_le

theorem Gone.moves {P : Kind → Slot → Prop} (hg : Gone P c) (h : Moves c notes c') :
    Gone P c' := by
  induction h with
  | nil => exact hg
  | cons h _ ih => exact ih (hg.move h)

/-! ## Copies -/

/-- What a copy of an item the pump has taken up says of what is queued: if its ticket still is,
then in the slot it was copied from, unchanged; and nothing of its link in the same array is
older. -/
structure Pending.Copied (x : Pending) (c : Contents) : Prop where
  old : x.item.tag.ticket ≤ c.ticket
  place : ∀ k i y, (c.items k)[i]? = some (some y) → y.tag.ticket = x.item.tag.ticket →
    k = x.kind ∧ i = x.slot ∧ y = x.item
  first : ∀ y, c.Has x.kind y → y.tag.link = x.item.tag.link → x.item.tag.ticket ≤ y.tag.ticket

theorem Pending.Copied.move {x : Pending} (hx : x.Copied c) (h : Move c notes c') :
    x.Copied c' where
  old := Nat.le_trans hx.old h.ticket_le
  place k i y hy heq := by
    rcases h.get hy with hbefore | ⟨-, hticket, -⟩
    · exact hx.place k i y hbefore heq
    · have := hx.old
      omega
  first y hy hlink := by
    rcases h.has hy with hbefore | ⟨-, hticket, -⟩
    · exact hx.first y hbefore hlink
    · have := hx.old
      omega

theorem Pending.Copied.moves {x : Pending} (hx : x.Copied c) (h : Moves c notes c') :
    x.Copied c' := by
  induction h with
  | nil => exact hx
  | cons h _ ih => exact ih (hx.move h)

end Brickwright.Btsensor.Tx
