import Brickwright.Btsensor.Tx.Basic

/-!
# What is queued

Seen from outside, the two arrays are slots with an item or none. A section does to them only this:
it clears slots, it changes the links in a way no item notices, it puts an item with a new ticket
into a free slot, or it takes one out. `Move` is one of these with its notes, and what holds of
moves holds of everything the module does:

* what was admitted is removed or queued (`Move.balance`), under a ticket of its own;
* there is always a free slot, and every item belongs to a link that is online with the item's
  session (`Move.ok`).
-/

namespace Brickwright.Btsensor.Tx

open List

def Slot.content (x : Slot) : Option Slot := if x.tag.used then some x else none

structure Contents where
  items : Kind → List (Option Slot)
  ticket : Nat
  online : Link → Bool
  sessions : Link → UInt32

def Queues.contents (q : Queues) : Contents where
  items k := (q.slots k).map Slot.content
  ticket := q.ticket
  online := q.online
  sessions := q.sessions

namespace Contents

/-- `x` is queued. -/
def Has (c : Contents) (k : Kind) (x : Slot) : Prop := some x ∈ c.items k

/-- Whether a slot has the item with a ticket. -/
def holds (n : Nat) (o : Option Slot) : Bool := o.any fun x => decide (x.tag.ticket = n)

def tickets (c : Contents) (n : Nat) : Nat :=
  (c.items .response).countP (holds n) + (c.items .frame).countP (holds n)

structure Ok (c : Contents) : Prop where
  /-- One slot of each array stays free, and each has another. -/
  room : ∀ k, (c.items k).countP Option.isSome < (c.items k).length
  two : ∀ k, 2 ≤ (c.items k).length
  used : ∀ k x, c.Has k x → x.tag.used = true
  /-- An item belongs to a link that is online with the item's session. -/
  link : ∀ k x, c.Has k x → c.online x.tag.link = true ∧ c.sessions x.tag.link = x.tag.session
  old : ∀ k x, c.Has k x → x.tag.ticket ≤ c.ticket
  ticket : c.ticket ≤ maxTicket

def setItem (c : Contents) (k : Kind) (i : Nat) (o : Option Slot) : Contents :=
  { c with items := Function.update c.items k ((c.items k).set i o) }

/-- Take out what `p` is true of. -/
def drop (c : Contents) (p : Slot → Bool) : Contents :=
  { c with items := fun k => (c.items k).map fun o => o.filter fun x => !p x }

def removals (c : Contents) (p : Slot → Bool) (why : Reason) : List Note :=
  [Kind.frame, Kind.response].flatMap fun k =>
    (c.items k).filterMap fun o => (o.filter p).map fun x => .removed k x why

end Contents

/-! ## Moves -/

/-- A note that says nothing of what is queued. -/
def Note.Silent : Note → Prop
  | .admitted _ _ => False
  | .removed _ _ _ => False
  | _ => True

inductive Move (c : Contents) : List Note → Contents → Prop where
  | silent (n : Note) (h : n.Silent) : Move c [n] c
  | drop (p : Slot → Bool) (why : Reason) (h : why ≠ .evicted ∧ why ≠ .stale) :
      Move c (c.removals p why) (c.drop p)
  /-- The links change; no queued item is of a link that did. -/
  | relink (online : Link → Bool) (sessions : Link → UInt32)
      (h : ∀ k x, c.Has k x → online x.tag.link = c.online x.tag.link ∧
        sessions x.tag.link = c.sessions x.tag.link) :
      Move c [] { c with online := online, sessions := sessions }
  /-- An item with the next ticket goes into a free slot that is not the last. -/
  | put (k : Kind) (i : Nat) (x : Slot) (hfree : (c.items k)[i]? = some none)
      (hroom : (c.items k).countP Option.isSome + 1 < (c.items k).length)
      (hlink : c.online x.tag.link = true ∧ c.sessions x.tag.link = x.tag.session)
      (hused : x.tag.used = true) (hticket : x.tag.ticket = c.ticket + 1)
      (hmax : c.ticket < maxTicket) :
      Move c [.admitted k x] { c.setItem k i (some x) with ticket := c.ticket + 1 }
  | take (k : Kind) (i : Nat) (x : Slot) (why : Reason) (h : (c.items k)[i]? = some (some x))
      (hevicted : why = .evicted → k = .frame) (hstale : why = .stale → x.tag.link = .ble) :
      Move c [.removed k x why] (c.setItem k i none)

inductive Moves : Contents → List Note → Contents → Prop where
  | nil (c : Contents) : Moves c [] c
  | cons {c c' c'' : Contents} {notes notes' : List Note} (h : Move c notes c')
      (h' : Moves c' notes' c'') : Moves c (notes ++ notes') c''

namespace Moves

variable {c c' c'' : Contents} {notes notes' : List Note}

theorem of_move (h : Move c notes c') : Moves c notes c' := by
  have := cons h (nil c')
  rwa [append_nil] at this

theorem trans (h : Moves c notes c') (h' : Moves c' notes' c'') :
    Moves c (notes ++ notes') c'' := by
  induction h with
  | nil => exact h'
  | cons h _ ih =>
    rw [append_assoc]
    exact cons h (ih h')

theorem silent (h : ∀ n ∈ notes, n.Silent) : Moves c notes c := by
  induction notes with
  | nil => exact nil c
  | cons n notes ih =>
    refine cons (.silent n (h n mem_cons_self)) (ih ?_)
    exact fun n hn => h n (mem_cons_of_mem _ hn)

theorem invariant {Inv : List Note → Contents → Prop}
    (hmove : ∀ l c notes c', Inv l c → Move c notes c' → Inv (l ++ notes) c')
    (h : Moves c notes c') {l : List Note} (h0 : Inv l c) : Inv (l ++ notes) c' := by
  induction h generalizing l with
  | nil =>
    rw [append_nil]
    exact h0
  | cons h _ ih =>
    rw [← append_assoc]
    exact ih (hmove _ _ _ _ h0 h)

end Moves

/-! ## Slots -/

section Slots

variable {c : Contents} {k k' : Kind} {i j : Nat} {x y : Slot} {o : Option Slot}

theorem Contents.has_iff : c.Has k x ↔ ∃ i : Nat, (c.items k)[i]? = some (some x) :=
  mem_iff_getElem?

theorem Contents.setItem_get (hi : i < (c.items k).length) :
    ((c.setItem k i o).items k')[j]? =
      if k' = k ∧ j = i then some o else (c.items k')[j]? := by
  rw [setItem]
  dsimp only
  by_cases hk : k' = k
  · subst hk
    rw [Function.update_self, List.getElem?_set]
    by_cases hj : i = j
    · subst hj
      rw [if_pos rfl, if_pos hi, if_pos ⟨rfl, rfl⟩]
    · rw [if_neg hj, if_neg fun h => hj h.2.symm]
  · rw [Function.update_of_ne hk, if_neg fun h => hk h.1]

theorem lt_of_get (h : (c.items k)[i]? = some o) : i < (c.items k).length :=
  (List.getElem?_eq_some_iff.mp h).1

theorem Contents.has_setItem (hi : i < (c.items k).length)
    (h : (c.setItem k i o).Has k' y) : c.Has k' y ∨ (k' = k ∧ o = some y) := by
  obtain ⟨j, hj⟩ := has_iff.mp h
  rw [setItem_get hi] at hj
  split at hj
  · next heq =>
    cases hj
    exact .inr ⟨heq.1, rfl⟩
  · exact .inl (has_iff.mpr ⟨j, hj⟩)

theorem Contents.has_drop {p : Slot → Bool} : (c.drop p).Has k y ↔ c.Has k y ∧ p y = false := by
  rw [Has, Has, drop]
  rw [mem_map]
  constructor
  · rintro ⟨o, ho, heq⟩
    obtain ⟨rfl, hp⟩ := Option.filter_eq_some_iff.mp heq
    exact ⟨ho, by simpa using hp⟩
  · rintro ⟨hy, hp⟩
    exact ⟨some y, hy, by simp [Option.filter, hp]⟩

theorem countP_setItem {f : Option Slot → Bool} {o' : Option Slot} (h : (c.items k)[i]? = some o') :
    ((c.setItem k i o).items k).countP f + (if f o' then 1 else 0) =
      (c.items k).countP f + if f o then 1 else 0 := by
  obtain ⟨hi, hget⟩ := List.getElem?_eq_some_iff.mp h
  rw [Contents.setItem]
  dsimp only
  rw [Function.update_self, countP_set hi, hget]
  have hle : (if f o' then 1 else 0) ≤ (c.items k).countP f := by
    split
    · next hf => exact countP_pos_iff.mpr ⟨o', mem_of_getElem? h, hf⟩
    · exact Nat.zero_le _
  omega

theorem tickets_setItem {o' : Option Slot} (h : (c.items k)[i]? = some o') (n : Nat) :
    (c.setItem k i o).tickets n + (if Contents.holds n o' then 1 else 0) =
      c.tickets n + if Contents.holds n o then 1 else 0 := by
  have hcount := countP_setItem (f := Contents.holds n) (o := o) h
  have hother : ∀ k', k' ≠ k → (c.setItem k i o).items k' = c.items k' :=
    fun k' hk => Function.update_of_ne hk ..
  rw [Contents.tickets, Contents.tickets]
  cases k with
  | response =>
    rw [hother .frame (by decide)]
    omega
  | frame =>
    rw [hother .response (by decide)]
    omega

end Slots

/-! ## What moves keep -/

section Keep

variable {c c' : Contents} {notes : List Note} {k : Kind} {x y : Slot} {p : Slot → Bool}

theorem Contents.length_setItem {i : Nat} {o : Option Slot} (k' : Kind) :
    ((c.setItem k i o).items k').length = (c.items k').length := by
  by_cases hk : k' = k
  · subst hk
    rw [setItem]
    dsimp only
    rw [Function.update_self, length_set]
  · rw [setItem]
    dsimp only
    rw [Function.update_of_ne hk]

theorem Move.length (h : Move c notes c') (k : Kind) :
    (c'.items k).length = (c.items k).length := by
  cases h with
  | silent => rfl
  | drop => exact length_map _
  | relink => rfl
  | put => exact Contents.length_setItem k
  | take => exact Contents.length_setItem k

theorem Move.ticket_le (h : Move c notes c') : c.ticket ≤ c'.ticket := by
  cases h with
  | put => exact Nat.le_succ _
  | _ => exact Nat.le_refl _

theorem Move.get (h : Move c notes c') {i : Nat} (hx : (c'.items k)[i]? = some (some x)) :
    (c.items k)[i]? = some (some x) ∨
      (.admitted k x ∈ notes ∧ x.tag.ticket = c.ticket + 1 ∧ c'.ticket = c.ticket + 1) := by
  cases h with
  | silent => exact .inl hx
  | drop p why =>
    left
    rw [Contents.drop] at hx
    rw [List.getElem?_map, Option.map_eq_some_iff] at hx
    obtain ⟨o, ho, heq⟩ := hx
    obtain ⟨rfl, -⟩ := Option.filter_eq_some_iff.mp heq
    exact ho
  | relink => exact .inl hx
  | put k' j y hfree hroom hlink hused hticket hmax =>
    rw [Contents.setItem_get (lt_of_get hfree)] at hx
    split at hx
    · next heq =>
      cases hx
      rw [heq.1]
      exact .inr ⟨mem_cons_self, hticket, rfl⟩
    · exact .inl hx
  | take k' j y why h =>
    rw [Contents.setItem_get (lt_of_get h)] at hx
    split at hx
    · cases hx
    · exact .inl hx

theorem Move.has (h : Move c notes c') (hx : c'.Has k x) :
    c.Has k x ∨ (.admitted k x ∈ notes ∧ x.tag.ticket = c.ticket + 1 ∧
      c'.ticket = c.ticket + 1) := by
  obtain ⟨i, hi⟩ := Contents.has_iff.mp hx
  exact (h.get hi).imp_left fun h => Contents.has_iff.mpr ⟨i, h⟩

theorem room_setItem {i : Nat} {o o' : Option Slot} (hc : c.Ok) (h : (c.items k)[i]? = some o')
    (hroom : o.isSome = true → (c.items k).countP Option.isSome + 1 < (c.items k).length)
    (k' : Kind) :
    ((c.setItem k i o).items k').countP Option.isSome < ((c.setItem k i o).items k').length := by
  rw [Contents.length_setItem]
  have hbefore := hc.room k'
  by_cases hk : k' = k
  · subst hk
    have hcount := countP_setItem (f := Option.isSome) (o := o) h
    by_cases ho : o.isSome = true
    · have := hroom ho
      rw [if_pos ho] at hcount
      omega
    · rw [if_neg ho] at hcount
      omega
  · rw [Contents.setItem]
    dsimp only
    rwa [Function.update_of_ne hk]

/-- A move leaves every queue a free slot, and each entry a link with its session. -/
theorem Move.ok (hc : c.Ok) (h : Move c notes c') : c'.Ok := by
  have htwo : ∀ k, 2 ≤ (c'.items k).length := fun k => by
    rw [h.length]
    exact hc.two k
  cases h with
  | silent => exact hc
  | drop p =>
    refine ⟨fun k => ?_, htwo, ?_, ?_, ?_, hc.ticket⟩
    · have hle : ((c.items k).map fun o => o.filter fun x => !p x).countP Option.isSome ≤
          (c.items k).countP Option.isSome := by
        rw [countP_map]
        apply countP_mono_left
        intro o _ ho
        cases o with
        | none => exact ho
        | some x => rfl
      rw [Contents.drop]
      rw [length_map]
      exact Nat.lt_of_le_of_lt hle (hc.room k)
    · exact fun k x hx => hc.used k x (Contents.has_drop.mp hx).1
    · exact fun k x hx => hc.link k x (Contents.has_drop.mp hx).1
    · exact fun k x hx => hc.old k x (Contents.has_drop.mp hx).1
  | relink online sessions h =>
    refine ⟨hc.room, hc.two, hc.used, fun k x hx => ?_, hc.old, hc.ticket⟩
    obtain ⟨honline, hsession⟩ := h k x hx
    dsimp only
    rw [honline, hsession]
    exact hc.link k x hx
  | put k i x hfree hroom hlink hused hticket hmax =>
    have hhas : ∀ k' y, (c.setItem k i (some x)).Has k' y → c.Has k' y ∨ y = x := by
      intro k' y hy
      rcases Contents.has_setItem (lt_of_get hfree) hy with h | ⟨-, heq⟩
      · exact .inl h
      · cases heq
        exact .inr rfl
    refine ⟨room_setItem hc hfree fun _ => hroom, htwo, ?_, ?_, ?_, hmax⟩
    · intro k' y hy
      rcases hhas k' y hy with h | rfl
      · exact hc.used k' y h
      · exact hused
    · intro k' y hy
      rcases hhas k' y hy with h | rfl
      · exact hc.link k' y h
      · exact hlink
    · intro k' y hy
      rcases hhas k' y hy with h | rfl
      · exact Nat.le_succ_of_le (hc.old k' y h)
      · exact Nat.le_of_eq hticket
  | take k i x why h =>
    have hhas : ∀ k' y, (c.setItem k i none).Has k' y → c.Has k' y := by
      intro k' y hy
      rcases Contents.has_setItem (lt_of_get h) hy with h | ⟨-, heq⟩
      · exact h
      · cases heq
    refine ⟨room_setItem hc h (fun h => Bool.noConfusion h), htwo, ?_, ?_, ?_, hc.ticket⟩
    · exact fun k' y hy => hc.used k' y (hhas k' y hy)
    · exact fun k' y hy => hc.link k' y (hhas k' y hy)
    · exact fun k' y hy => hc.old k' y (hhas k' y hy)

theorem Moves.keep (h : Moves c notes c') (hc : c.Ok) :
    c'.Ok ∧ ∀ k, (c'.items k).length = (c.items k).length := by
  induction h with
  | nil => exact ⟨hc, fun _ => rfl⟩
  | cons h _ ih =>
    obtain ⟨hok, hlen⟩ := ih (h.ok hc)
    exact ⟨hok, fun k => (hlen k).trans (h.length k)⟩

end Keep

/-! ## The balance -/

/-- Whether a note admits the item with a ticket, and whether it removes it. -/
def Note.admits (n : Nat) : Note → Bool
  | .admitted _ x => decide (x.tag.ticket = n)
  | _ => false

def Note.removes (n : Nat) : Note → Bool
  | .removed _ x _ => decide (x.tag.ticket = n)
  | _ => false

section Balance

variable {c c' : Contents} {l notes : List Note} {k : Kind} {x : Slot}

theorem Note.Silent.not_admits {n : Note} (h : n.Silent) (m : Nat) : n.admits m = false := by
  cases n <;> first | rfl | exact absurd h id

theorem Note.Silent.not_removes {n : Note} (h : n.Silent) (m : Nat) : n.removes m = false := by
  cases n <;> first | rfl | exact absurd h id

theorem countP_drop (items : List (Option Slot)) (p : Slot → Bool) (k : Kind) (why : Reason)
    (n : Nat) :
    (items.filterMap fun o => (o.filter p).map fun x => Note.removed k x why).countP
        (Note.removes n) +
      (items.map fun o => o.filter fun x => !p x).countP (Contents.holds n) =
      items.countP (Contents.holds n) := by
  induction items with
  | nil => rfl
  | cons o items ih =>
    cases o with
    | none => simpa [Contents.holds] using ih
    | some x =>
      by_cases hp : p x = true
      · simp only [filterMap_cons, Option.filter_some, hp, if_true, Option.map_some,
          map_cons, countP_cons, Note.removes, Contents.holds, Option.any_some,
          Bool.not_true, Bool.false_eq_true, if_false, Option.any_none, decide_eq_true_eq] at ih ⊢
        omega
      · simp only [filterMap_cons, Option.filter_some, hp, if_false, Option.map_none,
          map_cons, countP_cons, Contents.holds, Option.any_some,
          Bool.not_false, Bool.false_eq_true, if_true] at ih ⊢
        omega

theorem countP_admits_removals (p : Slot → Bool) (why : Reason) (n : Nat) :
    (c.removals p why).countP (Note.admits n) = 0 := by
  rw [countP_eq_zero]
  intro note hnote
  obtain ⟨k, -, hk⟩ := mem_flatMap.mp hnote
  obtain ⟨o, -, ho⟩ := mem_filterMap.mp hk
  obtain ⟨x, -, rfl⟩ := Option.map_eq_some_iff.mp ho
  exact Bool.false_ne_true

/-- **The balance of a move**: what comes in is admitted, what goes out is removed. -/
theorem Move.balance (h : Move c notes c') (n : Nat) :
    notes.countP (Note.admits n) + c.tickets n = notes.countP (Note.removes n) + c'.tickets n := by
  cases h with
  | silent note h =>
    rw [countP_singleton, countP_singleton, h.not_admits, h.not_removes]
  | drop p why =>
    have hframe := countP_drop (c.items .frame) p .frame why n
    have hresponse := countP_drop (c.items .response) p .response why n
    rw [countP_admits_removals, Contents.removals, Contents.tickets, Contents.tickets,
      Contents.drop]
    simp only [flatMap_cons, flatMap_nil, append_nil, countP_append]
    omega
  | relink => rfl
  | put k i x hfree =>
    have htickets := tickets_setItem (o := some x) hfree n
    rw [countP_singleton, countP_singleton]
    change _ = _ + (c.setItem k i (some x)).tickets n
    simp only [Note.admits, Note.removes, Contents.holds, Option.any_some, Option.any_none,
      Bool.false_eq_true, if_false, decide_eq_true_eq] at htickets ⊢
    omega
  | take k i x why h =>
    have htickets := tickets_setItem (o := none) h n
    rw [countP_singleton, countP_singleton]
    simp only [Note.admits, Note.removes, Contents.holds, Option.any_some, Option.any_none,
      Bool.false_eq_true, if_false, decide_eq_true_eq] at htickets ⊢
    omega

end Balance

end Brickwright.Btsensor.Tx
