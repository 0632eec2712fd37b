import Brickwright.Btsensor.Tx.Ledger

/-!
# Every section is a sequence of moves

The loops over the arrays find what their names say, and so each section does to what is queued some
moves and nothing else (`body_moves`).
-/

namespace Brickwright.Btsensor.Tx

open List

/-! ## The loops -/

section Loops

variable {eligible : Tag → Bool} {slots : List Slot} {i : Nat} {x y : Slot}

theorem foldl_older (eligible : Tag → Bool) (l : List (Slot × Nat)) (acc : Nat × Option Nat) :
    (l.foldl (older eligible) acc).1 ≤ acc.1 ∧
    (∀ e ∈ l, e.1.tag.used = true → eligible e.1.tag = true →
      (l.foldl (older eligible) acc).1 ≤ e.1.tag.ticket) ∧
    (l.foldl (older eligible) acc = acc ∨ ∃ e ∈ l, e.1.tag.used = true ∧
      eligible e.1.tag = true ∧ l.foldl (older eligible) acc = (e.1.tag.ticket, some e.2)) := by
  induction l generalizing acc with
  | nil => exact ⟨Nat.le_refl _, fun _ h => absurd h not_mem_nil, .inl rfl⟩
  | cons e l ih =>
    rw [foldl_cons]
    obtain ⟨hle, hall, hcases⟩ := ih (older eligible acc e)
    have hacc : (older eligible acc e).1 ≤ acc.1 ∧
        (e.1.tag.used = true → eligible e.1.tag = true →
          (older eligible acc e).1 ≤ e.1.tag.ticket) ∧
        (older eligible acc e = acc ∨ e.1.tag.used = true ∧ eligible e.1.tag = true ∧
          older eligible acc e = (e.1.tag.ticket, some e.2)) := by
      rw [older]
      split
      · next h =>
        rw [Bool.and_eq_true, Bool.and_eq_true, decide_eq_true_eq] at h
        exact ⟨Nat.le_of_lt h.2, fun _ _ => Nat.le_refl _, .inr ⟨h.1.1, h.1.2, rfl⟩⟩
      · next h =>
        refine ⟨Nat.le_refl _, fun hu he => ?_, .inl rfl⟩
        rw [hu, he, Bool.and_self, Bool.true_and, decide_eq_true_eq] at h
        exact Nat.not_lt.mp h
    refine ⟨Nat.le_trans hle hacc.1, ?_, ?_⟩
    · intro e' he' hu he
      rcases mem_cons.mp he' with rfl | he'
      · exact Nat.le_trans hle (hacc.2.1 hu he)
      · exact hall e' he' hu he
    · rcases hcases with heq | ⟨e', he', hrest⟩
      · rw [heq]
        rcases hacc.2.2 with h | ⟨hu, he, h⟩
        · exact .inl h
        · exact .inr ⟨e, mem_cons_self, hu, he, h⟩
      · exact .inr ⟨e', mem_cons_of_mem _ he', hrest⟩

theorem oldest_some (h : oldest eligible slots = some i) :
    ∃ x, slots[i]? = some x ∧ x.tag.used = true ∧ eligible x.tag = true ∧
      ∀ y ∈ slots, y.tag.used = true → eligible y.tag = true → x.tag.ticket ≤ y.tag.ticket := by
  obtain ⟨-, hall, hcases⟩ := foldl_older eligible slots.zipIdx (maxTicket, none)
  rw [oldest] at h
  rcases hcases with heq | ⟨⟨x, j⟩, hmem, hu, he, heq⟩
  · rw [heq] at h
    cases h
  · rw [heq] at h hall
    cases h
    refine ⟨x, mem_zipIdx_iff_getElem?.mp hmem, hu, he, fun y hy hyu hye => ?_⟩
    obtain ⟨j, hj⟩ := mem_iff_getElem?.mp hy
    exact hall (y, j) (mem_zipIdx_iff_getElem?.mpr hj) hyu hye

/-- There is none, but for the item with the last ticket. -/
theorem oldest_none (h : oldest eligible slots = none) (hy : y ∈ slots)
    (hu : y.tag.used = true) (he : eligible y.tag = true) : maxTicket ≤ y.tag.ticket := by
  obtain ⟨-, hall, hcases⟩ := foldl_older eligible slots.zipIdx (maxTicket, none)
  rw [oldest] at h
  rcases hcases with heq | ⟨e, -, -, -, heq⟩
  · rw [heq] at hall
    obtain ⟨j, hj⟩ := mem_iff_getElem?.mp hy
    exact hall (y, j) (mem_zipIdx_iff_getElem?.mpr hj) hu he
  · rw [heq] at h
    cases h

theorem foldl_lastFree (l : List (Slot × Nat)) (acc : Option Nat) :
    let r := l.foldl (fun acc x => if x.1.tag.used then acc else some x.2) acc
    (∀ i, r = some i → acc = some i ∨ ∃ x, (x, i) ∈ l ∧ x.tag.used = false) ∧
      (r = none → acc = none ∧ ∀ e ∈ l, e.1.tag.used = true) := by
  induction l generalizing acc with
  | nil => exact ⟨fun i h => .inl h, fun h => ⟨h, fun _ he => absurd he not_mem_nil⟩⟩
  | cons e l ih =>
    obtain ⟨hsome, hnone⟩ := ih (if e.1.tag.used then acc else some e.2)
    refine ⟨fun i h => ?_, fun h => ?_⟩
    · rcases hsome i h with hacc | ⟨x, hx, hu⟩
      · by_cases he : e.1.tag.used = true
        · rw [if_pos he] at hacc
          exact .inl hacc
        · rw [if_neg he] at hacc
          cases hacc
          exact .inr ⟨e.1, mem_cons_self, Bool.eq_false_iff.mpr he⟩
      · exact .inr ⟨x, mem_cons_of_mem _ hx, hu⟩
    · obtain ⟨hacc, hall⟩ := hnone h
      by_cases he : e.1.tag.used = true
      · rw [if_pos he] at hacc
        refine ⟨hacc, fun e' he' => ?_⟩
        rcases mem_cons.mp he' with rfl | he'
        · exact he
        · exact hall e' he'
      · rw [if_neg he] at hacc
        cases hacc

theorem lastFree_spec (h : ∃ x ∈ slots, x.tag.used = false) :
    ∃ i x, lastFree slots = some i ∧ slots[i]? = some x ∧ x.tag.used = false := by
  obtain ⟨hsome, hnone⟩ := foldl_lastFree slots.zipIdx none
  cases hr : lastFree slots with
  | none =>
    obtain ⟨x, hx, hu⟩ := h
    obtain ⟨j, hj⟩ := mem_iff_getElem?.mp hx
    have hused := (hnone hr).2 (x, j) (mem_zipIdx_iff_getElem?.mpr hj)
    exact absurd (hu.symm.trans hused) Bool.false_ne_true
  | some i =>
    rcases hsome i hr with hacc | ⟨x, hx, hu⟩
    · cases hacc
    · exact ⟨i, x, rfl, mem_zipIdx_iff_getElem?.mp hx, hu⟩

theorem firstFree_spec (h : ∃ x ∈ slots, x.tag.used = false) :
    ∃ i x, firstFree slots = some i ∧ slots[i]? = some x ∧ x.tag.used = false := by
  cases hr : firstFree slots with
  | none =>
    obtain ⟨x, hx, hu⟩ := h
    have hused := List.findIdx?_eq_none_iff.mp hr x hx
    rw [hu] at hused
    cases hused
  | some i =>
    obtain ⟨hi, hx, -⟩ := List.findIdx?_eq_some_iff_getElem.mp hr
    exact ⟨i, slots[i], rfl, List.getElem?_eq_getElem hi, by simpa using hx⟩

end Loops

/-! ## What the arrays are as contents -/

section Arrays

variable {q : Queues} {k : Kind} {i : Nat} {x y : Slot}

theorem content_eq_some : x.content = some y ↔ x = y ∧ x.tag.used = true := by
  rw [Slot.content]
  split
  · next h => simp [h]
  · next h => simp [h]

theorem contents_get :
    (q.contents.items k)[i]? = some (some x) ↔ (q.slots k)[i]? = some x ∧ x.tag.used = true := by
  show ((q.slots k).map Slot.content)[i]? = _ ↔ _
  rw [List.getElem?_map, Option.map_eq_some_iff]
  constructor
  · rintro ⟨y, hy, heq⟩
    obtain ⟨rfl, hu⟩ := content_eq_some.mp heq
    exact ⟨hy, hu⟩
  · rintro ⟨hx, hu⟩
    exact ⟨x, hx, content_eq_some.mpr ⟨rfl, hu⟩⟩

theorem contents_free (h : (q.slots k)[i]? = some x) (hu : x.tag.used = false) :
    (q.contents.items k)[i]? = some none := by
  show ((q.slots k).map Slot.content)[i]? = _
  rw [List.getElem?_map, h, Option.map_some, Slot.content, if_neg (by rw [hu]; decide)]

theorem contents_has : q.contents.Has k x ↔ x ∈ q.slots k ∧ x.tag.used = true := by
  show some x ∈ (q.slots k).map Slot.content ↔ _
  rw [mem_map]
  constructor
  · rintro ⟨y, hy, heq⟩
    obtain ⟨rfl, hu⟩ := content_eq_some.mp heq
    exact ⟨hy, hu⟩
  · rintro ⟨hx, hu⟩
    exact ⟨x, hx, content_eq_some.mpr ⟨rfl, hu⟩⟩

theorem contents_count : (q.contents.items k).countP Option.isSome = count (q.slots k) := by
  show ((q.slots k).map Slot.content).countP Option.isSome = _
  rw [countP_map, count]
  apply countP_congr
  intro x _
  rw [Function.comp_apply, Slot.content]
  split
  · next h => simp [h]
  · next h => simp [h]

theorem contents_length : (q.contents.items k).length = (q.slots k).length := length_map _

theorem contents_set :
    (q.setSlots k ((q.slots k).set i x)).contents = q.contents.setItem k i x.content := by
  rw [Queues.contents, Queues.setSlots, Contents.setItem, Queues.contents]
  dsimp only
  congr 1
  funext k'
  by_cases hk : k' = k
  · subst hk
    rw [Function.update_self, Function.update_self, map_set]
  · rw [Function.update_of_ne hk, Function.update_of_ne hk]

theorem contents_drop (p : Slot → Bool) : (q.drop p).contents = q.contents.drop p := by
  rw [Queues.contents, Queues.drop, Contents.drop, Queues.contents]
  congr 1
  funext k
  rw [map_map, map_map]
  apply map_congr_left
  intro x _
  rw [Function.comp_apply, Function.comp_apply]
  by_cases hp : p x = true
  · rw [if_pos hp, Slot.content, Slot.content]
    split
    · next h => exact absurd h Bool.false_ne_true
    · split
      · rw [Option.filter_some, hp]
        rfl
      · rfl
  · rw [if_neg hp, Slot.content]
    split
    · rw [Option.filter_some, Bool.eq_false_iff.mpr hp]
      rfl
    · rfl

theorem contents_removals (p : Slot → Bool) (why : Reason) :
    q.contents.removals p why = q.removals p why := by
  rw [Contents.removals, Queues.removals]
  congr 1
  funext k
  show ((q.slots k).map Slot.content).filterMap _ = _
  rw [filterMap_map]
  induction q.slots k with
  | nil => rfl
  | cons x slots ih =>
    rw [filterMap_cons, ih, Function.comp_apply, Slot.content]
    by_cases hu : x.tag.used = true
    · by_cases hp : p x = true
      · rw [if_pos hu, Option.filter_some, if_pos hp, filter_cons_of_pos (by rw [hu, hp]; rfl)]
        rfl
      · rw [if_pos hu, Option.filter_some, if_neg hp,
          filter_cons_of_neg (by rw [Bool.eq_false_iff.mpr hp]; simp)]
        rfl
    · rw [if_neg hu, filter_cons_of_neg (by rw [Bool.eq_false_iff.mpr hu]; simp)]
      rfl

end Arrays

/-! ## The sections -/

structure Queues.Wf (depth : Nat) (q : Queues) : Prop where
  ok : q.contents.Ok
  response : (q.slots .response).length = respDepth
  frame : (q.slots .frame).length = depth

section Sections

variable {depth : Nat} {t : Shared}

theorem discardLink_moves (t : Shared) (link : Link) :
    Moves t.queues.contents (discardLink t link).2 (discardLink t link).1.queues.contents := by
  rw [discardLink]
  rw [contents_drop, ← contents_removals]
  exact .of_move (.drop _ _ ⟨nofun, nofun⟩)

variable {link : Link}

theorem discardLink_has {k : Kind} {x : Slot} (h : (discardLink t link).1.queues.contents.Has k x) :
    t.queues.contents.Has k x ∧ x.tag.link ≠ link := by
  rw [discardLink] at h
  rw [contents_drop, Contents.has_drop] at h
  exact ⟨h.1, of_decide_eq_false h.2⟩

theorem linkState_moves (t : Shared) (link : Link) (connected : Bool) (generation : UInt32) :
    Moves t.queues.contents (linkState t link connected generation).2.1
      (linkState t link connected generation).1.queues.contents := by
  rw [linkState]
  refine .cons (.silent (.announced link connected generation) trivial) ?_
  split
  · have hrelink : Move (discardLink t link).1.queues.contents [] _ :=
      .relink (Function.update (discardLink t link).1.queues.online link connected)
        (Function.update (discardLink t link).1.queues.sessions link generation) (by
        intro k x hx
        have hne := (discardLink_has hx).2
        rw [Function.update_of_ne hne, Function.update_of_ne hne]
        exact ⟨rfl, rfl⟩)
    have := (discardLink_moves t link).trans (.of_move hrelink)
    rwa [append_nil] at this
  · next h =>
    rw [not_or, not_or, Bool.not_eq_false, Bool.not_eq_false, not_not] at h
    refine .of_move (.relink _ _ ?_)
    intro k x _
    show Function.update t.queues.online link connected x.tag.link = t.queues.online x.tag.link ∧
      Function.update t.queues.sessions link generation x.tag.link = t.queues.sessions x.tag.link
    by_cases hlink : x.tag.link = link
    · rw [hlink, Function.update_self, Function.update_self]
      exact ⟨h.1.trans h.2.1.symm, h.2.2.symm⟩
    · rw [Function.update_of_ne hlink, Function.update_of_ne hlink]
      exact ⟨rfl, rfl⟩

theorem setLink_moves (ht : t.queues.Wf depth) (link : Link) (selected : Bool) :
    Moves t.queues.contents (setLink t link selected).2.1
      (setLink t link selected).1.queues.contents := by
  rw [setLink]
  split
  · refine .of_move (.relink _ _ ?_)
    intro k x hx
    refine ⟨?_, rfl⟩
    show Function.update t.queues.online link true x.tag.link = t.queues.online x.tag.link
    by_cases hlink : x.tag.link = link
    · rw [hlink, Function.update_self]
      exact (hlink ▸ (ht.ok.link k x hx).1).symm
    · rw [Function.update_of_ne hlink]
  · have hrelink : Move (discardLink t link).1.queues.contents [] _ :=
      .relink (Function.update (discardLink t link).1.queues.online link false)
        (Function.update (discardLink t link).1.queues.sessions link
          ((discardLink t link).1.queues.sessions link + 1)) (by
        intro k x hx
        have hne := (discardLink_has hx).2
        rw [Function.update_of_ne hne, Function.update_of_ne hne]
        exact ⟨rfl, rfl⟩)
    have := (discardLink_moves t link).trans (.of_move hrelink)
    rwa [append_nil] at this

variable {q : Queues}

theorem reset_moves {q' : Queues}
    (hitems : ∀ k, q'.contents.items k = (q.contents.drop fun _ => true).items k)
    (hticket : q'.ticket = q.ticket) :
    Moves q.contents (q.removals (fun _ => true) .reset) q'.contents := by
  rw [← contents_removals]
  have hrelink : Move (q.contents.drop fun _ => true) [] q'.contents := by
    have heq : q'.contents =
        { (q.contents.drop fun _ => true) with online := q'.online, sessions := q'.sessions } := by
      rw [Queues.contents, Contents.mk.injEq]
      exact ⟨funext hitems, hticket, rfl, rfl⟩
    rw [heq]
    refine .relink _ _ ?_
    intro k x hx
    exact absurd (Contents.has_drop.mp hx).2 (by decide)
  have := Moves.cons (.drop (fun _ => true) .reset ⟨nofun, nofun⟩) (.of_move hrelink)
  rwa [append_nil] at this

theorem init_moves (t : Shared) :
    Moves t.queues.contents (init t).2.1 (init t).1.queues.contents := by
  have hreset : Moves t.queues.contents (t.queues.removals (fun _ => true) .reset)
      (init t).1.queues.contents := by
    refine reset_moves (fun k => ?_) rfl
    show (List.replicate (t.queues.slots k).length Slot.zero).map Slot.content =
      ((t.queues.slots k).map Slot.content).map fun o => o.filter fun x => !true
    rw [map_replicate, map_map, eq_comm, map_eq_replicate_iff]
    intro x _
    rw [Function.comp_apply]
    cases x.content <;> rfl
  exact hreset.trans (.silent fun n hn => by cases mem_singleton.mp hn; trivial)

theorem deinit_moves (t : Shared) :
    Moves t.queues.contents (deinit t).2.1 (deinit t).1.queues.contents :=
  reset_moves (fun k => congrFun (congrArg Contents.items (contents_drop _)) k) rfl

theorem admission_ok {q q' : Queues} {rc : Int} {identity : Nat} {tag : Tag}
    (h : q.admission link rc identity = .ok (tag, q')) :
    q' = { q with ticket := q.ticket + 1 } ∧ q.online link = true ∧ q.ticket ≠ maxTicket ∧
      (link = .ble → rc = 0) ∧
      tag = ⟨q.ticket + 1, if link = .ble then identity else 0, q.sessions link, link, true⟩ := by
  rw [Queues.admission] at h
  split at h
  · cases h
  next honline =>
  split at h
  · cases h
  next hticket =>
  split at h
  · cases h
  next hrc =>
  cases h
  refine ⟨rfl, Bool.not_eq_false _ |>.mp honline, hticket, fun hble => ?_, rfl⟩
  by_contra hne
  exact hrc ⟨hble, hne⟩

theorem store_moves {k : Kind} {i : Nat} {x y : Slot} {identity : Nat}
    (hq : q.contents.Ok) (hfree : (q.slots k)[i]? = some y) (hy : y.tag.used = false)
    (hroom : count (q.slots k) + 1 < (q.slots k).length) (honline : q.online link = true)
    (hticket : q.ticket ≠ maxTicket)
    (hx : x.tag = ⟨q.ticket + 1, identity, q.sessions link, link, true⟩) :
    Moves q.contents [.admitted k x]
      (({ q with ticket := q.ticket + 1 } : Queues).store k (some i) x).contents := by
  have hcontent : x.content = some x := content_eq_some.mpr ⟨rfl, by rw [hx]⟩
  have hput : Move q.contents [.admitted k x]
      { q.contents.setItem k i (some x) with ticket := q.contents.ticket + 1 } := by
    refine .put k i x (contents_free hfree hy) ?_ ?_ (by rw [hx]) (by rw [hx]; rfl) ?_
    · rw [contents_count, contents_length]
      exact hroom
    · rw [hx]
      exact ⟨honline, rfl⟩
    · exact Nat.lt_of_le_of_ne hq.ticket hticket
  have heq : (({ q with ticket := q.ticket + 1 } : Queues).store k (some i) x).contents =
      { q.contents.setItem k i (some x) with ticket := q.contents.ticket + 1 } := by
    rw [← hcontent, ← contents_set]
    rfl
  rw [heq]
  exact .of_move hput

theorem exists_free {slots : List Slot} (h : count slots < slots.length) :
    ∃ x ∈ slots, x.tag.used = false := by
  by_contra hno
  have hall : ∀ x ∈ slots, x.tag.used = true := by
    intro x hx
    by_contra hu
    exact hno ⟨x, hx, Bool.eq_false_iff.mpr hu⟩
  rw [count, countP_eq_length.mpr hall] at h
  exact Nat.lt_irrefl _ h

theorem enqueueResponse_moves (ht : t.queues.Wf depth) (link : Option Link)
    (line : Option (List UInt8)) (rc : Int) (identity : Nat) :
    Moves t.queues.contents (enqueueResponse t link line rc identity).2.1
      (enqueueResponse t link line rc identity).1.queues.contents := by
  have hsilent : ∀ e : Int, Moves t.queues.contents [.rc e] t.queues.contents :=
    fun e => .of_move (.silent _ trivial)
  unfold enqueueResponse
  split
  · dsimp only
    split
    · exact hsilent _
    split
    · exact hsilent _
    next hfull =>
    split
    · exact hsilent _
    · next tag q hadmission =>
      obtain ⟨rfl, honline, hticket, -, rfl⟩ := admission_ok hadmission
      have hroom := ht.ok.room .response
      rw [contents_count, contents_length, ht.response] at hroom
      rw [respDepth] at hroom hfull
      have hlen := ht.response
      rw [respDepth] at hlen
      have hless : count (t.queues.slots .response) < (t.queues.slots .response).length := by omega
      obtain ⟨i, y, hi, hget, hy⟩ := lastFree_spec (exists_free hless)
      rw [hi]
      exact (store_moves ht.ok hget hy (by omega) honline hticket rfl).trans
        (.of_move (.silent (.rc 0) trivial))
  · exact hsilent _

theorem evict_moves {i : Nat} {x v : Slot} {identity : Nat}
    (hq : q.contents.Ok) (hv : (q.slots .frame)[i]? = some v) (hu : v.tag.used = true)
    (honline : q.online link = true) (hticket : q.ticket ≠ maxTicket)
    (hx : x.tag = ⟨q.ticket + 1, identity, q.sessions link, link, true⟩) :
    Moves q.contents [.removed .frame v .evicted, .admitted .frame x]
      (({ q with ticket := q.ticket + 1 } : Queues).store .frame (some i) x).contents := by
  let q₁ := q.setSlots .frame ((q.slots .frame).set i v.clear)
  have hcontents : q₁.contents = q.contents.setItem .frame i none := contents_set
  have htake : Move q.contents [.removed .frame v .evicted] q₁.contents := by
    rw [hcontents]
    exact .take .frame i v .evicted (contents_get.mpr ⟨hv, hu⟩) (fun _ => rfl) nofun
  have hlt : i < (q.slots .frame).length := (List.getElem?_eq_some_iff.mp hv).1
  have hget : (q₁.slots .frame)[i]? = some v.clear := by
    simp [q₁, Queues.setSlots, hlt]
  have hcount : count (q₁.slots .frame) + 1 = count (q.slots .frame) := by
    have hset := countP_setItem (f := Option.isSome) (o := none) (contents_get.mpr ⟨hv, hu⟩)
    rw [contents_count] at hset
    rw [← contents_count, hcontents]
    exact hset
  have hroom : count (q₁.slots .frame) + 1 < (q₁.slots .frame).length := by
    have := hq.room .frame
    rw [contents_count, contents_length] at this
    rw [hcount]
    simpa [q₁, Queues.setSlots] using this
  have hput := store_moves (htake.ok hq) hget rfl hroom honline hticket hx
  have hstore : ({ q₁ with ticket := q₁.ticket + 1 } : Queues).store .frame (some i) x =
      ({ q with ticket := q.ticket + 1 } : Queues).store .frame (some i) x := by
    simp [q₁, Queues.store, Queues.setSlots]
  rw [← hstore]
  exact (Moves.of_move htake).trans hput

theorem enqueueFrame_moves (ht : t.queues.Wf depth) (link : Option Link)
    (buf : Option (List UInt8)) (rc : Int) (identity : Nat) :
    Moves t.queues.contents (enqueueFrame t link buf rc identity).2.1
      (enqueueFrame t link buf rc identity).1.queues.contents := by
  have hsilent : ∀ e : Int, Moves t.queues.contents [.rc e] t.queues.contents :=
    fun e => .of_move (.silent _ trivial)
  unfold enqueueFrame
  split
  · exact hsilent _
  split
  · exact hsilent _
  split
  · exact hsilent _
  split
  · exact hsilent _
  next data _ _ link _ tag q hadmission =>
  obtain ⟨rfl, honline, hticket, -, rfl⟩ := admission_ok hadmission
  have hroom := ht.ok.room .frame
  have htwo := ht.ok.two .frame
  rw [contents_count, contents_length] at hroom
  rw [contents_length] at htwo
  split
  · next hfull =>
    -- One slot is left free: the oldest item goes.
    have hcount : count (t.queues.slots .frame) = (t.queues.slots .frame).length - 1 := by
      rwa [Queues.framesFull, decide_eq_true_eq] at hfull
    obtain ⟨y, hy, hu⟩ : ∃ y ∈ t.queues.slots .frame, y.tag.used = true :=
      countP_pos_iff.mp (by rw [← count, hcount]; omega)
    dsimp only
    cases hi : oldest (fun _ => true) (t.queues.slots .frame) with
    | none =>
      have hlast := oldest_none hi hy hu rfl
      have hold : y.tag.ticket ≤ t.queues.ticket := ht.ok.old .frame y (contents_has.mpr ⟨hy, hu⟩)
      have hmax : t.queues.ticket ≤ maxTicket := ht.ok.ticket
      omega
    | some i =>
      obtain ⟨v, hv, hvu, -, -⟩ := oldest_some hi
      rw [Option.bind_some, hv]
      exact (evict_moves ht.ok hv hvu honline hticket rfl).trans
        (.of_move (.silent (.rc (-ENOSPC)) trivial))
  · next hfull =>
    have hne : count (t.queues.slots .frame) ≠ (t.queues.slots .frame).length - 1 := by
      rwa [Queues.framesFull, decide_eq_true_eq] at hfull
    obtain ⟨i, y, hi, hget, hy⟩ := firstFree_spec (exists_free hroom)
    rw [hi]
    exact (store_moves ht.ok hget hy (by omega) honline hticket rfl).trans
      (.of_move (.silent (.rc 0) trivial))

/-! ### The pump -/

/-- The slot an item was copied from, if it still has it. -/
theorem get_of_same {x : Pending} (hx : x.Copied q.contents) (h : q.same x = true) :
    (q.slots x.kind)[x.slot]? = some x.item ∧ x.item.tag.used = true := by
  rw [Queues.same] at h
  simp only [Bool.and_eq_true, decide_eq_true_eq] at h
  obtain ⟨⟨⟨⟨hused, hticket⟩, -⟩, -⟩, -⟩ := h
  cases hget : (q.slots x.kind)[x.slot]? with
  | none =>
    rw [getD_eq_getElem?_getD, hget] at hused
    cases hused
  | some y =>
    rw [getD_eq_getElem?_getD, hget, Option.getD_some] at hused hticket
    obtain ⟨-, -, rfl⟩ := hx.place _ _ y (contents_get.mpr ⟨hget, hused⟩) hticket
    exact ⟨rfl, hused⟩

theorem pumpResult_moves (t : Shared) (p : Pump) {x : Pending} (hx : x.Copied t.queues.contents)
    (rc : Int) :
    Moves t.queues.contents (pumpResult t p x rc).2.1 (pumpResult t p x rc).1.queues.contents := by
  have hresult : Move t.queues.contents [.result x.kind x.item rc] t.queues.contents :=
    .silent _ trivial
  rw [pumpResult]
  dsimp only
  split
  · exact .of_move hresult
  split
  · next hdrop =>
    obtain ⟨hget, hused⟩ := get_of_same hx hdrop.2
    rw [getD_eq_getElem?_getD, hget, Option.getD_some]
    refine .cons hresult (.of_move ?_)
    rw [contents_set]
    refine .take x.kind x.slot x.item _ (contents_get.mpr ⟨hget, hused⟩) ?_ ?_
    · split <;> exact nofun
    · split
      · exact nofun
      · next hrc =>
        intro _
        have hstale := hdrop.1.resolve_left hrc
        rw [staleBle, decide_eq_true_eq] at hstale
        exact hstale.1
  · exact .of_move hresult

theorem enter_moves (t : Shared) :
    Moves t.queues.contents (enter t).2.1 (enter t).1.queues.contents := by
  rw [enter]
  split <;> exact .of_move (.silent _ trivial)

theorem pumpLoop_moves (t : Shared) (p : Pump) :
    Moves t.queues.contents (pumpLoop t p).2.1 (pumpLoop t p).1.queues.contents := by
  rw [pumpLoop]
  split
  · exact .nil _
  split
  · exact .of_move (.silent _ trivial)
  split <;> exact .of_move (.silent _ trivial)

/-! ### The registration -/

def Pc.running : Pc → Option Pump
  | .loop p => some p
  | .asking p _ => some p
  | .handing p _ => some p
  | .sending p _ => some p
  | _ => none

/-- A note of the registration and its timer, or of what a call returns. -/
def Note.OfDrain : Note → Prop
  | .rc _ => True
  | .armed _ => True
  | .cleared _ => True
  | .claimed _ _ _ => True
  | .callback _ _ => True
  | .startCalled _ _ _ => True
  | .startReturned _ _ => True
  | .cancelCalled _ _ _ => True
  | .cancelReturned _ => True
  | .expired _ => True
  | _ => False

theorem Note.OfDrain.silent {n : Note} (h : n.OfDrain) : n.Silent := by
  cases n <;> trivial

/-- A section that leaves the queues and notes nothing of them, and runs no pump behind it. -/
structure Quiet (t : Shared) (r : Shared × List Note × Pc) : Prop where
  queues : r.1.queues = t.queues
  notes : ∀ n ∈ r.2.1, n.OfDrain
  aside : r.2.2.running = none

theorem Quiet.moves {r : Shared × List Note × Pc} (h : Quiet t r) :
    Moves t.queues.contents r.2.1 r.1.queues.contents := by
  rw [h.queues]
  exact .silent fun n hn => (h.notes n hn).silent

theorem Quiet.cons {n : Note} {r : Shared × List Note × Pc} (hn : n.OfDrain) (h : Quiet t r) :
    Quiet t (r.1, n :: r.2.1, r.2.2) :=
  ⟨h.queues, fun m hm => (mem_cons.mp hm).elim (fun heq => heq ▸ hn) (h.notes m), h.aside⟩

theorem Quiet.nil {t' : Shared} {pc : Pc} (h : t'.queues = t.queues) (hpc : pc.running = none) :
    Quiet t (t', [], pc) :=
  ⟨h, fun _ hn => absurd hn not_mem_nil, hpc⟩

theorem Quiet.note {t' : Shared} {n : Note} {notes : List Note} {pc : Pc} (hn : n.OfDrain)
    (h : Quiet t (t', notes, pc)) : Quiet t (t', n :: notes, pc) :=
  .cons hn h

theorem callback_running (after : Option Claim) : (Pc.callback after).running = none := by
  cases after <;> rfl

theorem unlockAndReconcile_running (d : Drain) (after : Option Claim) :
    (unlockAndReconcile d after).running = none := by
  rw [unlockAndReconcile]
  split
  · rfl
  · exact callback_running after

theorem reconcileLoop_quiet {t t' : Shared} (h : t.queues = t'.queues) (after : Option Claim) :
    Quiet t' (reconcileLoop t after) := by
  rw [reconcileLoop]
  split
  · exact .nil h (callback_running after)
  split
  · exact .note (by trivial) (.nil h rfl)
  · exact .note (by trivial) (.nil h rfl)

theorem reconcileTimer_quiet (t : Shared) (after : Option Claim) :
    Quiet t (reconcileTimer t after) := by
  rw [reconcileTimer]
  split
  · exact .nil rfl (callback_running after)
  · exact reconcileLoop_quiet (by rfl) after

theorem started_quiet (t : Shared) (id : Nat) (after : Option Claim) (rc : Int) :
    Quiet t (started t id after rc) := by
  have hloop : ∀ t' : Shared, t'.queues = t.queues →
      Quiet t (let x := reconcileLoop t' after; (x.1, .startReturned id rc :: x.2.1, x.2.2)) :=
    fun t' h => .cons (by trivial) (reconcileLoop_quiet h after)
  rw [started]
  split
  · have hqueues : (if t.drain.timer = id then
        { t with drain := { t.drain with timer := 0 } } else t).queues = t.queues := by
      split <;> rfl
    dsimp only
    split
    · split
      · exact .note (by trivial) (.note (by trivial) (.nil hqueues rfl))
      · exact hloop _ hqueues
    · exact hloop _ hqueues
  · exact hloop t rfl

theorem setTimerOps_quiet (t : Shared) (ops : TimerOps) : Quiet t (setTimerOps t ops) := by
  rw [setTimerOps]
  split
  · exact .note (by trivial) (.nil rfl rfl)
  split
  · exact .note (by trivial) (.nil rfl rfl)
  · exact .note (by trivial) (.nil rfl rfl)

theorem arm_quiet (t : Shared) (cb : Option Nat) (ctx : Nat) (timeout : UInt32) (out : Bool) :
    Quiet t (arm t cb ctx timeout out) := by
  have hrc : ∀ e : Int, Quiet t (t, [.rc e], .idle) := fun e => .note (by trivial) (.nil rfl rfl)
  unfold arm
  split
  · exact hrc _
  dsimp only
  split
  · exact hrc _
  split
  · exact hrc _
  split
  · exact hrc _
  split
  · exact hrc _
  split
  · exact .note (by trivial) (.note (by trivial) (.note (by trivial)
      (.nil rfl (unlockAndReconcile_running ..))))
  · exact .note (by trivial) (.note (by trivial) (.nil rfl (unlockAndReconcile_running ..)))

theorem onDrainTimeout_quiet (t : Shared) (registration : Nat) :
    Quiet t (onDrainTimeout t registration) := by
  rw [onDrainTimeout]
  split
  · split
    · exact .note (by trivial) (.note (by trivial) (.nil rfl rfl))
    · exact .note (by trivial) (.nil rfl rfl)
  · exact .note (by trivial) (.nil rfl rfl)

theorem clearPostDrain_quiet (t : Shared) (registration : Nat) :
    Quiet t (clearPostDrain t registration) := by
  rw [clearPostDrain]
  split
  · exact .note (by trivial) (.note (by trivial) (.nil rfl (unlockAndReconcile_running ..)))
  · exact .note (by trivial) (.nil rfl (unlockAndReconcile_running ..))

theorem drained_quiet (t : Shared) : Quiet t (drained t) := by
  rw [drained]
  split
  · split
    · exact .note (by trivial) (.nil rfl (unlockAndReconcile_running ..))
    · exact .nil rfl (unlockAndReconcile_running ..)
  · exact .nil rfl (unlockAndReconcile_running ..)

/-! ### All of them -/

/-- The item a pump has taken up, where there is one. -/
def Pc.flight : Pc → Option (Pump × Pending)
  | .asking p x => some (p, x)
  | .handing p x => some (p, x)
  | .sending p x => some (p, x)
  | _ => none

theorem Quiet.rc (t : Shared) (e : Int) : Quiet t (t, [.rc e], .idle) :=
  .cons (by trivial) (.nil rfl rfl)

/-- A section that is to queue an item, or leaves the queues. -/
inductive Queueing (t : Shared) : Shared × List Note × Pc → Prop where
  | quiet {r : Shared × List Note × Pc} (h : Quiet t r) : Queueing t r
  | response (link : Option Link) (line : Option (List UInt8)) (rc : Int) (identity : Nat) :
      Queueing t (enqueueResponse t link line rc identity)
  | frame (link : Option Link) (buf : Option (List UInt8)) (rc : Int) (identity : Nat) :
      Queueing t (enqueueFrame t link buf rc identity)

theorem Queueing.moves (ht : t.queues.Wf depth) {r : Shared × List Note × Pc}
    (h : Queueing t r) : Moves t.queues.contents r.2.1 r.1.queues.contents := by
  cases h with
  | quiet h => exact h.moves
  | response link line rc identity => exact enqueueResponse_moves ht link line rc identity
  | frame link buf rc identity => exact enqueueFrame_moves ht link buf rc identity

/-- Every other call begins or ends a lifetime, or is about a link. -/
theorem call_cases (t : Shared) (c : Call) :
    Queueing t (call t c) ∨ c = .init ∨ c = .deinit ∨
      (∃ link selected, call t c = setLink t link selected) ∨
      ∃ link connected generation, c = .linkState (some link) connected generation := by
  cases c with
  | init => exact .inr (.inl rfl)
  | deinit => exact .inr (.inr (.inl rfl))
  | linkState link connected generation =>
    cases link with
    | none => exact .inl (.quiet (.nil rfl rfl))
    | some link => exact .inr (.inr (.inr (.inr ⟨link, connected, generation, rfl⟩)))
  | setLink link selected =>
    cases link with
    | none => exact .inl (.quiet (.nil rfl rfl))
    | some link => exact .inr (.inr (.inr (.inl ⟨link, selected, rfl⟩)))
  | setRfcommCid cid => exact .inr (.inr (.inr (.inl ⟨.classic, _, rfl⟩)))
  | enqueueResponseForLink => exact .inl (.response ..)
  | enqueueResponse line rc identity =>
    refine .inl (.quiet ?_)
    unfold call
    dsimp only
    split
    · exact .rc t _
    split
    · exact .nil rfl rfl
    · exact .rc t _
  | tryEnqueueFrameForLink => exact .inl (.frame ..)
  | tryEnqueueFrame buf rc identity =>
    refine .inl (.quiet ?_)
    unfold call
    dsimp only
    split
    · exact .rc t _
    split
    · exact .rc t _
    split
    · exact .nil rfl rfl
    · exact .rc t _
  | onCanSendNow => exact .inl (.quiet (.nil rfl rfl))
  | setTimerOps ops => exact .inl (.quiet (setTimerOps_quiet t ops))
  | arm cb ctx timeout out => exact .inl (.quiet (arm_quiet t cb ctx timeout out))
  | onDrainTimeout registration => exact .inl (.quiet (onDrainTimeout_quiet t registration))
  | clear registration => exact .inl (.quiet (clearPostDrain_quiet t registration))

/-- Where a thread runs no pump and is not about to call one. -/
theorem resume_queueing (t : Shared) {pc : Pc} (hpc : pc.running = none) (henter : pc ≠ .enter)
    (rc : Int) : Queueing t (resume t pc rc) := by
  cases pc with
  | idle => exact .quiet (.nil rfl rfl)
  | pushResponse link line rc identity => exact .response (some link) (some line) rc identity
  | pushFrame link buf rc identity => exact .frame (some link) (some buf) rc identity
  | enter => exact absurd rfl henter
  | loop => cases hpc
  | asking => cases hpc
  | handing => cases hpc
  | sending => cases hpc
  | drained => exact .quiet (drained_quiet t)
  | reconcile after => exact .quiet (reconcileTimer_quiet t after)
  | cancelling id after => exact .quiet (.cons (by trivial) (reconcileLoop_quiet (by rfl) after))
  | starting id after => exact .quiet (started_quiet t id after rc)
  | deliver => exact .quiet (.cons (by trivial) (.nil rfl rfl))
  | delivering next =>
    cases next with
    | done => exact .quiet (.nil rfl rfl)
    | reconcile => exact .quiet (.nil rfl rfl)
    | again after => exact .quiet (reconcileLoop_quiet rfl after)

theorem call_moves (ht : t.queues.Wf depth) (c : Call) :
    Moves t.queues.contents (call t c).2.1 (call t c).1.queues.contents := by
  rcases call_cases t c with h | rfl | rfl | ⟨link, selected, heq⟩ |
    ⟨link, connected, generation, rfl⟩
  · exact h.moves ht
  · exact init_moves t
  · exact deinit_moves t
  · rw [heq]
    exact setLink_moves ht link selected
  · exact linkState_moves t link connected generation

theorem resume_moves (ht : t.queues.Wf depth) {pc : Pc}
    (hx : ∀ p x, pc.flight = some (p, x) → x.Copied t.queues.contents) (rc : Int) :
    Moves t.queues.contents (resume t pc rc).2.1 (resume t pc rc).1.queues.contents := by
  cases pc with
  | enter => exact enter_moves t
  | loop p => exact pumpLoop_moves t p
  | asking p x =>
    unfold resume
    dsimp only
    split
    · exact .nil _
    · exact pumpResult_moves t p (hx p x rfl) _
  | handing p x => exact .of_move (.silent _ trivial)
  | sending p x => exact pumpResult_moves t p (hx p x rfl) rc
  | _ => exact (resume_queueing t rfl Pc.noConfusion rc).moves ht

/-- **Every section is a sequence of moves.** -/
theorem body_moves (ht : t.queues.Wf depth) {pc : Pc}
    (hx : ∀ p x, pc.flight = some (p, x) → x.Copied t.queues.contents) (input : Input) :
    Moves t.queues.contents (body t pc input).2.1 (body t pc input).1.queues.contents := by
  cases input with
  | call c =>
    unfold body
    dsimp only
    split
    · exact call_moves ht c
    · exact .nil _
  | resume rc => exact resume_moves ht hx rc

end Sections

end Brickwright.Btsensor.Tx
