import Brickwright.Btsensor.Tx.Items

/-!
# Sessions of a link

When `btsensor_tx_link_state` announces that a link is down or in another session, the items of the
session before it are gone, so no pump takes one up any more. A pump that had taken one up before
still hands it over: the lock is not held in between.
-/

namespace Brickwright.Btsensor.Tx

open List

section Announce

variable {depth : Nat} {h : History} {s : Threads.State Shared Pc} {k : Kind} {x : Slot}

/-- **An announcement** ends the items of the sessions before it. -/
theorem announce_gone {t : Shared} {l : List Note} (hl : Ledger l t.queues.contents)
    (hx : .admitted k x ∈ l) {connected : Bool} {generation : UInt32}
    (hend : connected = false ∨ generation ≠ x.tag.session) :
    Gone (fun _ y => y.tag.ticket = x.tag.ticket)
      (linkState t x.tag.link connected generation).1.queues.contents where
  absent k' y hy heq := by
    have hitem : t.queues.contents.Has k' y → y = x := fun hbefore =>
      (hl.admitted_unique (hl.admitted k' y hbefore) hx heq).2
    rw [linkState] at hy
    split at hy
    · change (discardLink t x.tag.link).1.queues.contents.Has k' y at hy
      obtain ⟨hbefore, hne⟩ := discardLink_has hy
      rw [hitem hbefore] at hne
      exact hne rfl
    · next hsame =>
      rw [not_or, not_or, not_not] at hsame
      have hsession := (hl.ok.link k' y hy).2
      rw [hitem hy] at hsession
      rcases hend with hdown | hother
      · exact hsame.1 hdown
      · exact hother (hsame.2.2.symm.trans hsession)
  old k' y heq := by
    rw [heq]
    refine Nat.le_trans (hl.old hx) (Nat.le_of_eq ?_)
    rw [linkState]
    split <;> rfl

theorem linkState_tail (t : Shared) (link : Link) (connected : Bool) (generation : UInt32) :
    ∃ tail, (linkState t link connected generation).2.1 =
        .announced link connected generation :: tail ∧
      ∀ n ∈ tail, ∃ k x, n = .removed k x .discarded := by
  refine ⟨_, rfl, ?_⟩
  intro n hn
  split at hn
  · obtain ⟨k, -, hk⟩ := mem_flatMap.mp hn
    obtain ⟨x, -, rfl⟩ := mem_map.mp hk
    exact ⟨k, x, rfl⟩
  · exact absurd hn not_mem_nil

/-- Whoever hands an item over took it up, and has handed nothing over since. -/
theorem handed_outstanding (d : Depth) {events : List (Nat × Input)} {pre post : History} {i : Nat}
    {y : Slot} (hh : arbiter.history (start d.slots) events = pre ++ (i, .handed k y) :: post) :
    Outstanding (· = (i, .selected k y)) (HandsOver i) pre ∧ .admitted k y ∈ plain pre := by
  obtain ⟨before, ⟨i', input⟩, after, l, r, -, hnotes, rfl, -⟩ := Threads.exists_step_of_history hh
  have hs := (start_items d).run before
  set s := arbiter.machine.run (start d.slots) before
  have hmem : (i, .handed k y) ∈ arbiter.notes s i' input := by
    rw [hnotes]
    simp
  obtain ⟨rfl, hnote⟩ := Threads.mem_notes.mp hmem
  obtain ⟨p, x, hpc, rfl, rfl, hbody⟩ := handed_cases hnote
  have hl : l = [] := by
    change (body s.shared (s.pc i) input).2.1.map _ = _ at hnotes
    rw [hbody] at hnotes
    cases l with
    | nil => rfl
    | cons e l =>
      have hlen := congrArg List.length hnotes
      simp at hlen
  rw [hl, append_nil]
  exact ⟨hs.ready i p x (.inr hpc), (hs.copied i p x (by rw [hpc]; rfl)).2⟩

end Announce

/-- **Sessions are isolated up to the send in progress.** After an announcement that ends the
session an item was admitted in, no pump takes the item up, and whoever hands it over to the
transport took it up before the announcement and has not handed anything over since; it hands over
the item as it was admitted, with the identity captured then. -/
theorem session_isolation (d : Depth) (events : List (Nat × Input)) :
    ∀ pre j link connected generation post,
      arbiter.history (start d.slots) events =
        pre ++ (j, .announced link connected generation) :: post →
      ∀ i k x, (i, .admitted k x) ∈ pre → x.tag.link = link →
        (connected = false ∨ generation ≠ x.tag.session) →
        (∀ i' k' y, (i', .selected k' y) ∈ post → y.tag.ticket ≠ x.tag.ticket) ∧
        ∀ i' k' y before after, post = before ++ (i', .handed k' y) :: after →
          y.tag.ticket = x.tag.ticket → k' = k ∧ y = x ∧
            ∃ l r, pre = l ++ (i', .selected k x) :: r ∧ ∀ e ∈ r ++ before, ¬ HandsOver i' e := by
  intro pre j link connected generation post hhistory i k x hadmitted hlink hend
  have hselected : ∀ i' k' y, (i', .selected k' y) ∈ post → y.tag.ticket ≠ x.tag.ticket := by
    obtain ⟨before, ⟨j', input⟩, after, l, r, -, hnotes, rfl, rfl⟩ :=
      Threads.exists_step_of_history hhistory
    have hs := (start_items d).run before
    set s := arbiter.machine.run (start d.slots) before
    have hmem : (j, .announced link connected generation) ∈ arbiter.notes s j' input := by
      rw [hnotes]
      simp
    obtain ⟨rfl, hnote⟩ := Threads.mem_notes.mp hmem
    have hbody : body s.shared (s.pc j) input = linkState s.shared link connected generation :=
      announced_cases hnote
    obtain ⟨tail, htail, hremoved⟩ := linkState_tail s.shared link connected generation
    have hsplit : l ++ (j, .announced link connected generation) :: r =
        (j, .announced link connected generation) :: tail.map (Prod.mk j) := by
      rw [← hnotes, Threads.notes]
      change (body s.shared (s.pc j) input).2.1.map _ = _
      rw [hbody, htail, map_cons]
    have hl : l = [] ∧ r = tail.map (Prod.mk j) := by
      cases l with
      | nil =>
        cases hsplit
        exact ⟨rfl, rfl⟩
      | cons e l =>
        obtain ⟨-, hrest⟩ := List.cons.inj hsplit
        have hin : (j, .announced link connected generation) ∈ tail.map (Prod.mk j) := by
          rw [← hrest]
          simp
        obtain ⟨n, hn, heq⟩ := mem_map.mp hin
        cases heq
        obtain ⟨_, _, hn⟩ := hremoved _ hn
        cases hn
    obtain ⟨rfl, rfl⟩ := hl
    rw [append_nil] at hadmitted
    subst hlink
    have hgone := announce_gone hs.ledger (mem_map.mpr ⟨_, hadmitted, rfl⟩) hend
    have hstep : (arbiter.step s j input).shared =
        (linkState s.shared x.tag.link connected generation).1 := congrArg Prod.fst hbody
    rw [← hstep] at hgone
    intro i' k' y hy
    rcases mem_append.mp hy with hy | hy
    · obtain ⟨n, hn, heq⟩ := mem_map.mp hy
      cases heq
      obtain ⟨_, _, hn⟩ := hremoved _ hn
      cases hn
    · exact (gone_history (hs.step j input) hgone after).1 i' k' y hy
  refine ⟨hselected, ?_⟩
  intro i' k' y before after hpost hticket
  have hhanded : arbiter.history (start d.slots) events =
      (pre ++ (j, .announced link connected generation) :: before) ++
        (i', .handed k' y) :: after := by
    rw [hhistory, hpost, append_assoc]
    rfl
  obtain ⟨⟨l, e, r, heq, rfl, hno⟩, hy⟩ := handed_outstanding d hhanded
  have hledger := ((start_items d).run events).ledger
  have hall : ∀ n, n ∈ plain (pre ++ (j, .announced link connected generation) :: before) →
      n ∈ plain (arbiter.history (start d.slots) events) := by
    intro n hn
    rw [hhanded, plain, map_append]
    exact mem_append_left _ hn
  have hx : .admitted k x ∈ plain (pre ++ (j, .announced link connected generation) :: before) := by
    rw [plain, map_append]
    exact mem_append_left _ (mem_map.mpr ⟨_, hadmitted, rfl⟩)
  obtain ⟨rfl, rfl⟩ := hledger.admitted_unique (hall _ hy) (hall _ hx) hticket
  refine ⟨rfl, rfl, ?_⟩
  -- It was not taken up behind the announcement.
  have hbefore : (i', .selected k' y) ∉ (j, .announced link connected generation) :: before := by
    intro hmem
    rcases mem_cons.mp hmem with hmem | hmem
    · cases hmem
    · exact hselected i' k' y (by rw [hpost]; exact mem_append_left _ hmem) rfl
  obtain ⟨r', rfl, rfl⟩ := Outstanding.split_left heq hbefore
  refine ⟨l, r', rfl, fun e he => hno e ?_⟩
  rcases mem_append.mp he with he | he
  · exact mem_append_left _ he
  · exact mem_append_right _ (mem_cons_of_mem _ he)

/-- A BLE link comes up, a response is queued, and the pump takes it up; the disconnect is announced
before the pump has called the transport. -/
def overtaken : List (Nat × Input) :=
  [(0, .call (.linkState (some .ble) true 1)),
    (1, .call (.enqueueResponseForLink (some .ble) (some [79, 75, 10]) 0 7)),
    (1, .resume 0), (1, .resume 0), (2, .call (.linkState (some .ble) false 1)), (1, .resume 0)]

/-- Whoever hands the response over then took it up before the announcement. -/
theorem session_isolation_overtaken :
    let x : Slot := ⟨[79, 75, 10], ⟨1, 7, 1, .ble, true⟩⟩
    ∀ i' k' y before after,
      [(2, .removed .response x .discarded), (1, .handed .response x)] =
        before ++ (i', Note.handed k' y) :: after → y.tag.ticket = 1 → k' = .response ∧ y = x := by
  intro x i' k' y before after hpost hticket
  have hhistory : arbiter.history (start 8) overtaken =
      [(0, .announced .ble true 1), (1, .admitted .response x), (1, .rc 0), (1, .entered),
        (1, .selected .response x)] ++ (2, .announced .ble false 1) ::
        [(2, .removed .response x .discarded), (1, .handed .response x)] := rfl
  obtain ⟨hkind, hy, -⟩ := (session_isolation ⟨8, by decide⟩ overtaken _ 2 .ble false 1 _ hhistory
    1 .response x (by simp) rfl (.inl rfl)).2 i' k' y before after hpost hticket
  exact ⟨hkind, hy⟩

/-- The send then begins after the announcement. -/
theorem handed_after_disconnect :
    ¬ ∀ (d : Depth) (events : List (Nat × Input)),
      ∀ pre j link connected generation post,
        arbiter.history (start d.slots) events =
          pre ++ (j, .announced link connected generation) :: post →
        ∀ i k x, (i, .admitted k x) ∈ pre → x.tag.link = link →
          (connected = false ∨ generation ≠ x.tag.session) →
          ∀ i' k' y, (i', .handed k' y) ∈ post → y.tag.ticket ≠ x.tag.ticket := by
  intro hclaim
  let x : Slot := ⟨[79, 75, 10], ⟨1, 7, 1, .ble, true⟩⟩
  have hhistory : arbiter.history (start 8) overtaken =
      [(0, .announced .ble true 1), (1, .admitted .response x), (1, .rc 0), (1, .entered),
        (1, .selected .response x)] ++ (2, .announced .ble false 1) ::
        [(2, .removed .response x .discarded), (1, .handed .response x)] := rfl
  exact hclaim ⟨8, by decide⟩ overtaken _ 2 .ble false 1 _ hhistory 1 .response x (by simp) rfl
    (.inl rfl) 1 .response x (by simp) rfl

/-!
## Why an item goes

Each reason a note gives for a removal is true of the section that makes the note
(`removed_holds`).
-/

/-- What a reason says of the section that takes an item out: `t` is the state before it, `r` what
it leads to. -/
def Reason.Holds (t : Shared) (input : Input) (r : Shared × List Note × Pc) (k : Kind) (x : Slot) :
    Reason → Prop
  | .sent => .result k x 0 ∈ r.2.1
  | .stale => x.tag.link = .ble ∧ .result k x (-ESTALE) ∈ r.2.1
  | .evicted => k = .frame ∧ t.queues.framesFull = true ∧
      (∀ y, t.queues.contents.Has .frame y → x.tag.ticket ≤ y.tag.ticket) ∧
      ∃ y, .admitted .frame y ∈ r.2.1
  | .discarded => ¬ (r.1.queues.online x.tag.link = true ∧
      r.1.queues.sessions x.tag.link = x.tag.session)
  | .reset => input = .call .init ∨ input = .call .deinit

variable {depth : Nat} {t : Shared} {pc : Pc} {input : Input} {k : Kind} {x : Slot} {why : Reason}

theorem mem_removals {q : Queues} {p : Slot → Bool} {why' : Reason}
    (h : .removed k x why ∈ q.removals p why') : why = why' ∧ q.contents.Has k x ∧ p x = true := by
  obtain ⟨k', -, hk⟩ := mem_flatMap.mp h
  obtain ⟨y, hy, heq⟩ := mem_map.mp hk
  cases heq
  obtain ⟨hmem, hp⟩ := mem_filter.mp hy
  rw [Bool.and_eq_true] at hp
  exact ⟨rfl, contents_has.mpr ⟨hmem, hp.1⟩, hp.2⟩

theorem enqueueResponse_removed {link : Option Link} {line : Option (List UInt8)} {rc : Int}
    {identity : Nat} : .removed k x why ∉ (enqueueResponse t link line rc identity).2.1 := by
  unfold enqueueResponse
  split
  · dsimp only
    split
    · simp
    split
    · simp
    split <;> simp
  · simp

theorem enqueueFrame_removed {link : Option Link} {buf : Option (List UInt8)} {rc : Int}
    {identity : Nat} (h : .removed k x why ∈ (enqueueFrame t link buf rc identity).2.1) :
    why.Holds t input (enqueueFrame t link buf rc identity) k x := by
  revert h
  unfold enqueueFrame
  split
  · simp
  split
  · simp
  split
  · simp
  split
  · simp
  next tag q hadmission =>
  obtain ⟨rfl, -⟩ := admission_ok hadmission
  split
  · next hfull =>
    intro h
    rcases mem_append.mp h with h | h
    · obtain ⟨y, hy, heq⟩ := mem_map.mp h
      cases heq
      obtain ⟨i, hi, hget⟩ := Option.bind_eq_some_iff.mp (Option.mem_toList.mp hy)
      obtain ⟨z, hz, -, -, hmin⟩ := oldest_some hi
      cases hget.symm.trans hz
      refine ⟨rfl, hfull, fun y hy => ?_, ?_⟩
      · obtain ⟨hmem, hu⟩ := contents_has.mp hy
        exact hmin y hmem hu rfl
      · exact ⟨_, mem_append_right _ mem_cons_self⟩
    · simp at h
  · simp

theorem discardLink_removed {link : Link} (h : .removed k x why ∈ (discardLink t link).2) :
    why = .discarded ∧ t.queues.contents.Has k x ∧ x.tag.link = link := by
  obtain ⟨hwhy, hx, hlink⟩ := mem_removals h
  exact ⟨hwhy, hx, of_decide_eq_true hlink⟩

theorem linkState_removed (ht : t.queues.Wf depth) {link : Link} {connected : Bool}
    {generation : UInt32} (h : .removed k x why ∈ (linkState t link connected generation).2.1) :
    why.Holds t input (linkState t link connected generation) k x := by
  rcases mem_cons.mp h with h | h
  · cases h
  split at h
  · next hend =>
    obtain ⟨rfl, hx, rfl⟩ := discardLink_removed h
    obtain ⟨honline, hsession⟩ := ht.ok.link k x hx
    rintro ⟨hup, hsame⟩
    change Function.update _ _ _ _ = _ at hup
    change Function.update _ _ _ _ = _ at hsame
    rw [Function.update_self] at hup hsame
    rcases hend with hdown | hoffline | hother
    · exact absurd (hup.symm.trans hdown) (by decide)
    · exact absurd (honline.symm.trans hoffline) (by decide)
    · exact hother (hsession.trans hsame.symm)
  · exact absurd h not_mem_nil

theorem setLink_removed {link : Link} {selected : Bool}
    (h : .removed k x why ∈ (setLink t link selected).2.1) :
    why.Holds t input (setLink t link selected) k x := by
  rw [setLink] at h ⊢
  split at h
  · exact absurd h not_mem_nil
  · next hdown =>
    obtain ⟨rfl, -, rfl⟩ := discardLink_removed h
    rw [if_neg hdown]
    rintro ⟨hup, -⟩
    change Function.update _ _ _ _ = _ at hup
    rw [Function.update_self] at hup
    cases hup

theorem Queueing.removed {r : Shared × List Note × Pc} (hr : Queueing t r)
    (h : .removed k x why ∈ r.2.1) : why.Holds t input r k x := by
  cases hr with
  | quiet hr => exact absurd (hr.notes _ h) id
  | response => exact absurd h enqueueResponse_removed
  | frame => exact enqueueFrame_removed h

theorem call_removed (ht : t.queues.Wf depth) {c : Call} (h : .removed k x why ∈ (call t c).2.1) :
    why.Holds t (.call c) (call t c) k x := by
  rcases call_cases t c with hc | rfl | rfl | ⟨link, selected, heq⟩ |
    ⟨link, connected, generation, rfl⟩
  · exact hc.removed h
  · rcases mem_append.mp h with h | h
    · obtain ⟨rfl, -, -⟩ := mem_removals h
      exact .inl rfl
    · cases mem_singleton.mp h
  · obtain ⟨rfl, -, -⟩ := mem_removals h
    exact .inr rfl
  · rw [heq] at h ⊢
    exact setLink_removed h
  · exact linkState_removed ht h

theorem pumpResult_removed {p : Pump} {y : Pending} (hy : y.Copied t.queues.contents) {rc : Int}
    (h : .removed k x why ∈ (pumpResult t p y rc).2.1) :
    k = y.kind ∧ x = y.item ∧ why.Holds t input (pumpResult t p y rc) k x := by
  rcases pumpResult_cases t p y rc with ⟨-, heq⟩ | ⟨-, -, ⟨hrc, hsame, heq⟩ | ⟨-, heq⟩⟩
  · rw [heq] at h
    cases mem_singleton.mp h
  · obtain ⟨hget, -⟩ := get_of_same hy hsame
    rw [heq, getD_eq_getElem?_getD, hget, Option.getD_some] at h
    rcases mem_cons.mp h with h | h
    · cases h
    cases mem_singleton.mp h
    refine ⟨rfl, rfl, ?_⟩
    rw [heq]
    split
    · next hzero =>
      rw [hzero]
      exact mem_cons_self
    · next hne =>
      have hstale := hrc.resolve_left hne
      rw [staleBle, decide_eq_true_eq] at hstale
      rw [hstale.2]
      exact ⟨hstale.1, mem_cons_self⟩
  · rw [heq] at h
    cases mem_singleton.mp h

/-- **What a note says of a removal is so.** -/
theorem removed_holds (ht : t.queues.Wf depth)
    (hcopied : ∀ p y, pc.flight = some (p, y) → y.Copied t.queues.contents)
    (h : .removed k x why ∈ (body t pc input).2.1) :
    why.Holds t input (body t pc input) k x := by
  cases input with
  | call c =>
    unfold body at h ⊢
    dsimp only at h ⊢
    split at h
    · exact call_removed ht h
    · exact absurd h not_mem_nil
  | resume rc =>
    change .removed k x why ∈ (resume t pc rc).2.1 at h
    show why.Holds t _ (resume t pc rc) k x
    cases pc with
    | enter =>
      rcases enter_cases t with ⟨-, heq⟩ | ⟨-, heq⟩
      all_goals
        change .removed k x why ∈ (enter t).2.1 at h
        rw [heq] at h
        cases mem_singleton.mp h
    | loop p =>
      change .removed k x why ∈ (pumpLoop t p).2.1 at h
      rcases pumpLoop_cases t p with ⟨-, heq⟩ | ⟨-, ⟨y, -, heq⟩ | ⟨-, -, -, heq⟩ | ⟨-, -, heq⟩⟩
      all_goals
        rw [heq] at h
        simp at h
    | asking p y =>
      unfold resume at h ⊢
      dsimp only at h ⊢
      split at h
      · exact absurd h not_mem_nil
      · next hdown =>
        rw [if_neg hdown]
        exact (pumpResult_removed (hcopied p y rfl) h).2.2
    | handing p y => cases mem_singleton.mp h
    | sending p y => exact (pumpResult_removed (hcopied p y rfl) h).2.2
    | _ => exact (resume_queueing t rfl Pc.noConfusion rc).removed h

end Brickwright.Btsensor.Tx
