import Brickwright.Btsensor.Tx.Isolation
import Brickwright.Btsensor.Tx.Sends

/-!
# Delivery

What becomes of the items over a run: each is still queued as it was admitted or was removed once,
for a reason that is so (`Delivered.fate`, `Delivered.reason`); it is sent once if it is removed as
sent, and not at all otherwise, but for a send that was in progress when it was removed; and the
items of one link leave in the order of their tickets.
-/

namespace Brickwright.Btsensor.Tx

open List

/-- The notes of a run from the start, and the state it leads to. -/
abbrev noted (d : Depth) (events : List (Nat × Input)) : History :=
  arbiter.history (start d.slots) events

abbrev reached (d : Depth) (events : List (Nat × Input)) : Threads.State Shared Pc :=
  arbiter.machine.run (start d.slots) events

theorem reached_idle {d : Depth} {events : List (Nat × Input)} {n : Nat}
    (hlt : ∀ j ∈ events.map Prod.fst, j < n) (hpc : ∀ i < n, (reached d events).pc i = .idle)
    (i : Nat) : (reached d events).pc i = .idle := by
  by_cases hi : i < n
  · exact hpc i hi
  · refine Threads.run_pc_of_ne fun e he heq => hi ?_
    rw [← heq]
    exact hlt e.1 (mem_map_of_mem he)

/-- Thread `i` has the result of its send. -/
def Answers (i : Nat) (e : Nat × Note) : Prop := e.1 = i ∧ ∃ k x code, e.2 = .result k x code

/-- No pump call lasts through `2 ^ 32` lifetimes. -/
def FreshRun (d : Depth) (events : List (Nat × Input)) : Prop :=
  arbiter.machine.Throughout (fun s _ => Fresh s) (start d.slots) events

structure Delivered (d : Depth) (events : List (Nat × Input)) : Prop where
  /-- What was admitted is still queued as it was, or it was removed once. -/
  fate : ∀ k x, .admitted k x ∈ plain (noted d events) →
    ((reached d events).shared.queues.contents.Has k x ∧
      (plain (noted d events)).filter (Note.removes x.tag.ticket) = []) ∨
    ((∀ k' y, (reached d events).shared.queues.contents.Has k' y →
        y.tag.ticket ≠ x.tag.ticket) ∧
      ∃ why, (plain (noted d events)).filter (Note.removes x.tag.ticket) = [.removed k x why])
  /-- The reason of a removal is so in the section that removes. -/
  reason : ∀ before i input after k x why, events = before ++ (i, input) :: after →
    (i, .removed k x why) ∈ arbiter.notes (reached d before) i input →
    why.Holds (reached d before).shared input
      (body (reached d before).shared ((reached d before).pc i) input) k x
  /-- What is queued has not been sent; what was removed as sent has been sent once. -/
  once : FreshRun d events →
    (∀ k x, (reached d events).shared.queues.contents.Has k x →
      successes (noted d events) x.tag.ticket = 0) ∧
    (∀ k x, .removed k x .sent ∈ plain (noted d events) →
      successes (noted d events) x.tag.ticket = 1) ∧
    ∀ n, successes (noted d events) n ≤ 1
  /-- What was removed for another reason had not been sent, and if its send succeeds behind that,
  the pump had taken the item up before and was still at it. -/
  overtaken : ∀ pre i k x why post, noted d events = pre ++ (i, .removed k x why) :: post →
    why ≠ .sent →
    (FreshRun d events → successes pre x.tag.ticket = 0) ∧
    ∀ before j k' y code after, post = before ++ (j, .result k' y code) :: after →
      y.tag.ticket = x.tag.ticket →
      ∃ l r, pre = l ++ (j, .selected k x) :: r ∧ ∀ e ∈ r ++ before, ¬ Answers j e
  /-- Behind an item that was taken up, no older one of its link and array is taken up or
  removed. -/
  taken : ∀ pre i k x post, noted d events = pre ++ (i, .selected k x) :: post →
    ∀ j y, ((j, .selected k y) ∈ post ∨ ∃ why, (j, .removed k y why) ∈ post) →
      y.tag.link = x.tag.link → x.tag.ticket ≤ y.tag.ticket
  /-- Behind an item that was sent, only younger ones are. -/
  leaves : ∀ pre i k x post, noted d events = pre ++ (i, .removed k x .sent) :: post →
    ∀ j y, ((j, .selected k y) ∈ post ∨ ∃ why, (j, .removed k y why) ∈ post) →
      y.tag.link = x.tag.link → x.tag.ticket < y.tag.ticket
  room : count ((reached d events).shared.queues.slots .response) ≤ 3 ∧
    count ((reached d events).shared.queues.slots .frame) ≤ d.slots - 1
  link : ∀ k x, (reached d events).shared.queues.contents.Has k x →
    (reached d events).shared.queues.online x.tag.link = true ∧
      (reached d events).shared.queues.sessions x.tag.link = x.tag.session

variable {d : Depth} {events : List (Nat × Input)} {h : History} {s : Threads.State Shared Pc}
  {depth : Nat} {i : Nat} {k : Kind} {x : Slot} {why : Reason}

theorem items_run (d : Depth) (events : List (Nat × Input)) :
    Items d.slots (noted d events) (reached d events) := (start_items d).run events

/-! ## The fate of an item -/

theorem fate_of_ledger {l : List Note} {c : Contents} (hl : Ledger l c) (hx : .admitted k x ∈ l) :
    (c.Has k x ∧ l.filter (Note.removes x.tag.ticket) = []) ∨
    ((∀ k' y, c.Has k' y → y.tag.ticket ≠ x.tag.ticket) ∧
      ∃ why, l.filter (Note.removes x.tag.ticket) = [.removed k x why]) := by
  rcases hl.fate hx with ⟨hqueued, hno⟩ | ⟨hgone, hone⟩
  · rw [countP_eq_length_filter, length_eq_zero_iff] at hno
    exact .inl ⟨hqueued, hno⟩
  · rw [countP_eq_length_filter, length_eq_one_iff] at hone
    obtain ⟨n, hn⟩ := hone
    obtain ⟨hmem, hremoves⟩ := mem_filter.mp (hn ▸ mem_singleton_self n)
    cases n with
    | removed k' y why =>
      have hticket : y.tag.ticket = x.tag.ticket := of_decide_eq_true hremoves
      obtain ⟨rfl, rfl⟩ := hl.admitted_unique (hl.removed k' y why hmem).1 hx hticket
      exact .inr ⟨hgone, why, hn⟩
    | _ => cases hremoves

theorem removed_gone (hs : Items depth h s) {input : Input}
    (hn : .removed k x why ∈ (body s.shared (s.pc i) input).2.1) :
    Gone (fun _ y => y.tag.ticket = x.tag.ticket)
      (arbiter.step s i input).shared.queues.contents := by
  have hafter := (hs.step i input).ledger
  have hmem : Note.removed k x why ∈ plain (h ++ arbiter.notes s i input) := by
    rw [plain_step]
    exact mem_append_right _ hn
  have hadmitted := (hafter.removed k x why hmem).1
  rcases hafter.fate hadmitted with ⟨-, hno⟩ | ⟨hgone, -⟩
  · rw [countP_eq_zero] at hno
    exact absurd (decide_eq_true rfl) (hno _ hmem)
  · refine ⟨hgone, fun k' y hy => ?_⟩
    rw [hy]
    exact hafter.old hadmitted

/-! ## Order -/

/-- The items of `x`'s link and array with older tickets, and those with tickets not younger. -/
def OlderThan (k : Kind) (x : Slot) (k' : Kind) (y : Slot) : Prop :=
  k' = k ∧ y.tag.link = x.tag.link ∧ y.tag.ticket < x.tag.ticket

def NotYounger (k : Kind) (x : Slot) (k' : Kind) (y : Slot) : Prop :=
  k' = k ∧ y.tag.link = x.tag.link ∧ y.tag.ticket ≤ x.tag.ticket

theorem selected_gone (hs : Items depth h s) {input : Input}
    (hn : .selected k x ∈ (body s.shared (s.pc i) input).2.1) :
    Gone (OlderThan k x) (arbiter.step s i input).shared.queues.contents ∧
      arbiter.notes s i input = [(i, .selected k x)] := by
  obtain ⟨p, z, -, -, hnext, rfl, rfl, heq⟩ := selected_cases hn
  obtain ⟨hget, hfree, hmin⟩ := next_some hnext
  have hshared : (arbiter.step s i input).shared = s.shared := congrArg Prod.fst heq
  refine ⟨⟨?_, ?_⟩, ?_⟩
  · rintro k' y hy ⟨rfl, hlink, hlt⟩
    rw [hshared] at hy
    exact absurd (hmin y hy (hlink ▸ hfree)) (Nat.not_le.mpr hlt)
  · rintro k' y ⟨-, -, hlt⟩
    rw [hshared]
    have hle := hs.ledger.ok.old _ _ (Contents.has_iff.mpr ⟨_, hget⟩)
    exact Nat.le_trans (Nat.le_of_lt hlt) hle
  · exact congrArg (List.map (Prod.mk i)) (congrArg (fun r => r.2.1) heq)

/-- When an item is removed as sent, nothing of its link and array is queued that is not younger,
and the removal is the last that its section notes. -/
theorem sent_gone (hs : Items depth h s) {input : Input}
    (hn : .removed k x .sent ∈ (body s.shared (s.pc i) input).2.1) :
    Gone (NotYounger k x) (arbiter.step s i input).shared.queues.contents ∧
      ∃ k' y, arbiter.notes s i input = [(i, .result k' y 0), (i, .removed k x .sent)] := by
  obtain ⟨p, z, hflight, hlive, hsame, rfl, hslot, heq⟩ := sent_cases hn
  have hcopied := (hs.copied i p z hflight).1
  obtain ⟨hget, -⟩ := get_of_same hcopied hsame
  rw [getD_eq_getElem?_getD, hget, Option.getD_some] at hslot
  subst hslot
  have hnotes : (body s.shared (s.pc i) input).2.1 =
      [.result z.kind z.item 0, .removed z.kind z.item .sent] := by
    rcases pumpResult_cases s.shared p z 0 with ⟨hdead, -⟩ | ⟨-, -, ⟨-, -, hr⟩ | ⟨hno, -⟩⟩
    · exact absurd hdead hlive
    · rw [heq, hr, getD_eq_getElem?_getD, hget, Option.getD_some, if_pos rfl]
    · exact absurd ⟨.inl rfl, hsame⟩ hno
  refine ⟨⟨?_, ?_⟩, z.kind, z.item, ?_⟩
  · -- The ticket itself has been removed, and an older one was not queued before.
    rintro k' y hy ⟨rfl, hlink, hle⟩
    have hold := (hcopied.moves (hs.moves i input)).first y hy hlink
    exact (removed_gone hs hn).absent _ y hy (Nat.le_antisymm hle hold)
  · rintro k' y ⟨-, -, hle⟩
    exact Nat.le_trans hle (hcopied.moves (hs.moves i input)).old
  · exact congrArg (List.map (Prod.mk i)) hnotes

variable {pre post : History} {y : Slot}

/-- **What is taken up is the oldest** of its link and array, and stays so. -/
theorem taken_in_order (hh : noted d events = pre ++ (i, .selected k x) :: post) {j : Nat}
    (hy : (j, .selected k y) ∈ post ∨ ∃ why, (j, .removed k y why) ∈ post)
    (hlink : y.tag.link = x.tag.link) : x.tag.ticket ≤ y.tag.ticket := by
  obtain ⟨before, ⟨i', input⟩, after, l, r, -, hnotes, -, rfl⟩ := Threads.exists_step_of_history hh
  have hs := items_run d before
  have hmem : (i, .selected k x) ∈ arbiter.notes (reached d before) i' input := by
    rw [hnotes]
    simp
  obtain ⟨rfl, hn⟩ := Threads.mem_notes.mp hmem
  obtain ⟨hgone, hone⟩ := selected_gone hs hn
  have hr : r = [] := by
    rw [hone] at hnotes
    rcases append_eq_singleton_iff.mp hnotes.symm with ⟨-, hcons⟩ | ⟨-, hnil⟩
    · exact (List.cons.inj hcons).2
    · cases hnil
  rw [hr, nil_append] at hy
  obtain ⟨hselected, hremoved⟩ := gone_history (hs.step i input) hgone after
  by_contra hlt
  have holder : OlderThan k x k y := ⟨rfl, hlink, Nat.not_le.mp hlt⟩
  rcases hy with hy | ⟨why, hy⟩
  · exact hselected j k y hy holder
  · exact hremoved j k y why hy holder

/-- **What is sent leaves in order.** -/
theorem sent_in_order (hh : noted d events = pre ++ (i, .removed k x .sent) :: post) {j : Nat}
    (hy : (j, .selected k y) ∈ post ∨ ∃ why, (j, .removed k y why) ∈ post)
    (hlink : y.tag.link = x.tag.link) : x.tag.ticket < y.tag.ticket := by
  obtain ⟨before, ⟨i', input⟩, after, l, r, -, hnotes, -, rfl⟩ := Threads.exists_step_of_history hh
  have hs := items_run d before
  have hmem : (i, .removed k x .sent) ∈ arbiter.notes (reached d before) i' input := by
    rw [hnotes]
    simp
  obtain ⟨rfl, hn⟩ := Threads.mem_notes.mp hmem
  obtain ⟨hgone, k', z, htwo⟩ := sent_gone hs hn
  have hr : r = [] := by
    rw [htwo] at hnotes
    cases l with
    | nil => cases hnotes
    | cons e l =>
      have hlen := congrArg List.length hnotes
      exact length_eq_zero_iff.mp (by simp at hlen; omega)
  rw [hr, nil_append] at hy
  obtain ⟨hselected, hremoved⟩ := gone_history (hs.step i input) hgone after
  by_contra hle
  have holder : NotYounger k x k y := ⟨rfl, hlink, Nat.not_lt.mp hle⟩
  rcases hy with hy | ⟨why, hy⟩
  · exact hselected j k y hy holder
  · exact hremoved j k y why hy holder

/-! ## Sends in progress -/

/-- Whoever has an item in flight took it up, and has had no result since. -/
def Open (h : History) (s : Threads.State Shared Pc) : Prop :=
  ∀ i p x, (s.pc i).flight = some (p, x) →
    Outstanding (· = (i, .selected x.kind x.item)) (Answers i) h

theorem Open.step (ho : Open h s) (i : Nat) (input : Input) :
    Open (h ++ arbiter.notes s i input) (arbiter.step s i input) := by
  intro j p x hj
  by_cases hij : j = i
  · subst hij
    rw [Threads.step_pc_self] at hj
    change Outstanding _ _ (h ++ (body s.shared (s.pc j) input).2.1.map _)
    rcases flight_cases hj with ⟨heq, hx⟩ | ⟨hpc, heq⟩ | ⟨hpc, heq⟩ | ⟨-, -, -, heq⟩
    · rw [heq, map_nil, append_nil]
      exact ho j p x hx
    · rw [heq, map_nil, append_nil]
      exact ho j p x (by rw [hpc]; rfl)
    · rw [heq]
      refine (ho j p x (by rw [hpc]; rfl)).append_left fun e he => ?_
      cases mem_singleton.mp he
      rintro ⟨-, _, _, _, hn⟩
      cases hn
    · rw [heq]
      exact Outstanding.concat.mpr (.inl rfl)
  · rw [Threads.step_pc_of_ne hij] at hj
    refine (ho j p x hj).append_left ?_
    rintro ⟨i', n⟩ he ⟨hthread, -⟩
    exact hij (hthread.symm.trans (Threads.mem_notes.mp he).1)

theorem open_run (d : Depth) (events : List (Nat × Input)) :
    Open (noted d events) (reached d events) := by
  have h0 : Open [] (start d.slots) := nofun
  exact Threads.history_invariant (fun _ _ i input ho => ho.step i input) h0 events

theorem result_first {t : Shared} {p : Pump} {z : Pending} {rc code : Int} {l r : List Note}
    (h : (pumpResult t p z rc).2.1 = l ++ .result k y code :: r) : l = [] := by
  have htail : ∃ tail, (pumpResult t p z rc).2.1 = .result z.kind z.item rc :: tail ∧
      .result k y code ∉ tail := by
    rcases pumpResult_cases t p z rc with ⟨-, heq⟩ | ⟨-, -, ⟨-, -, heq⟩ | ⟨-, heq⟩⟩
    · exact ⟨[], congrArg (fun r => r.2.1) heq, not_mem_nil⟩
    · exact ⟨_, congrArg (fun r => r.2.1) heq, fun hmem => by cases mem_singleton.mp hmem⟩
    · exact ⟨[], congrArg (fun r => r.2.1) heq, not_mem_nil⟩
  obtain ⟨tail, htail, hno⟩ := htail
  cases l with
  | nil => rfl
  | cons n l =>
    rw [htail, cons_append] at h
    rw [(List.cons.inj h).2] at hno
    exact absurd (mem_append_right _ mem_cons_self) hno

/-- Whoever has a result took the item up, and has had no result since. -/
theorem result_outstanding {j : Nat} {code : Int}
    (hh : noted d events = pre ++ (j, .result k y code) :: post) :
    Outstanding (· = (j, .selected k y)) (Answers j) pre ∧ .admitted k y ∈ plain pre := by
  obtain ⟨before, ⟨j', input⟩, after, l, r, -, hnotes, rfl, -⟩ := Threads.exists_step_of_history hh
  have hmem : (j, .result k y code) ∈ arbiter.notes (reached d before) j' input := by
    rw [hnotes]
    simp
  obtain ⟨rfl, hn⟩ := Threads.mem_notes.mp hmem
  obtain ⟨p, z, hflight, rfl, rfl, heq⟩ := result_cases hn
  have hl : l = [] := by
    have hplain := congrArg plain hnotes
    rw [plain_notes, heq, plain, map_append] at hplain
    exact map_eq_nil_iff.mp (result_first hplain)
  rw [hl, append_nil]
  exact ⟨open_run d before j p z hflight, ((items_run d before).copied j p z hflight).2⟩

/-- **What was removed is not taken up again**: a send of it that ends later had been begun. -/
theorem overtaken_send {pre before after : History} {j : Nat} {k' : Kind} {code : Int}
    (hh : noted d events =
      pre ++ (i, .removed k x why) :: (before ++ (j, .result k' y code) :: after))
    (hticket : y.tag.ticket = x.tag.ticket) :
    ∃ l r, pre = l ++ (j, .selected k x) :: r ∧ ∀ e ∈ r ++ before, ¬ Answers j e := by
  have hresult : noted d events =
      (pre ++ (i, .removed k x why) :: before) ++ (j, .result k' y code) :: after := by
    rw [hh, append_assoc]
    rfl
  obtain ⟨⟨l, e, r, heq, rfl, hno⟩, hy⟩ := result_outstanding hresult
  have hledger := (items_run d events).ledger
  have hremoved : Note.removed k x why ∈ plain (noted d events) := by
    rw [hh]
    simp
  have hx := (hledger.removed k x why hremoved).1
  have hy' : Note.admitted k' y ∈ plain (noted d events) := by
    rw [hresult, plain, map_append]
    exact mem_append_left _ hy
  obtain ⟨rfl, rfl⟩ := hledger.admitted_unique hy' hx hticket
  -- It was not taken up behind the removal.
  have hbefore : (j, .selected k' y) ∉ (i, .removed k' y why) :: before := by
    intro hmem
    have hmem : (j, .selected k' y) ∈ before := by
      rcases mem_cons.mp hmem with hmem | hmem
      · cases hmem
      · exact hmem
    obtain ⟨first, ⟨i', input⟩, later, l', r', -, hnotes, -, hpost⟩ :=
      Threads.exists_step_of_history hh
    have hin : (i, .removed k' y why) ∈ arbiter.notes (reached d first) i' input := by
      rw [hnotes]
      simp
    obtain ⟨rfl, hn⟩ := Threads.mem_notes.mp hin
    have hs := items_run d first
    have hin : (j, .selected k' y) ∈ r' ++ _ := hpost ▸ mem_append_left _ hmem
    rcases mem_append.mp hin with hin | hin
    · have hselected : (j, .selected k' y) ∈ arbiter.notes (reached d first) i input := by
        rw [hnotes]
        exact mem_append_right _ (mem_cons_of_mem _ hin)
      obtain ⟨rfl, hselected⟩ := Threads.mem_notes.mp hselected
      obtain ⟨-, hone⟩ := selected_gone hs hselected
      rw [hone] at hnotes
      have hlast : (j, .removed k' y why) ∈ [(j, Note.selected k' y)] := by
        rw [hnotes]
        simp
      cases mem_singleton.mp hlast
    · exact (gone_history (hs.step i input) (removed_gone hs hn) later).1 j k' y hin rfl
  obtain ⟨r', rfl, rfl⟩ := Outstanding.split_left heq hbefore
  refine ⟨l, r', rfl, fun e he => hno e ?_⟩
  rcases mem_append.mp he with he | he
  · exact mem_append_left _ he
  · exact mem_append_right _ (mem_cons_of_mem _ he)

/-- **What was not removed as sent had not been sent.** -/
theorem not_sent_before (hfresh : FreshRun d events)
    (hh : noted d events = pre ++ (i, .removed k x why) :: post) (hwhy : why ≠ .sent) :
    successes pre x.tag.ticket = 0 := by
  obtain ⟨before, ⟨i', input⟩, after, l, r, rfl, hnotes, rfl, -⟩ :=
    Threads.exists_step_of_history hh
  have hmem : (i, .removed k x why) ∈ arbiter.notes (reached d before) i' input := by
    rw [hnotes]
    simp
  obtain ⟨rfl, hn⟩ := Threads.mem_notes.mp hmem
  have hsends := sends_run d before ((Machine.throughout_append _).mp hfresh).1
  have hbefore : successes (noted d before) x.tag.ticket = 0 := by
    rcases ((items_run d before).moves i input).removed hn with hqueued | hnew
    · exact hsends.queued k x hqueued
    · exact hsends.new _ hnew
  have hsection : (plain l).countP (Note.succeeds x.tag.ticket) = 0 := by
    have hle : (plain l).countP (Note.succeeds x.tag.ticket) ≤
        (plain (arbiter.notes (reached d before) i input)).countP
          (Note.succeeds x.tag.ticket) := by
      rw [hnotes, plain, plain, map_append, countP_append]
      exact Nat.le_add_right _ _
    rw [plain_notes] at hle
    rcases succeeds_cases (reached d before).shared ((reached d before).pc i) input with
      hno | ⟨p, z, -, heq⟩
    · have := hno x.tag.ticket
      omega
    · -- The section behind a successful send removes nothing for another reason.
      change .removed k x why ∈ (body _ _ _).2.1 at hn
      rw [heq] at hn
      rcases pumpResult_cases (reached d before).shared p z 0 with
        ⟨-, hr⟩ | ⟨-, -, ⟨-, -, hr⟩ | ⟨-, hr⟩⟩
      · rw [hr] at hn
        cases mem_singleton.mp hn
      · rw [hr] at hn
        rcases mem_cons.mp hn with hn | hn
        · cases hn
        · cases mem_singleton.mp hn
          exact absurd rfl hwhy
      · rw [hr] at hn
        cases mem_singleton.mp hn
  show (plain (noted d before ++ l)).countP _ = 0
  rw [plain, map_append, countP_append]
  exact (congrArg₂ _ hbefore hsection).trans rfl

/-! ## The whole -/

/-- **The transmit arbiter delivers**, in every run. -/
theorem delivery (d : Depth) (events : List (Nat × Input)) : Delivered d events where
  fate _ _ hx := fate_of_ledger (items_run d events).ledger hx
  reason before i input _ k x why _ hn := by
    have hs := items_run d before
    exact removed_holds hs.wf (fun p y hy => (hs.copied i p y hy).1) (Threads.mem_notes.mp hn).2
  once hfresh := by
    have hsends := sends_run d events hfresh
    exact ⟨hsends.queued, hsends.sent, hsends.once⟩
  overtaken pre i k x why post hh hwhy := by
    refine ⟨fun hfresh => not_sent_before hfresh hh hwhy, ?_⟩
    intro before j k' y code after hpost hticket
    exact overtaken_send (hpost ▸ hh) hticket
  taken _ _ _ _ _ hh _ _ hy hlink := taken_in_order hh hy hlink
  leaves _ _ _ _ _ hh _ _ hy hlink := sent_in_order hh hy hlink
  room := by
    have hs := items_run d events
    have hresponse := hs.wf.ok.room .response
    have hframe := hs.wf.ok.room .frame
    rw [contents_count, contents_length, hs.wf.response, respDepth] at hresponse
    rw [contents_count, contents_length, hs.wf.frame] at hframe
    omega
  link k x hx := (items_run d events).wf.ok.link k x hx

/-- A BLE link comes up, a response is queued, the pump hands it over, the disconnect is announced,
and then the send succeeds. -/
def sentLate : List (Nat × Input) :=
  [(0, .call (.linkState (some .ble) true 1)),
    (1, .call (.enqueueResponseForLink (some .ble) (some [79, 75, 10]) 0 7)),
    (1, .resume 0), (1, .resume 0), (1, .resume 0), (2, .call (.linkState (some .ble) false 1)),
    (1, .resume 0)]

/-- Thread 1 is about to look for an item, in the first lifetime; it is lifetime `n` now. -/
def idling (pumping : Bool) (n : Nat) : Threads.State Shared Pc :=
  ⟨{ boot 8 with queues := { (boot 8).queues with lifetime := n, pumping := pumping } },
    fun i => if i = 1 then .loop ⟨0, fun _ => false, true⟩ else .idle⟩

theorem step_idling (pumping : Bool) (n : Nat) :
    arbiter.step (idling pumping n) 2 (.call .init) = idling false (n + 1) := by
  rw [Threads.step, idling, idling, Threads.State.mk.injEq]
  refine ⟨?_, ?_⟩
  · simp [arbiter, body, call, init, boot, Drain.clear, Slot.zero]
    funext k
    cases k <;> rfl
  · funext i
    by_cases hi : i = 2
    · subst hi
      rfl
    · rw [Function.update_of_ne hi]

theorem run_idling (pumping : Bool) (m n : Nat) :
    arbiter.machine.run (idling pumping m) (List.replicate (n + 1) (2, .call .init)) =
        idling false (m + n + 1) ∧
      arbiter.history (idling pumping m) (List.replicate (n + 1) (2, .call .init)) =
        List.replicate (n + 1) (2, .rc 0) := by
  have hnotes : ∀ pumping m, arbiter.notes (idling pumping m) 2 (.call .init) = [(2, .rc 0)] :=
    fun _ _ => rfl
  induction n generalizing pumping m with
  | zero =>
    rw [replicate_one, replicate_one, Threads.run_cons, Threads.history_cons, step_idling,
      hnotes]
    exact ⟨rfl, rfl⟩
  | succ n ih =>
    rw [replicate_succ, Threads.run_cons, Threads.history_cons, step_idling, hnotes,
      (ih false (m + 1)).1, (ih false (m + 1)).2]
    exact ⟨congrArg (idling false) (by omega), rfl⟩

/-- A pump begins, `2 ^ 32` lifetimes pass, and then it takes a response up beside the pump of the
new lifetime. -/
def wrapping : List (Nat × Input) := [(1, .call .onCanSendNow), (1, .resume 0)]

def wrapped : List (Nat × Input) :=
  [(3, .call (.linkState (some .ble) true 1)),
    (4, .call (.enqueueResponseForLink (some .ble) (some [79, 75, 10]) 0 7)), (4, .resume 0),
    (1, .resume 0), (4, .resume 0), (1, .resume 0), (4, .resume 0), (1, .resume 0), (4, .resume 0)]

/-- A response can be discarded and sent, and one that no pump should have twice can be sent
twice. -/
theorem sent_and_discarded :
    (¬ ∀ (d : Depth) (events : List (Nat × Input)) (x : Slot),
      .admitted .response x ∈ plain (noted d events) →
      let queued := (reached d events).shared.queues.contents.Has .response x
      let sent := successes (noted d events) x.tag.ticket = 1
      let discarded := ∃ why, why ≠ .sent ∧ .removed .response x why ∈ plain (noted d events)
      (queued ∧ ¬ sent ∧ ¬ discarded) ∨ (¬ queued ∧ sent ∧ ¬ discarded) ∨
        (¬ queued ∧ ¬ sent ∧ discarded)) ∧
    ¬ ∀ (d : Depth) (events : List (Nat × Input)) (n : Nat), successes (noted d events) n ≤ 1 := by
  let x : Slot := ⟨[79, 75, 10], ⟨1, 7, 1, .ble, true⟩⟩
  constructor
  · intro hclaim
    have hhistory : noted ⟨8, by decide⟩ sentLate =
        [(0, .announced .ble true 1), (1, .admitted .response x), (1, .rc 0), (1, .entered),
          (1, .selected .response x), (1, .handed .response x), (2, .announced .ble false 1),
          (2, .removed .response x .discarded), (1, .result .response x 0)] := rfl
    have hsent : successes (noted ⟨8, by decide⟩ sentLate) x.tag.ticket = 1 := by
      rfl
    have hdiscarded : .removed .response x .discarded ∈ plain (noted ⟨8, by decide⟩ sentLate) := by
      rw [hhistory]
      simp
    have hadmitted : .admitted .response x ∈ plain (noted ⟨8, by decide⟩ sentLate) := by
      rw [hhistory]
      simp
    rcases hclaim ⟨8, by decide⟩ sentLate x hadmitted with ⟨-, hno, -⟩ | ⟨-, -, hno⟩ | ⟨-, hno, -⟩
    · exact hno hsent
    · exact hno ⟨.discarded, by decide, hdiscarded⟩
    · exact hno hsent
  · intro hclaim
    have hle := hclaim ⟨8, by decide⟩
      (wrapping ++ List.replicate (4294967295 + 1) (2, .call .init) ++ wrapped) 1
    have hfirst : arbiter.machine.run (start 8) wrapping = idling true 0 := by
      rw [idling, wrapping, Threads.run_cons, Threads.run_cons, Threads.run_nil, Threads.step,
        Threads.State.mk.injEq]
      refine ⟨rfl, funext fun i => ?_⟩
      by_cases hi : i = 1
      · subst hi
        rfl
      · exact (Function.update_of_ne hi ..).trans
          ((Function.update_of_ne hi ..).trans (if_neg hi).symm)
    have hlast : arbiter.history (idling false 4294967296) wrapped =
        [(3, .announced .ble true 1), (4, .admitted .response x), (4, .rc 0), (4, .entered),
          (1, .selected .response x), (4, .selected .response x), (1, .handed .response x),
          (4, .handed .response x), (1, .result .response x 0), (1, .removed .response x .sent),
          (4, .result .response x 0)] := rfl
    obtain ⟨hrun, hhistory⟩ := run_idling true 0 4294967295
    have htwo : (plain (noted ⟨8, by decide⟩ (wrapping ++
        List.replicate (4294967295 + 1) (2, .call .init) ++ wrapped))).countP (Note.succeeds 1) =
          2 := by
      rw [noted, Threads.history_append, Threads.history_append, Machine.run_append, hfirst, hrun,
        hhistory, hlast, plain, map_append, map_append, countP_append,
        countP_append, map_replicate, countP_replicate]
      rfl
    rw [successes, htwo] at hle
    exact absurd hle (by decide)

end Brickwright.Btsensor.Tx
