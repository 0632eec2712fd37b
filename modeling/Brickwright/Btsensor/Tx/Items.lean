import Brickwright.Btsensor.Tx.Pump

/-!
# Items over a run

`Items` relates the notes of a run to the state it led to: the ledger is kept, every copy a pump has
in flight is a copy of an admitted item, and one that is still to be handed over was taken up since
its thread last handed something over. What is gone stays gone, so it is never taken up again
(`gone_history`). From there come the results about sessions and about order.
-/

namespace Brickwright.Btsensor.Tx

open List

abbrev History := List (Nat × Note)

abbrev plain (h : History) : List Note := h.map Prod.snd

/-- Thread `i` hands an item over. -/
def HandsOver (i : Nat) (e : Nat × Note) : Prop := e.1 = i ∧ ∃ k x, e.2 = .handed k x

structure Items (depth : Nat) (h : History) (s : Threads.State Shared Pc) : Prop where
  wf : s.shared.queues.Wf depth
  ledger : Ledger (plain h) s.shared.queues.contents
  copied : ∀ i p x, (s.pc i).flight = some (p, x) →
    x.Copied s.shared.queues.contents ∧ .admitted x.kind x.item ∈ plain h
  ready : ∀ i p x, s.pc i = .asking p x ∨ s.pc i = .handing p x →
    Outstanding (· = (i, .selected x.kind x.item)) (HandsOver i) h

section Step

variable {depth : Nat} {h : History} {s : Threads.State Shared Pc}

theorem plain_notes (s : Threads.State Shared Pc) (i : Nat) (input : Input) :
    plain (arbiter.notes s i input) = (body s.shared (s.pc i) input).2.1 := by
  rw [Threads.notes, plain, map_map]
  exact map_id _

theorem Items.moves (hs : Items depth h s) (i : Nat) (input : Input) :
    Moves s.shared.queues.contents (body s.shared (s.pc i) input).2.1
      (arbiter.step s i input).shared.queues.contents :=
  body_moves hs.wf (fun p x hx => (hs.copied i p x hx).1) input

theorem Wf.moves {q q' : Queues} {notes : List Note} (hq : q.Wf depth)
    (h : Moves q.contents notes q'.contents) : q'.Wf depth := by
  obtain ⟨hok, hlen⟩ := h.keep hq.ok
  refine ⟨hok, ?_, ?_⟩
  · rw [← contents_length, hlen, contents_length]
    exact hq.response
  · rw [← contents_length, hlen, contents_length]
    exact hq.frame

theorem Ledger.copied {q : Queues} {l : List Note} {blocked : Link → Bool} {x : Pending}
    (hl : Ledger l q.contents) (h : q.next blocked = some x) : x.Copied q.contents := by
  obtain ⟨hget, hfree, hmin⟩ := next_some h
  have hhas : q.contents.Has x.kind x.item := Contents.has_iff.mpr ⟨_, hget⟩
  refine ⟨hl.ok.old _ _ hhas, ?_, ?_⟩
  · intro k i y hy heq
    exact hl.place hy hget heq
  · intro y hy hlink
    exact hmin y hy (hlink ▸ hfree)

theorem Items.step (hs : Items depth h s) (i : Nat) (input : Input) :
    Items depth (h ++ arbiter.notes s i input) (arbiter.step s i input) := by
  have hmoves := hs.moves i input
  have hplain : plain (h ++ arbiter.notes s i input) =
      plain h ++ (body s.shared (s.pc i) input).2.1 := by
    rw [plain, map_append, ← plain_notes]
  refine ⟨Wf.moves hs.wf hmoves, ?_, ?_, ?_⟩
  · rw [hplain]
    exact hs.ledger.moves hmoves
  · intro j p x hj
    rw [hplain]
    have hbefore : (s.pc j).flight = some (p, x) →
        x.Copied (arbiter.step s i input).shared.queues.contents ∧
          .admitted x.kind x.item ∈ plain h ++ (body s.shared (s.pc i) input).2.1 := by
      intro hx
      obtain ⟨hcopied, hadmitted⟩ := hs.copied j p x hx
      exact ⟨hcopied.moves hmoves, mem_append_left _ hadmitted⟩
    by_cases hij : j = i
    · subst hij
      rw [Threads.step_pc_self] at hj
      rcases flight_cases hj with ⟨-, hx⟩ | ⟨hpc, -⟩ | ⟨hpc, -⟩ | ⟨-, -, hnext, -⟩
      · exact hbefore hx
      · exact hbefore (by rw [hpc]; rfl)
      · exact hbefore (by rw [hpc]; rfl)
      · have hcopied := hs.ledger.copied hnext
        obtain ⟨hget, -⟩ := next_some hnext
        refine ⟨hcopied.moves hmoves, mem_append_left _ ?_⟩
        exact hs.ledger.admitted _ _ (Contents.has_iff.mpr ⟨_, hget⟩)
    · rw [Threads.step_pc_of_ne hij] at hj
      exact hbefore hj
  · intro j p x hj
    by_cases hij : j = i
    · subst hij
      rw [Threads.step_pc_self] at hj
      have hflight : (body s.shared (s.pc j) input).2.2.flight = some (p, x) := by
        rcases hj with hj | hj
        · exact (congrArg Pc.flight hj).trans rfl
        · exact (congrArg Pc.flight hj).trans rfl
      change (body s.shared (s.pc j) input).2.2 = _ ∨ (body s.shared (s.pc j) input).2.2 = _ at hj
      change Outstanding _ _ (h ++ (body s.shared (s.pc j) input).2.1.map _)
      rcases flight_cases hflight with ⟨heq, -⟩ | ⟨hpc, heq⟩ | ⟨-, heq⟩ | ⟨-, -, -, heq⟩
      · rw [heq] at hj ⊢
        rw [map_nil, append_nil]
        exact hs.ready j p x hj
      · rw [heq, map_nil, append_nil]
        exact hs.ready j p x (.inl hpc)
      · rw [heq] at hj
        rcases hj with hj | hj <;> cases hj
      · rw [heq]
        exact Outstanding.concat.mpr (.inl rfl)
    · rw [Threads.step_pc_of_ne hij] at hj
      refine (hs.ready j p x hj).append_left ?_
      rintro ⟨i', n⟩ he ⟨hthread, -⟩
      exact hij (hthread.symm.trans (Threads.mem_notes.mp he).1)

theorem Items.run (hs : Items depth h s) (events : List (Nat × Input)) :
    Items depth (h ++ arbiter.history s events) (arbiter.machine.run s events) :=
  Threads.history_invariant (fun _ _ i input hs => hs.step i input) hs events

/-! ## What is gone -/

theorem Gone.not_removed {P : Kind → Slot → Prop} {c c' : Contents} {notes : List Note}
    (hg : Gone P c) (hm : Moves c notes c') {k : Kind} {x : Slot} {why : Reason}
    (hn : .removed k x why ∈ notes) : ¬ P k x := by
  induction hm with
  | nil => exact absurd hn not_mem_nil
  | cons hmove _ ih =>
    rcases mem_append.mp hn with hn | hn
    · exact hg.absent k x (hmove.removed hn).1
    · exact ih (hg.move hmove) hn

/-- **What is gone stays gone**: no later section takes it up or removes it. -/
theorem gone_history {P : Kind → Slot → Prop} (hs : Items depth h s)
    (hg : Gone P s.shared.queues.contents) (events : List (Nat × Input)) :
    (∀ i k x, (i, .selected k x) ∈ arbiter.history s events → ¬ P k x) ∧
      ∀ i k x why, (i, .removed k x why) ∈ arbiter.history s events → ¬ P k x := by
  let Inv (l : History) (s : Threads.State Shared Pc) : Prop :=
    Items depth (h ++ l) s ∧ Gone P s.shared.queues.contents ∧
      (∀ i k x, (i, .selected k x) ∈ l → ¬ P k x) ∧
      ∀ i k x why, (i, .removed k x why) ∈ l → ¬ P k x
  have hstep : ∀ l s i input, Inv l s →
      Inv (l ++ arbiter.notes s i input) (arbiter.step s i input) := by
    rintro l s i input ⟨hs, hg, hselected, hremoved⟩
    have hmoves := hs.moves i input
    refine ⟨by rw [← append_assoc]; exact hs.step i input, hg.moves hmoves, ?_, ?_⟩
    · intro j k x hn
      rcases mem_append.mp hn with hn | hn
      · exact hselected j k x hn
      · obtain ⟨p, y, -, -, hnext, rfl, rfl, -⟩ := selected_cases (Threads.mem_notes.mp hn).2
        exact hg.absent _ _ (Contents.has_iff.mpr ⟨_, (next_some hnext).1⟩)
    · intro j k x why hn
      rcases mem_append.mp hn with hn | hn
      · exact hremoved j k x why hn
      · exact hg.not_removed hmoves (Threads.mem_notes.mp hn).2
  have h0 : Inv [] s := ⟨by rwa [append_nil], hg, fun _ _ _ hn => absurd hn not_mem_nil,
    fun _ _ _ _ hn => absurd hn not_mem_nil⟩
  exact (Threads.history_invariant hstep h0 events).2.2

end Step

/-! ## The start -/

/-- `CONFIG_APP_BTSENSOR_RING_DEPTH`, with the range it has in the configuration. -/
structure Depth where
  slots : Nat
  range : 4 ≤ slots ∧ slots ≤ 128

theorem start_items (d : Depth) : Items d.slots [] (start d.slots) := by
  have hitems : ∀ k, ∃ n, 2 ≤ n ∧
      (boot d.slots).queues.contents.items k = List.replicate n none := by
    intro k
    cases k with
    | response => exact ⟨4, by omega, rfl⟩
    | frame =>
      refine ⟨d.slots, by have := d.range; omega, ?_⟩
      show (List.replicate d.slots Slot.zero).map Slot.content = _
      rw [map_replicate]
      rfl
  have hnone : ∀ k x, ¬ (boot d.slots).queues.contents.Has k x := by
    intro k x hx
    obtain ⟨n, -, hn⟩ := hitems k
    rw [Contents.Has, hn] at hx
    cases eq_of_mem_replicate hx
  have hok : (boot d.slots).queues.contents.Ok := by
    refine ⟨fun k => ?_, fun k => ?_, fun k x hx => absurd hx (hnone k x),
      fun k x hx => absurd hx (hnone k x), fun k x hx => absurd hx (hnone k x), Nat.zero_le _⟩
    · obtain ⟨n, hn, heq⟩ := hitems k
      rw [heq, countP_replicate, length_replicate, if_neg (by decide)]
      omega
    · obtain ⟨n, hn, heq⟩ := hitems k
      rw [heq, length_replicate]
      exact hn
  refine ⟨⟨hok, rfl, length_replicate⟩,
    ⟨hok, fun n => ?_, fun n => Nat.zero_le _, fun n _ => rfl,
    fun k x hx => absurd hx (hnone k x), fun _ _ _ hn => absurd hn not_mem_nil⟩, ?_, ?_⟩
  · show 0 = 0 + (boot d.slots).queues.contents.tickets n
    rcases Nat.eq_zero_or_pos ((boot d.slots).queues.contents.tickets n) with hzero | hpos
    · rw [hzero]
    · obtain ⟨k, x, hx, -⟩ := (Ledger.tickets_pos n).mp hpos
      exact absurd hx (hnone k x)
  · intro i p x hx
    cases hx
  · rintro i p x (hx | hx) <;> cases hx

end Brickwright.Btsensor.Tx
