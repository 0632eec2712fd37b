import Brickwright.Btcap.Stream

/-!
# The life cycle of a session

The channel is idle while no one has it open, a session that is not finalised has a writer, and an
aborted one stays so until both sides are closed.

A session that was finalised with a reader ends when that closes, drained or not. So it goes to IDLE
with everything delivered exactly as long as readers close on an empty ring (`life_cycle`).
-/

namespace Brickwright.Btcap

open Chardev
open List

/-- Whether the last session has been finalised, with a reader there. -/
def finalisedStep (finalised : Bool) (n : Nat × Note) : Bool :=
  match n.2 with
  | .registers => false
  | .finalises readerOpen => readerOpen
  | _ => finalised

def finalisedWithReader (h : History) : Bool := h.foldl finalisedStep false

/-! ## Closing -/

section Closing

variable {s : Chardev}

theorem closed_writer : (s.closed .writer).writerOpen = false ∧
    (s.closed .writer).readerOpen = s.readerOpen ∧
    ((s.closed .writer).state = .ready →
      s.state = .ready ∧ s.readerOpen = true ∧ (s.closed .writer).writerDone = true) ∧
    (s.readerOpen = false → (s.closed .writer).state = .idle) ∧
    (s.readerOpen = true → s.state = .aborted → (s.closed .writer).state = .aborted) := by
  unfold closed closeSide closeWriter
  cases hstate : s.state <;> cases hdone : s.writerDone <;> cases hreader : s.readerOpen <;>
    simp [reset, *]

theorem closed_reader : (s.closed .reader).readerOpen = false ∧
    (s.closed .reader).writerOpen = s.writerOpen ∧ (s.closed .reader).state ≠ .ready ∧
    (s.writerOpen = false → (s.closed .reader).state = .idle) ∧
    (s.writerOpen = true → s.state = .aborted → (s.closed .reader).state = .aborted) ∧
    (s.state = .ready → s.writerDone = true → (s.closed .reader).state = .idle) := by
  unfold closed closeSide closeReader
  cases hstate : s.state <;> cases hdone : s.writerDone <;> cases hwriter : s.writerOpen <;>
    simp [reset, *]

end Closing

/-! ## What holds of the flags -/

structure Living (h : History) (s : Chardev) : Prop where
  idle : s.writerOpen = false → s.readerOpen = false → s.state = .idle
  written : s.state = .ready → s.writerDone = false → s.writerOpen = true
  read : s.state = .ready → finalisedWithReader h = true →
    s.readerOpen = true ∧ s.writerDone = true

section Acts

variable {h : History} {s s' : Chardev} {point : Point} {input : Input} {a : Act} {i : Nat}
  {notes : List Note}

theorem finalisedWithReader_filter : finalisedWithReader (h ++ notes.map (Prod.mk i)) =
    finalisedWithReader (h ++ (notes.filter Note.ofSession).map (Prod.mk i)) := by
  simp only [finalisedWithReader, foldl_append, foldl_map]
  generalize h.foldl finalisedStep false = finalised
  induction notes generalizing finalised with
  | nil => rfl
  | cons n notes ih =>
    cases n <;> exact ih _

theorem Living.of_core (hl : Living h s) (hcore : s'.core = s.core) : Living h s' := by
  have hstate : s'.state = s.state := eq_of_core state (fun _ => rfl) hcore
  have hdone : s'.writerDone = s.writerDone := eq_of_core writerDone (fun _ => rfl) hcore
  have hwriter : s'.writerOpen = s.writerOpen := eq_of_core writerOpen (fun _ => rfl) hcore
  have hreader : s'.readerOpen = s.readerOpen := eq_of_core readerOpen (fun _ => rfl) hcore
  constructor
  · rw [hwriter, hreader, hstate]
    exact hl.idle
  · rw [hwriter, hdone, hstate]
    exact hl.written
  · rw [hreader, hdone, hstate]
    exact hl.read

theorem finalised_cases : s.finalised = { s with writerDone := true } ∨
    s.finalised = { s with writerDone := true }.reset := by
  unfold finalised
  dsimp only
  split
  · exact .inr rfl
  · exact .inl rfl

/-- **What happens to a session keeps the flags in order.** -/
theorem Living.act (hl : Living h s) (henabled : a.Enabled s point input) :
    Living (h ++ (a.notes s).map (Prod.mk i)) (s.act a) := by
  have hplain : a.notes s = [] → Living h (s.act a) →
      Living (h ++ (a.notes s).map (Prod.mk i)) (s.act a) := by
    intro hnotes hl
    rwa [hnotes, map_nil, append_nil]
  have hsame : finalisedWithReader (h ++ (a.notes s).map (Prod.mk i)) = finalisedWithReader h →
      Living h (s.act a) → Living (h ++ (a.notes s).map (Prod.mk i)) (s.act a) := by
    intro hfinalised hl
    exact ⟨hl.idle, hl.written, hfinalised.symm ▸ hl.read⟩
  cases a with
  | stay => exact hplain rfl hl
  | opens fd =>
    refine hplain rfl ?_
    cases fd with
    | writer => exact ⟨nofun, fun _ _ => rfl, hl.read⟩
    | reader =>
      exact ⟨nofun, hl.written, fun hready hfinalised => ⟨rfl, (hl.read hready hfinalised).2⟩⟩
  | closes fd =>
    refine hplain rfl ?_
    cases fd with
    | writer =>
      obtain ⟨hwriter, hreader, hready, hidle, -⟩ := closed_writer (s := s)
      refine ⟨fun _ h => hidle (hreader.symm.trans h), fun h hdone => ?_, fun h _ => ?_⟩
      · exact absurd (hdone.symm.trans (hready h).2.2) Bool.false_ne_true
      · exact ⟨hreader.trans (hready h).2.1, (hready h).2.2⟩
    | reader =>
      obtain ⟨hreader, hwriter, hready, hidle, -⟩ := closed_reader (s := s)
      exact ⟨fun h _ => hidle (hwriter.symm.trans h), fun h => absurd h hready,
        fun h => absurd h hready⟩
  | registers m =>
    have hnone : finalisedWithReader (h ++ [(i, .registers)]) = false := by
      simp [finalisedWithReader, finalisedStep]
    have hwriter : s.writerOpen = true := henabled.2.2.1
    refine ⟨fun hclosed => ?_, fun _ _ => hwriter, fun _ hfinalised => ?_⟩
    · exact absurd (hclosed.symm.trans hwriter) Bool.false_ne_true
    · exact absurd (hnone.symm.trans hfinalised) Bool.false_ne_true
  | finalises =>
    have hwith : finalisedWithReader (h ++ [(i, .finalises s.readerOpen)]) = s.readerOpen := by
      simp [finalisedWithReader, finalisedStep]
    have hwriter : s.writerOpen = true := henabled.2.2.2.1
    rcases finalised_cases (s := s) with hact | hact
    · rw [show s.act .finalises = { s with writerDone := true } from hact]
      refine ⟨fun hclosed => ?_, fun _ _ => hwriter, fun _ hfinalised => ⟨?_, rfl⟩⟩
      · exact absurd (hclosed.symm.trans hwriter) Bool.false_ne_true
      · exact hwith.symm.trans hfinalised
    · rw [show s.act .finalises = ({ s with writerDone := true } : Chardev).reset from hact]
      exact ⟨fun _ _ => rfl, nofun, nofun⟩
  | aborts =>
    refine hplain rfl ⟨fun hwriter hreader => ?_, nofun, nofun⟩
    have hidle := hl.idle hwriter hreader
    exact absurd (hidle.symm.trans henabled.1) (by decide)
  | accepts bytes =>
    refine hsame ?_ ⟨hl.idle, hl.written, hl.read⟩
    simp [Act.notes, finalisedWithReader, finalisedStep]
  | delivers count =>
    refine hsame ?_ ⟨hl.idle, hl.written, hl.read⟩
    simp [Act.notes, finalisedWithReader, finalisedStep]

theorem Living.body (hl : Living h s) :
    Living (h ++ (Btcap.body s point input).2.1.map (Prod.mk i)) (Btcap.body s point input).1 := by
  obtain ⟨a, henabled, hcore, hnotes⟩ := body_session s point input
  have hnext := (hl.act (i := i) henabled).of_core hcore
  refine ⟨hnext.idle, hnext.written, fun hready hfinalised => hnext.read hready ?_⟩
  rwa [← hnotes, ← finalisedWithReader_filter]

/-- **An aborted session is left when both sides are closed.** -/
theorem aborted_act (henabled : a.Enabled s point input) (haborted : s.state = .aborted)
    (hleft : (s.act a).state ≠ .aborted) :
    (s.act a).writerOpen = false ∧ (s.act a).readerOpen = false := by
  cases a with
  | stay | accepts _ | delivers _ => exact absurd haborted hleft
  | opens fd =>
    cases fd <;> exact absurd haborted hleft
  | closes fd =>
    cases fd with
    | writer =>
      obtain ⟨hwriter, hreader, -, -, hstays⟩ := closed_writer (s := s)
      refine ⟨hwriter, hreader.trans ?_⟩
      by_contra hopen
      exact hleft (hstays (Bool.eq_true_of_not_eq_false hopen) haborted)
    | reader =>
      obtain ⟨hreader, hwriter, -, -, hstays, -⟩ := closed_reader (s := s)
      refine ⟨hwriter.trans ?_, hreader⟩
      by_contra hopen
      exact hleft (hstays (Bool.eq_true_of_not_eq_false hopen) haborted)
  | registers m => exact absurd (haborted.symm.trans henabled.1) (by decide)
  | finalises => exact absurd (haborted.symm.trans henabled.1) (by decide)
  | aborts => exact absurd rfl hleft

/-- A session that was finalised with a reader ends well when that closes, and never otherwise. -/
theorem ended_act (hl : Living h s) (henabled : a.Enabled s point input) (hready : s.state = .ready)
    (hfinalised : finalisedWithReader h = true) :
    (s.act a).state = .idle ↔ a = .closes .reader := by
  obtain ⟨hreader, hdone⟩ := hl.read hready hfinalised
  have hbusy : s.state ≠ .idle := by
    rw [hready]
    decide
  cases a with
  | stay | accepts _ | delivers _ => exact iff_of_false hbusy nofun
  | opens fd => cases fd <;> exact iff_of_false hbusy nofun
  | closes fd =>
    cases fd with
    | writer =>
      refine iff_of_false ?_ nofun
      unfold Chardev.act closed closeSide closeWriter
      simp [hready, hdone, hreader]
    | reader =>
      obtain ⟨-, -, -, -, -, hidle⟩ := closed_reader (s := s)
      exact iff_of_true (hidle hready hdone) rfl
  | registers m => exact absurd henabled.1 hbusy
  | finalises => exact absurd (henabled.2.1.symm.trans hdone) Bool.false_ne_true
  | aborts => exact iff_of_false nofun nofun

end Acts

/-! ## Whole runs -/

structure Alive (size : Nat) (h : History) (s : Threads.State Chardev Point) : Prop where
  streaming : Streaming size h s
  living : Living h s.shared

theorem alive_boot (size : Nat) : Alive size [] (boot size) where
  streaming := streaming_boot size
  living := ⟨fun _ _ => rfl, nofun, nofun⟩

theorem Alive.step {size : Nat} {h : History} {s : Threads.State Chardev Point}
    (ha : Alive size h s) (i : Nat) (input : Input) :
    Alive size (h ++ threads.notes s i input) (threads.step s i input) where
  streaming := ha.streaming.step i input
  living := ha.living.body

theorem alive_run (size : Nat) (events : List (Nat × Input)) :
    Alive size (threads.history (boot size) events)
      (threads.machine.run (boot size) events) := by
  have hstep : ∀ h s i input, Alive size h s →
      Alive size (h ++ threads.notes s i input) (threads.step s i input) :=
    fun _ _ i input ha => ha.step i input
  have hrun := Threads.history_invariant hstep (alive_boot size) events
  rwa [nil_append] at hrun

/-- A session that was finalised with a reader goes to IDLE after everything has been delivered. -/
def Completes (h : History) (s : Threads.State Chardev Point) (e : Nat × Input) : Prop :=
  s.shared.state = .ready → finalisedWithReader h = true →
    (threads.step s e.1 e.2).shared.state = .idle → delivered h = accepted h

/-- The reader of such a session closes on an empty ring. -/
def ClosesDrained (h : History) (s : Threads.State Chardev Point) (e : Nat × Input) : Prop :=
  match s.pc e.1, e.2 with
  | .ready, .closeFile .reader _ =>
    s.shared.locked = false → s.shared.readerOpen = true → s.shared.state = .ready →
      finalisedWithReader h = true → s.shared.head = s.shared.tail
  | _, _ => True

section Steps

variable {size : Nat} {h : History} {s : Threads.State Chardev Point}

theorem Streaming.empty_iff (hs : Streaming size h s) :
    s.shared.head = s.shared.tail ↔ s.shared.ringUsed = 0 := by
  obtain ⟨⟨xs, hkeeps, -⟩, -⟩ := hs.book
  have htail := hkeeps.holds.tail_lt
  unfold ringUsed
  constructor
  · intro heq
    rw [heq, if_pos (Nat.le_refl _), Nat.sub_self]
  · split <;> omega

theorem Streaming.all_delivered_iff (hs : Streaming size h s) (hready : s.shared.state = .ready) :
    delivered h = accepted h ↔ s.shared.head = s.shared.tail := by
  rw [hs.empty_iff]
  obtain ⟨⟨xs, hkeeps, -, hkept⟩, -⟩ := hs.book
  rw [hkept (by rw [hready]; decide), hkeeps.ringUsed, self_eq_append_right,
    length_eq_zero_iff]

/-- **One step of a session that was finalised with a reader.** -/
theorem Alive.completes_iff (ha : Alive size h s) (e : Nat × Input) :
    Completes h s e ↔ ClosesDrained h s e := by
  obtain ⟨i, input⟩ := e
  obtain ⟨a, henabled, hcore, -⟩ :=
    body_session s.shared (s.pc i) input
  have hstate : (threads.step s i input).shared.state = (s.shared.act a).state :=
    eq_of_core state (fun _ => rfl) hcore
  constructor
  · intro hcompletes
    unfold ClosesDrained
    split
    · next picks hpc hinput =>
      intro hfree hopen hready hfinalised
      have hstep : (threads.step s i input).shared.state = .idle := by
        obtain ⟨-, -, -, -, -, hidle⟩ := closed_reader (s := s.shared)
        have hbody : (body s.shared (s.pc i) input).1 = s.shared.closeFile .reader picks := by
          rw [show s.pc i = .ready from hpc, show input = .closeFile .reader picks from hinput]
          have hgo : ¬(s.shared.locked = true ∨ ¬s.shared.isOpen .reader = true) := by
            rw [hfree]
            exact fun h => h.elim Bool.false_ne_true fun hclosed => hclosed hopen
          exact congrArg Prod.fst (if_neg hgo)
        show (body s.shared (s.pc i) input).1.state = .idle
        rw [hbody]
        exact hidle hready (ha.living.read hready hfinalised).2
      exact (ha.streaming.all_delivered_iff hready).mp (hcompletes hready hfinalised hstep)
    · trivial
  · intro hdrained hready hfinalised hidle
    -- only a reader that closes ends such a session
    have hcloses := (ended_act ha.living henabled hready hfinalised).mp (hstate.symm.trans hidle)
    subst hcloses
    obtain ⟨hfree, hopen, hpc, picks, hinput⟩ := henabled
    refine (ha.streaming.all_delivered_iff hready).mpr ?_
    unfold ClosesDrained at hdrained
    rw [hpc, hinput] at hdrained
    exact hdrained hfree hopen hready hfinalised

end Steps

/-- **The life cycle of a session.** In every run a channel that no one has open is idle and empty,
a session that is ready and not finalised has a writer, and an aborted one is left when both sides
are closed; and a session that was finalised with a reader goes to IDLE after the reader has got
everything in just those runs in which readers close such a session on an empty ring. -/
theorem life_cycle (size : Nat) (events : List (Nat × Input)) :
    ((threads.machine.run (boot size) events).shared.writerOpen = false →
      (threads.machine.run (boot size) events).shared.readerOpen = false →
      (threads.machine.run (boot size) events).shared.state = .idle ∧
        (threads.machine.run (boot size) events).shared.ringUsed = 0) ∧
    ((threads.machine.run (boot size) events).shared.state = .ready →
      (threads.machine.run (boot size) events).shared.writerDone = false →
      (threads.machine.run (boot size) events).shared.writerOpen = true) ∧
    (∀ before e after, events = before ++ e :: after →
      (threads.machine.run (boot size) before).shared.state = .aborted →
      (threads.machine.run (boot size) (before ++ [e])).shared.state ≠ .aborted →
      (threads.machine.run (boot size) (before ++ [e])).shared.writerOpen = false ∧
        (threads.machine.run (boot size) (before ++ [e])).shared.readerOpen = false) ∧
    ((∀ before e after, events = before ++ e :: after →
        Completes (threads.history (boot size) before) (threads.machine.run (boot size) before) e) ↔
      ∀ before e after, events = before ++ e :: after →
        ClosesDrained (threads.history (boot size) before)
          (threads.machine.run (boot size) before) e) := by
  have ha := alive_run size events
  refine ⟨fun hwriter hreader => ?_, ha.living.written, ?_, ?_⟩
  · have hidle := ha.living.idle hwriter hreader
    obtain ⟨⟨xs, hkeeps, hempty, -⟩, -⟩ := ha.streaming.book
    refine ⟨hidle, ?_⟩
    rw [hkeeps.ringUsed, hempty hidle, length_nil]
  · intro before e after _ haborted hleft
    rw [threads.machine.run_append] at hleft ⊢
    obtain ⟨a, henabled, hcore, -⟩ := body_session
      (threads.machine.run (boot size) before).shared
      ((threads.machine.run (boot size) before).pc e.1) e.2
    have hstate := eq_of_core state (fun _ => rfl) hcore
    obtain ⟨hwriter, hreader⟩ := aborted_act henabled haborted fun h => hleft (hstate.trans h)
    exact ⟨(eq_of_core writerOpen (fun _ => rfl) hcore).trans hwriter,
      (eq_of_core readerOpen (fun _ => rfl) hcore).trans hreader⟩
  · refine forall_congr' fun before => forall_congr' fun e => forall_congr' fun after => ?_
    exact imp_congr_right fun _ => (alive_run size before).completes_iff e

/-- A reader closes with a byte of a finalised session in the ring. -/
def earlyClose : List (Nat × Input) :=
  [(0, .openFile true false), (1, .openFile false true),
    (0, .ioctl .writer (.registerSession {}) (0, 0)), (0, .write [7] false), (0, .go (0, 0)),
    (0, .go (0, 0)), (0, .ioctl .writer .finalizeSession (0, 0)), (1, .closeFile .reader (0, 0))]

theorem not_life_cycle :
    finalisedWithReader (threads.history (boot 3) earlyClose) = true ∧
    (threads.machine.run (boot 3) earlyClose.dropLast).shared.state = .ready ∧
    (threads.machine.run (boot 3) earlyClose).shared.state = .idle ∧
    accepted (threads.history (boot 3) earlyClose) = [7] ∧
    delivered (threads.history (boot 3) earlyClose) = [] := by
  decide +kernel

end Brickwright.Btcap
