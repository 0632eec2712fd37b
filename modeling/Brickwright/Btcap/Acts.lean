import Brickwright.Btcap.Basic

/-!
# What a section does to the session

A section takes the lock, changes the session in one way at most and wakes both sides if it did.

* `body_cases` — a section does one thing to the session, or it is about a semaphore.
* `body_session` — the session alone.
-/

namespace Brickwright.Btcap

inductive Act where
  | stay
  | opens (fd : Descriptor)
  | closes (fd : Descriptor)
  | registers (m : SessionMeta)
  | finalises
  | aborts
  | accepts (bytes : List UInt8)
  | delivers (count : Nat)

namespace Chardev

variable (s : Chardev)

/-- The channel without the lock and the semaphores. -/
def core : Chardev := { s with writableSem := {}, readableSem := {}, locked := false }

def opened : Descriptor → Chardev
  | .writer => { s with writerOpen := true }
  | .reader => { s with readerOpen := true }

def act : Act → Chardev
  | .stay => s
  | .opens fd => s.opened fd
  | .closes fd => s.closed fd
  | .registers m => s.registered m
  | .finalises => s.finalised
  | .aborts => s.aborted
  | .accepts bytes => s.accept bytes
  | .delivers count => s.deliver count

def Notified (s' : Chardev) : Prop :=
  ∃ picks : Picks, s'.writableSem = notify s.writableSem picks.1 ∧
    s'.readableSem = notify s.readableSem picks.2

def Unnotified (s' : Chardev) : Prop :=
  s'.writableSem = s.writableSem ∧ s'.readableSem = s.readableSem

end Chardev

namespace Act

/-- A thread gets through with a call on an open descriptor. -/
def Begins (s : Chardev) (point : Point) (input : Input) (fd : Descriptor)
    (call : Picks → Input) : Prop :=
  s.locked = false ∧ s.isOpen fd = true ∧ point = .ready ∧ ∃ picks, input = call picks

/-- When it can happen. A writer in its loop has seen that the session is there. -/
def Enabled (s : Chardev) (point : Point) (input : Input) : Act → Prop
  | .stay => True
  | .opens fd => s.isOpen fd = false
  | .closes fd => Begins s point input fd (.closeFile fd)
  | .registers m =>
    s.state = .idle ∧ Begins s point input .writer (.ioctl .writer (.registerSession m))
  | .finalises =>
    s.state = .ready ∧ s.writerDone = false ∧
      Begins s point input .writer (.ioctl .writer .finalizeSession)
  | .aborts => s.state = .ready ∧ ∃ fd, Begins s point input fd (.ioctl fd .abortSession)
  | .accepts bytes =>
    bytes.length ≤ s.ringFree ∧
      (s.state = .ready ∨ ∃ data written nonblock generation,
        point = .looping (.write data written) nonblock generation)
  | .delivers count => count ≤ s.ringUsed

def notes (s : Chardev) : Act → List Note
  | .registers _ => [.registers]
  | .finalises => [.finalises s.readerOpen]
  | .accepts bytes => [.accepts bytes]
  | .delivers count => [.delivers (Ring.copyOut s.ring s.tail count)]
  | _ => []

def Silent : Act → Prop
  | .stay | .opens _ => True
  | _ => False

end Act

/-- The thread is not about to wait, and does not. -/
def Point.Runs : Point → Prop
  | .waiting .. | .blocked .. => False
  | _ => True

/-- A note about the session, not about a call. -/
def Note.ofSession : Note → Bool
  | .registers | .finalises _ | .accepts _ | .delivers _ => true
  | _ => false

namespace Chardev

variable {s s' : Chardev}

section Fields

variable (picks : Picks)

@[simp] theorem core_lock : s.lock.core = s.core := rfl

@[simp] theorem core_setSem (side : Side) (sem : Semaphore) :
    (s.setSem side sem).core = s.core := by
  cases side <;> rfl

theorem eq_of_core {α : Type} (f : Chardev → α) (hf : ∀ t, f t.core = f t)
    (hcore : s'.core = s.core) : f s' = f s := by
  rw [← hf s', hcore, hf]

end Fields

theorem unnotified_refl : s.Unnotified s := ⟨rfl, rfl⟩

/-- A section, or what it has come to, does one thing to the session. -/
def Does (s : Chardev) (point : Point) (input : Input) (s' : Chardev) (notes : List Note) : Prop :=
  ∃ a : Act, a.Enabled s point input ∧ s'.core = (s.act a).core ∧
    notes.filter Note.ofSession = a.notes s ∧ (s.Notified s' ∨ a.Silent ∧ s.Unnotified s')

theorem does_stay {point : Point} {input : Input} {notes : List Note} (hcore : s'.core = s.core)
    (hnotes : notes.filter Note.ofSession = []) (hsems : s.Notified s' ∨ s.Unnotified s') :
    s.Does point input s' notes :=
  ⟨.stay, trivial, hcore, hnotes, hsems.imp id fun h => ⟨trivial, h⟩⟩

/-! ## Turns of a session -/

/-- A session goes on with its ring, or it is reset. -/
def Turned (s s' : Chardev) : Prop :=
  s'.ring = s.ring ∧
    (s'.state = .idle ∧ s'.head = 0 ∧ s'.tail = 0 ∨
      s'.head = s.head ∧ s'.tail = s.tail ∧
        (s'.state = s.state ∨ s.state = .ready ∧ s'.state = .aborted))

theorem turned_of_same (hring : s'.ring = s.ring) (hhead : s'.head = s.head)
    (htail : s'.tail = s.tail) (hstate : s'.state = s.state) : s.Turned s' :=
  ⟨hring, .inr ⟨hhead, htail, .inl hstate⟩⟩

theorem turned_reset (h : s'.ring = s.ring) : s.Turned s'.reset := ⟨h, .inl ⟨rfl, rfl, rfl⟩⟩

theorem turned_aborted (hready : s.state = .ready) : s.Turned s.aborted :=
  ⟨rfl, .inr ⟨rfl, rfl, .inr ⟨hready, rfl⟩⟩⟩

theorem turned_finalised : s.Turned s.finalised := by
  unfold finalised
  dsimp only
  split
  · exact turned_reset rfl
  · exact turned_of_same rfl rfl rfl rfl

theorem turned_closeWriter : s.Turned s.closeWriter := by
  unfold closeWriter
  dsimp only
  split
  · next h => exact ⟨rfl, .inr ⟨rfl, rfl, .inr ⟨h.1, rfl⟩⟩⟩
  · split
    · exact turned_reset rfl
    · exact turned_of_same rfl rfl rfl rfl

theorem turned_closeReader : s.Turned s.closeReader := by
  unfold closeReader
  dsimp only
  split
  · exact turned_reset rfl
  · split
    · exact turned_reset rfl
    · split
      · exact turned_reset rfl
      · split
        · next h => exact ⟨rfl, .inr ⟨rfl, rfl, .inr ⟨h, rfl⟩⟩⟩
        · exact turned_of_same rfl rfl rfl rfl

theorem turned_closeSide (fd : Descriptor) : s.Turned (s.closeSide fd) := by
  cases fd with
  | writer => exact turned_closeWriter
  | reader => exact turned_closeReader

theorem turned_closed (fd : Descriptor) : s.Turned (s.closed fd) := by
  unfold closed
  dsimp only
  split
  · exact turned_reset (turned_closeSide fd).1
  · exact turned_closeSide fd

theorem turned_act {a : Act} {point : Point} {input : Input} (henabled : a.Enabled s point input)
    (hregisters : ∀ m, a ≠ .registers m) (haccepts : ∀ bytes, a ≠ .accepts bytes)
    (hdelivers : ∀ count, a ≠ .delivers count) : s.Turned (s.act a) := by
  cases a with
  | stay => exact turned_of_same rfl rfl rfl rfl
  | opens fd => cases fd <;> exact turned_of_same rfl rfl rfl rfl
  | closes fd => exact turned_closed fd
  | registers m => exact absurd rfl (hregisters m)
  | finalises => exact turned_finalised
  | aborts => exact turned_aborted henabled.1
  | accepts bytes => exact absurd rfl (haccepts bytes)
  | delivers count => exact absurd rfl (hdelivers count)

@[simp] theorem sem_setSem (side : Side) (sem : Semaphore) :
    (s.setSem side sem).sem side = sem := by
  cases side <;> rfl

theorem setSem_sem (side : Side) : s.setSem side (s.sem side) = s := by cases side <;> rfl

theorem sem_setSem_of_ne {side side' : Side} (h : side' ≠ side) (sem : Semaphore) :
    (s.setSem side sem).sem side' = s.sem side' := by
  cases side <;> cases side' <;> first | rfl | exact absurd rfl h

/-! ## The parts of a section -/

section Parts

variable {point : Point} {input : Input} {data got : List UInt8} {written buflen : Nat}
    {nonblock : Bool}
  {generation : UInt32} {ret : Int} {picks : Picks}

variable {notes : List Note}

theorem does_openFile (wantWrite wantRead : Bool) (hnotes : notes.filter Note.ofSession = []) :
    s.Does point input (s.openFile wantWrite wantRead).1 notes := by
  unfold openFile
  split
  · exact does_stay rfl hnotes (.inr unnotified_refl)
  · split
    · split
      · exact does_stay rfl hnotes (.inr unnotified_refl)
      · next hopen =>
        exact ⟨.opens .writer, Bool.eq_false_of_not_eq_true hopen, rfl, hnotes,
          .inr ⟨trivial, unnotified_refl⟩⟩
    · split
      · exact does_stay rfl hnotes (.inr unnotified_refl)
      · next hopen =>
        exact ⟨.opens .reader, Bool.eq_false_of_not_eq_true hopen, rfl, hnotes,
          .inr ⟨trivial, unnotified_refl⟩⟩

theorem closeWriter_sems : s.Unnotified s.closeWriter := by
  unfold closeWriter
  dsimp only
  split
  · exact ⟨rfl, rfl⟩
  · split <;> exact ⟨rfl, rfl⟩

theorem closeReader_sems : s.Unnotified s.closeReader := by
  unfold closeReader
  dsimp only
  split
  · exact ⟨rfl, rfl⟩
  · split
    · exact ⟨rfl, rfl⟩
    · split
      · exact ⟨rfl, rfl⟩
      · split <;> exact ⟨rfl, rfl⟩

theorem closeSide_sems (fd : Descriptor) : s.Unnotified (s.closeSide fd) := by
  cases fd with
  | writer => exact closeWriter_sems
  | reader => exact closeReader_sems

theorem closed_sems (fd : Descriptor) : s.Unnotified (s.closed fd) := by
  unfold closed
  dsimp only
  split <;> exact closeSide_sems fd

theorem Notified.of_sems {s₁ : Chardev} (hsems : s.Unnotified s₁) (picks : Picks) :
    s.Notified (s₁.notifyAll picks) :=
  ⟨picks, congrArg (notify · _) hsems.1, congrArg (notify · _) hsems.2⟩

theorem does_closeFile (fd : Descriptor) (hfree : s.locked = false) (hopen : s.isOpen fd = true)
    (hnotes : notes.filter Note.ofSession = []) :
    s.Does .ready (.closeFile fd picks) (s.closeFile fd picks) notes :=
  ⟨.closes fd, ⟨hfree, hopen, rfl, picks, rfl⟩, rfl, hnotes, .inl (.of_sems (closed_sems fd) picks)⟩

variable {fd : Descriptor}

theorem does_registerSession {m : SessionMeta} (hfree : s.locked = false)
    (hopen : s.isOpen fd = true) :
    s.Does .ready (.ioctl fd (.registerSession m) picks) (s.registerSession fd m picks).1
      (s.registerSession fd m picks).2 := by
  unfold registerSession
  split
  · exact does_stay rfl rfl (.inr unnotified_refl)
  · next hidle =>
    split
    · exact does_stay rfl rfl (.inr unnotified_refl)
    · next hwriter =>
      rw [not_not] at hidle hwriter
      subst hwriter
      exact ⟨.registers m, ⟨hidle, hfree, hopen, rfl, picks, rfl⟩, rfl, rfl,
        .inl (.of_sems unnotified_refl picks)⟩

theorem finalised_sems : s.Unnotified s.finalised := by
  unfold finalised
  dsimp only
  split <;> exact ⟨rfl, rfl⟩

theorem does_finalizeSession (hfree : s.locked = false) (hopen : s.isOpen fd = true) :
    s.Does .ready (.ioctl fd .finalizeSession picks) (s.finalizeSession fd picks).1
      (s.finalizeSession fd picks).2 := by
  unfold finalizeSession
  split
  · exact does_stay rfl rfl (.inr unnotified_refl)
  · next hwriter =>
    split
    · exact does_stay rfl rfl (.inr unnotified_refl)
    · next hgoing =>
      rw [not_not] at hwriter
      subst hwriter
      obtain ⟨hready, hdone⟩ := not_or.mp hgoing
      exact ⟨.finalises, ⟨not_not.mp hready, Bool.eq_false_of_not_eq_true hdone, hfree, hopen, rfl,
        picks, rfl⟩, rfl, rfl, .inl (.of_sems finalised_sems picks)⟩

theorem does_abortSession (hfree : s.locked = false) (hopen : s.isOpen fd = true) :
    s.Does .ready (.ioctl fd .abortSession picks) (s.abortSession picks).1
      (s.abortSession picks).2 := by
  unfold abortSession
  split
  · exact does_stay rfl rfl (.inr unnotified_refl)
  · next hready =>
    exact ⟨.aborts, ⟨not_not.mp hready, fd, hfree, hopen, rfl, picks, rfl⟩, rfl, rfl,
      .inl (.of_sems unnotified_refl picks)⟩

theorem does_ioctl (cmd : Ioctl) (hfree : s.locked = false) (hopen : s.isOpen fd = true) :
    s.Does .ready (.ioctl fd cmd picks) (s.ioctl fd cmd picks).1 (s.ioctl fd cmd picks).2 := by
  cases cmd with
  | registerSession m => exact does_registerSession hfree hopen
  | finalizeSession => exact does_finalizeSession hfree hopen
  | abortSession => exact does_abortSession hfree hopen
  | getSessionMeta =>
    unfold ioctl
    dsimp only
    split <;> exact does_stay rfl rfl (.inr unnotified_refl)
  | queryState | other => exact does_stay rfl rfl (.inr unnotified_refl)

theorem does_writeChunk (hready : s.state = .ready ∨ ∃ data written nonblock generation,
      point = .looping (.write data written) nonblock generation) :
    s.Does point input (s.writeChunk data written nonblock generation picks).1
      (s.writeChunk data written nonblock generation picks).2.1 := by
  refine ⟨.accepts _, ⟨?_, hready⟩, rfl, rfl, .inl (.of_sems unnotified_refl picks)⟩
  rw [List.length_take]
  omega

theorem waitWritable_some (h : s.waitWritable generation = some ret) :
    ret = -ECANCELED ∨ ret = 0 ∧ s.state = .ready ∧ s.writerDone = false ∧
      s.sessionGeneration = generation ∧ s.ringFree ≠ 0 := by
  unfold waitWritable at h
  split at h
  · cases h
  · next hover =>
    split at h
    · cases h
      exact .inl rfl
    · next hgoing =>
      cases h
      simp only [ne_eq, not_or, not_not, Bool.not_eq_true] at hgoing
      obtain ⟨hready, hdone, hgeneration⟩ := hgoing
      refine .inr ⟨rfl, hready, hdone, hgeneration, fun hfull => hover ?_⟩
      exact ⟨hready, by rw [hdone]; exact Bool.false_ne_true, hgeneration, hfull⟩

theorem does_writeWait :
    s.Does point input (s.writeWait data written generation picks).1
      (s.writeWait data written generation picks).2.1 := by
  unfold writeWait
  split
  · exact does_stay rfl rfl (.inr unnotified_refl)
  · next ret hwait =>
    split
    · exact does_stay rfl rfl (.inr unnotified_refl)
    · next hret =>
      rcases waitWritable_some hwait with rfl | ⟨-, hready, -⟩
      · exact absurd (by decide) hret
      · exact does_writeChunk (.inl hready)

theorem does_writeLoop (hpoint : point = .looping (.write data written) nonblock generation) :
    s.Does point input (s.writeLoop data written nonblock generation picks).1
      (s.writeLoop data written nonblock generation picks).2.1 := by
  unfold writeLoop
  split
  · split
    · split
      · exact does_stay rfl rfl (.inr unnotified_refl)
      · exact does_writeWait
    · exact does_writeChunk (.inr ⟨data, written, nonblock, generation, hpoint⟩)
  · exact does_stay rfl rfl (.inr unnotified_refl)

theorem does_write :
    s.Does point input (s.write data nonblock).1 (s.write data nonblock).2.1 := by
  unfold write
  split <;> exact does_stay rfl rfl (.inr unnotified_refl)

theorem does_readEnd :
    s.Does point input (s.readEnd buflen got nonblock picks).1
      (s.readEnd buflen got nonblock picks).2.1 := by
  unfold readEnd
  split
  · exact does_stay rfl rfl (.inl (.of_sems unnotified_refl picks))
  · exact does_stay rfl rfl (.inr unnotified_refl)

theorem does_readChunk :
    s.Does point input (s.readChunk buflen got nonblock generation picks).1
      (s.readChunk buflen got nonblock generation picks).2.1 :=
  ⟨.delivers _, Nat.min_le_right _ _, rfl, rfl, .inl (.of_sems unnotified_refl picks)⟩

theorem does_readWait :
    s.Does point input (s.readWait buflen got generation picks).1
      (s.readWait buflen got generation picks).2.1 := by
  unfold readWait
  split
  · exact does_stay rfl rfl (.inr unnotified_refl)
  · split
    · exact does_stay rfl rfl (.inr unnotified_refl)
    · exact does_readChunk

theorem does_readLoop :
    s.Does point input (s.readLoop buflen got nonblock generation picks).1
      (s.readLoop buflen got nonblock generation picks).2.1 := by
  unfold readLoop
  split
  · split
    · split
      · exact does_readEnd
      · split
        · exact does_readEnd
        · exact does_readWait
    · exact does_readChunk
  · exact does_readEnd

theorem does_read : s.Does point input (s.read buflen nonblock).1 (s.read buflen nonblock).2.1 := by
  unfold read
  split
  · exact does_stay rfl rfl (.inr unnotified_refl)
  · split <;> exact does_stay rfl rfl (.inr unnotified_refl)

theorem does_loop {call : Call} (hpoint : point = .looping call nonblock generation) :
    s.Does point input (s.loop call nonblock generation picks).1
      (s.loop call nonblock generation picks).2.1 := by
  cases call with
  | write data written => exact does_writeLoop hpoint
  | read buflen got => exact does_readLoop

theorem closeSide_lock (fd : Descriptor) : s.lock.closeSide fd = (s.closeSide fd).lock := by
  cases fd with
  | writer =>
    simp only [closeSide, closeWriter, apply_ite lock]
    rfl
  | reader =>
    simp only [closeSide, closeReader, apply_ite lock]
    rfl

theorem act_lock (a : Act) : s.lock.act a = (s.act a).lock := by
  cases a with
  | opens fd => cases fd <;> rfl
  | closes fd =>
    simp only [act, closed, closeSide_lock, apply_ite lock]
    rfl
  | finalises =>
    simp only [act, finalised, apply_ite lock]
    rfl
  | _ => rfl

theorem Does.of_lock (h : s.lock.Does point input s' notes) :
    s.Does point input s' notes := by
  obtain ⟨a, henabled, hcore, hnotes, hsems⟩ := h
  refine ⟨a, ?_, hcore.trans ?_, hnotes.trans ?_, hsems⟩
  · cases a with
    | closes fd => exact absurd henabled.1 nofun
    | registers m => exact absurd henabled.2.1 nofun
    | finalises => exact absurd henabled.2.2.1 nofun
    | aborts =>
      obtain ⟨-, fd, hfree, -⟩ := henabled
      exact absurd hfree nofun
    | _ => exact henabled
  · rw [act_lock, core_lock]
  · cases a <;> rfl

theorem does_resume {call : Call} :
    s.Does point input (s.resume call generation ret picks).1
      (s.resume call generation ret picks).2.1 := by
  unfold resume
  split
  · exact does_stay rfl rfl (.inr unnotified_refl)
  · exact does_writeWait.of_lock
  · exact does_stay rfl rfl (.inr unnotified_refl)
  · exact does_readWait.of_lock

end Parts

end Chardev

open Chardev

section Sections

variable {s : Chardev} {point : Point} {input : Input}

-- the cases of the code, derived once for all the lemmas that follow
attribute [elab_as_elim] body.fun_cases_unfolding

/-- **What a section does**: nothing; a wait for a semaphore ends or begins; or it does one thing to
the session. -/
theorem body_cases (s : Chardev) (point : Point) (input : Input) :
    body s point input = (s, [], point) ∨
    (∃ call generation ticket ret, point = .blocked call generation ticket ∧
      (ticket ∉ (s.sem call.side).waiting → ret = 0) ∧
      body s point input = (s.setSem call.side ((s.sem call.side).leave ticket), [],
        .woken call generation ret)) ∨
    (∃ call generation picks, point = .waiting call generation ∧ input = .go picks ∧
      body s point input = (s.setSem call.side (s.sem call.side).wait.1, [],
        match (s.sem call.side).wait.2 with
        | none => .woken call generation 0
        | some ticket => .blocked call generation ticket)) ∨
    point.Runs ∧ s.Does point input (body s point input).1 (body s point input).2.1 := by
  fun_cases body s point input with
  | case2 wantWrite wantRead hfree s' rc hopen =>
    have hdoes : s.Does .ready (.openFile wantWrite wantRead) (s.openFile wantWrite wantRead).1
        [.returns rc] := does_openFile wantWrite wantRead rfl
    rw [hopen] at hdoes
    exact .inr (.inr (.inr ⟨trivial, hdoes⟩))
  | case4 fd picks hfree =>
    exact .inr (.inr (.inr ⟨trivial, does_closeFile fd (by grind) (by grind) rfl⟩))
  | case6 fd cmd picks hfree s' notes hioctl =>
    have hdoes : s.Does .ready (.ioctl fd cmd picks) (s.ioctl fd cmd picks).1
        (s.ioctl fd cmd picks).2 := does_ioctl cmd (by grind) (by grind)
    rw [hioctl] at hdoes
    exact .inr (.inr (.inr ⟨trivial, hdoes⟩))
  | case8 | case12 =>
    exact .inr (.inr (.inr ⟨trivial, does_stay rfl rfl (.inr unnotified_refl)⟩))
  | case10 => exact .inr (.inr (.inr ⟨trivial, does_write⟩))
  | case14 => exact .inr (.inr (.inr ⟨trivial, does_read⟩))
  | case15 => exact .inr (.inr (.inr ⟨trivial, does_loop rfl⟩))
  | case16 call generation picks sem ticket hwait =>
    obtain rfl : sem = (s.sem call.side).wait.1 := (congrArg Prod.fst hwait).symm
    obtain rfl : ticket = (s.sem call.side).wait.2 := (congrArg Prod.snd hwait).symm
    exact .inr (.inr (.inl ⟨call, generation, picks, rfl, rfl, rfl⟩))
  | case18 call generation ticket picks hcalled =>
    refine .inr (.inl ⟨call, generation, ticket, 0, rfl, fun _ => rfl, ?_⟩)
    rw [Semaphore.leave_of_not_mem hcalled, setSem_sem]
  | case19 call generation ticket ret h =>
    exact .inr (.inl ⟨call, generation, ticket, ret, rfl, fun hcalled => absurd h.1 hcalled, rfl⟩)
  | case22 => exact .inr (.inr (.inr ⟨trivial, does_resume⟩))
  | _ => exact .inl rfl

variable (s point input) in
theorem body_session :
    ∃ a : Act, a.Enabled s point input ∧ (body s point input).1.core = (s.act a).core ∧
      (body s point input).2.1.filter Note.ofSession = a.notes s := by
  rcases body_cases s point input with hbody | ⟨call, generation, ticket, ret, -, -, hbody⟩ |
    ⟨call, generation, picks, -, -, hbody⟩ | ⟨-, a, henabled, hcore, hnotes, -⟩
  · rw [hbody]
    exact ⟨.stay, trivial, rfl, rfl⟩
  · rw [hbody]
    exact ⟨.stay, trivial, core_setSem .., rfl⟩
  · rw [hbody]
    exact ⟨.stay, trivial, core_setSem .., rfl⟩
  · exact ⟨a, henabled, hcore, hnotes⟩

end Sections

/-!
## The lock of the channel

A thread keeps the lock from one round of its loop to the next. While it does the others change
nothing but the semaphores (`body_of_locked`), so what a writer has seen of its session is still so
in the next round (`locking_step`).
-/

def Point.Holds (point : Point) : Prop :=
  ∃ call nonblock generation, point = .looping call nonblock generation

def Point.Writes (point : Point) : Prop :=
  ∃ data written nonblock generation, point = .looping (.write data written) nonblock generation

/-- The lock is held by one thread at most, and a writer that holds it has a session. -/
structure Locking (s : Threads.State Chardev Point) : Prop where
  locked : ∀ i, (s.pc i).Holds → s.shared.locked = true
  one : ∀ i j, (s.pc i).Holds → (s.pc j).Holds → i = j
  writing : ∀ i, (s.pc i).Writes → s.shared.state = .ready

section Sections

variable {s : Chardev} {point : Point} {input : Input}

theorem Point.Writes.holds (h : point.Writes) : point.Holds := by
  obtain ⟨data, written, nonblock, generation, rfl⟩ := h
  exact ⟨_, _, _, rfl⟩

/-- Where a round of a loop leaves a thread: with the lock, or not in its loop. -/
def Leaves (r : Chardev × List Note × Point) : Prop :=
  r.1.locked = true ∧ (r.2.2.Writes → r.1.state = .ready) ∨ ¬r.2.2.Holds

theorem not_holds_ready : ¬Point.ready.Holds := by
  rintro ⟨call, nonblock, generation, h⟩
  cases h

theorem not_holds_waiting {call : Call} {generation : UInt32} :
    ¬(Point.waiting call generation).Holds := by
  rintro ⟨call', nonblock, generation', h⟩
  cases h

section Rounds

variable {data got : List UInt8} {written buflen : Nat} {nonblock : Bool} {generation : UInt32}
  {ret : Int} {picks : Picks}

theorem leaves_writeChunk (hlocked : s.locked = true) (hready : s.state = .ready) :
    Leaves (s.writeChunk data written nonblock generation picks) :=
  .inl ⟨hlocked, fun _ => hready⟩

theorem leaves_writeWait (hlocked : s.locked = true) :
    Leaves (s.writeWait data written generation picks) := by
  unfold writeWait
  split
  · exact .inr not_holds_waiting
  · next ret hwait =>
    split
    · exact .inr not_holds_ready
    · next hret =>
      rcases waitWritable_some hwait with rfl | ⟨-, hready, -⟩
      · exact absurd (by decide) hret
      · exact leaves_writeChunk hlocked hready

theorem leaves_writeLoop (hlocked : s.locked = true) (hready : s.state = .ready) :
    Leaves (s.writeLoop data written nonblock generation picks) := by
  unfold writeLoop
  split
  · split
    · split
      · exact .inr not_holds_ready
      · exact leaves_writeWait hlocked
    · exact leaves_writeChunk hlocked hready
  · exact .inr not_holds_ready

theorem leaves_write : Leaves (s.write data nonblock) := by
  unfold write
  split
  · exact .inr not_holds_ready
  · next hgoing => exact .inl ⟨rfl, fun _ => not_not.mp (not_or.mp hgoing).1⟩

theorem leaves_readChunk (hlocked : s.locked = true) :
    Leaves (s.readChunk buflen got nonblock generation picks) := by
  refine .inl ⟨hlocked, ?_⟩
  rintro ⟨data, written, nonblock, generation, h⟩
  cases h

theorem leaves_readWait (hlocked : s.locked = true) :
    Leaves (s.readWait buflen got generation picks) := by
  unfold readWait
  split
  · exact .inr not_holds_waiting
  · split
    · exact .inr not_holds_ready
    · exact leaves_readChunk hlocked

theorem leaves_readLoop (hlocked : s.locked = true) :
    Leaves (s.readLoop buflen got nonblock generation picks) := by
  unfold readLoop
  split
  · split
    · split
      · exact .inr not_holds_ready
      · split
        · exact .inr not_holds_ready
        · exact leaves_readWait hlocked
    · exact leaves_readChunk hlocked
  · exact .inr not_holds_ready

theorem leaves_read : Leaves (s.read buflen nonblock) := by
  unfold Chardev.read
  split
  · exact .inr not_holds_ready
  · split
    · exact .inr not_holds_ready
    · refine .inl ⟨rfl, ?_⟩
      rintro ⟨data, written, nonblock, generation, h⟩
      cases h

theorem leaves_resume {call : Call} : Leaves (s.resume call generation ret picks) := by
  unfold resume
  split
  · exact .inr not_holds_ready
  · exact leaves_writeWait rfl
  · exact .inr not_holds_ready
  · exact leaves_readWait rfl

end Rounds

/-- A thread in its loop has the lock and, if it writes, a session. -/
theorem leaves_body (hlocked : point.Holds → s.locked = true)
    (hwriting : point.Writes → s.state = .ready) : Leaves (body s point input) := by
  revert hlocked hwriting
  fun_cases body s point input with
  | case10 => exact fun _ _ => leaves_write
  | case14 => exact fun _ _ => leaves_read
  | case15 call nonblock generation picks =>
    intro hlocked hwriting
    cases call with
    | write data written =>
      exact leaves_writeLoop (hlocked ⟨_, _, _, rfl⟩) (hwriting ⟨_, _, _, _, rfl⟩)
    | read buflen got => exact leaves_readLoop (hlocked ⟨_, _, _, rfl⟩)
  | case16 call generation picks sem ticket hwait =>
    refine fun _ _ => .inr ?_
    rintro ⟨call', nonblock, generation', h⟩
    cases ticket <;> cases h
  | case17 | case18 | case19 | case20 | case21 =>
    refine fun _ _ => .inr ?_
    rintro ⟨call', nonblock, generation', h⟩
    cases h
  | case22 => exact fun _ _ => leaves_resume
  | case23 =>
    intro hlocked hwriting
    by_cases hholds : point.Holds
    · exact .inl ⟨hlocked hholds, hwriting⟩
    · exact .inr hholds
  | _ => exact fun _ _ => .inr not_holds_ready

theorem body_of_locked (hlocked : s.locked = true) (hpoint : ¬point.Holds) :
    (body s point input).1.core = s.core ∧ (body s point input).1.locked = true ∧
      ¬(body s point input).2.2.Holds := by
  revert hpoint
  fun_cases body s point input with
  | case2 | case10 | case14 | case22 => contradiction
  | case4 fd picks hfree | case6 fd cmd picks hfree => exact absurd (.inl hlocked) hfree
  | case15 => exact fun hpoint => absurd ⟨_, _, _, rfl⟩ hpoint
  | case16 call generation picks sem ticket hwait =>
    refine fun _ => ⟨core_setSem .., ?_, ?_⟩
    · cases call <;> exact hlocked
    · rintro ⟨call', nonblock, generation', h⟩
      cases ticket <;> cases h
  | case19 call generation ticket ret h =>
    refine fun _ => ⟨core_setSem .., ?_, ?_⟩
    · cases call <;> exact hlocked
    · rintro ⟨call', nonblock, generation', h⟩
      cases h
  | case17 | case18 | case20 | case21 =>
    refine fun _ => ⟨rfl, hlocked, ?_⟩
    rintro ⟨call', nonblock, generation', h⟩
    cases h
  | case23 => exact fun hpoint => ⟨rfl, hlocked, hpoint⟩
  | _ => exact fun _ => ⟨rfl, hlocked, not_holds_ready⟩

end Sections

/-! ### Whole steps -/

variable {s : Threads.State Chardev Point}

theorem locking_boot (size : Nat) : Locking (boot size) where
  locked _ h := absurd h not_holds_ready
  one _ _ h := absurd h not_holds_ready
  writing _ h := absurd h.holds not_holds_ready

/-- **Every step keeps to the lock.** -/
theorem locking_step (h : Locking s) (i : Nat) (input : Input) :
    Locking (threads.step s i input) := by
  have hself : Leaves (body s.shared (s.pc i) input) := leaves_body (h.locked i) (h.writing i)
  -- what holds when another thread has the lock
  have hother : ∀ {j}, j ≠ i → (s.pc j).Holds →
      (body s.shared (s.pc i) input).1.core = s.shared.core ∧
      (body s.shared (s.pc i) input).1.locked = true ∧
      ¬(body s.shared (s.pc i) input).2.2.Holds := by
    intro j hji hj
    exact body_of_locked (h.locked j hj) fun hi => hji (h.one j i hj hi)
  refine ⟨fun j hj => ?_, fun j k hj hk => ?_, fun j hj => ?_⟩
  · by_cases hji : j = i
    · subst hji
      rw [Threads.step_pc_self] at hj
      exact (hself.resolve_right fun hnot => hnot hj).1
    · rw [Threads.step_pc_of_ne hji] at hj
      exact (hother hji hj).2.1
  · by_cases hji : j = i <;> by_cases hki : k = i
    · exact hji.trans hki.symm
    · subst hji
      rw [Threads.step_pc_self] at hj
      rw [Threads.step_pc_of_ne hki] at hk
      exact absurd hj (hother hki hk).2.2
    · subst hki
      rw [Threads.step_pc_self] at hk
      rw [Threads.step_pc_of_ne hji] at hj
      exact absurd hk (hother hji hj).2.2
    · rw [Threads.step_pc_of_ne hji] at hj
      rw [Threads.step_pc_of_ne hki] at hk
      exact h.one j k hj hk
  · by_cases hji : j = i
    · subst hji
      rw [Threads.step_pc_self] at hj
      exact (hself.resolve_right fun hnot => hnot hj.holds).2 hj
    · rw [Threads.step_pc_of_ne hji] at hj
      have hstate := eq_of_core state (fun _ => rfl) (hother hji hj.holds).1
      exact hstate.trans (h.writing j hj)

end Brickwright.Btcap
