import Brickwright.Machine.History
import Brickwright.Ring.Compaction

/-!
# Reception on the HCI UART (`stm32_btuart.c`, `stm32_btuart_chardev.c`)

The DMA writes received bytes to a ring and counts down `NDTR`, from which the producer index is
taken. After each burst the UART raises an `IDLE` interrupt, whose handler tells the character
device that there is something to read, unless it has been told and has not yet emptied the ring
(`rxwork_pending`). The device posts a semaphore for `read` and notifies the waiters of `poll`.

One thread reads. An input takes it through a section of its code, receives a byte, or is the
interrupt; the interrupt does not come in the critical section of `btuart_read`, but bytes do.
-/

namespace Brickwright.Btuart

def rxringSize : Nat := 512

/-- A `read`: the flag of its file, the length of its buffer, and whether `board_user_out_ok` lets
the buffer pass. -/
structure ReadCall where
  nonblock : Bool
  buflen : Nat
  userOk : Bool := true
  deriving DecidableEq, Repr

/-- What `btuart_read` returns behind its critical section. -/
inductive Outcome where
  | nothing (call : ReadCall)
  | bytes (bytes : List UInt8)
  deriving DecidableEq, Repr

inductive Point where
  | idle
  /-- `btuart_read`, before it takes the producer index. -/
  | sampling (call : ReadCall)
  | copying (call : ReadCall) (available : Nat)
  /-- The bytes are copied, and `rx_consumer` is still before them. -/
  | copied (bytes : List UInt8)
  /-- Before the look at `rxwork_pending`. -/
  | checking (bytes : List UInt8)
  /-- Before the critical section. -/
  | rearming (outcome : Outcome)
  /-- In the critical section, with the ring found empty. -/
  | clearing (outcome : Outcome)
  /-- Before `nxsem_wait`, and in it. -/
  | waiting (call : ReadCall)
  | blocked (call : ReadCall)
  /-- `btuart_cdev_poll`, before the slot is taken and before the look at the ring. -/
  | pollSetup (pollout : Bool)
  | pollSampling (pollout : Bool)
  /-- `poll` waits. -/
  | polling
  | pollTeardown
  deriving DecidableEq, Repr

structure State where
  rxring : List UInt8 := List.replicate rxringSize 0
  /-- `NDTR`. -/
  residual : Nat := rxringSize
  /-- A byte has come, and the interrupt of its burst has not. -/
  idleDue : Bool := false
  /-- `rxcb` is `btuart_cdev_rxnotify`. -/
  attached : Bool := false
  rxenabled : Bool := false
  rxworkPending : Bool := false
  rxConsumer : Nat := 0
  rxsem : Int := 0
  /-- `fds` has the reader's `struct pollfd`. It is the only one. -/
  fds : Bool := false
  /-- `poll` has been notified. -/
  pollToken : Bool := false
  isOpen : Bool := false
  reader : Point := .idle
  deriving DecidableEq

inductive Call where
  | openDevice
  | closeDevice
  | read (call : ReadCall)
  /-- `poll` for `POLLIN`, and for `POLLOUT` too. -/
  | poll (pollout : Bool)
  deriving DecidableEq, Repr

inductive Note where
  | received (byte : UInt8)
  /-- `read` has returned these bytes. -/
  | read (bytes : List UInt8)
  deriving DecidableEq, Repr

namespace State

/-! ## The lower half -/

/-- `btuart_rx_producer`. -/
def rxProducer (s : State) : Nat :=
  if s.residual > rxringSize then s.rxConsumer else (rxringSize - s.residual) % rxringSize

/-- `stm32_btuart_rx_available`, also in `btuart_read`. -/
def rxAvailable (s : State) : Nat := Ring.between rxringSize s.rxProducer s.rxConsumer

def receive (s : State) (byte : UInt8) : State :=
  { s with
    rxring := s.rxring.set (rxringSize - s.residual) byte
    residual := if s.residual = 1 then rxringSize else s.residual - 1
    idleDue := true }

/-- `nxsem_post`: a thread that waits has got the count. -/
def post (s : State) : State :=
  { s with
    rxsem := s.rxsem + 1
    reader :=
      match s.reader with
      | .blocked call => .sampling call
      | pc => pc }

/-- `btuart_cdev_rxnotify`. -/
def rxnotify (s : State) : State :=
  let s := if s.rxsem ≤ 0 then s.post else s
  { s with pollToken := s.pollToken || s.fds }

/-- `btuart_notify_rx`. -/
def notifyRx (s : State) : State :=
  if ¬s.rxenabled ∨ ¬s.attached then s
  else if s.rxworkPending then s
  else if s.rxProducer = s.rxConsumer then s
  else rxnotify { s with rxworkPending := true }

def masked (s : State) : Bool :=
  match s.reader with
  | .clearing _ => true
  | _ => false

/-- `btuart_usart_isr`, for `IDLE`. -/
def usartIsr (s : State) : State :=
  if s.masked then s else notifyRx { s with idleDue := false }

/-! ## The reader -/

/-- `btuart_read` returns, in the loop of `btuart_cdev_read`. -/
def leave (s : State) : Outcome → State × List Note
  | .nothing call => ({ s with reader := if call.nonblock then .idle else .waiting call }, [])
  | .bytes bytes => ({ s with reader := .idle }, [.read bytes])

def go (s : State) : State × List Note :=
  match s.reader with
  | .sampling call =>
    if s.rxAvailable = 0 then ({ s with reader := .rearming (.nothing call) }, [])
    else ({ s with reader := .copying call s.rxAvailable }, [])
  | .copying call available =>
    let copy := if available < call.buflen then available else call.buflen
    ({ s with reader := .copied (Ring.copyOut s.rxring s.rxConsumer copy) }, [])
  | .copied bytes =>
    ({ s with
        rxConsumer := (s.rxConsumer + bytes.length) % rxringSize
        reader := .checking bytes }, [])
  | .checking bytes =>
    if s.rxworkPending then ({ s with reader := .rearming (.bytes bytes) }, [])
    else s.leave (.bytes bytes)
  | .rearming outcome =>
    if s.rxProducer = s.rxConsumer then ({ s with reader := .clearing outcome }, [])
    else s.leave outcome
  | .clearing outcome => leave { s with rxworkPending := false } outcome
  | .waiting call =>
    ({ s with
        rxsem := s.rxsem - 1
        reader := if s.rxsem - 1 < 0 then .blocked call else .sampling call }, [])
  | .pollSetup pollout =>
    ({ s with fds := true, pollToken := false, reader := .pollSampling pollout }, [])
  | .pollSampling pollout =>
    ({ s with
        pollToken := s.pollToken || decide (s.rxAvailable > 0) || pollout
        reader := .polling }, [])
  | .polling => ({ s with reader := if s.pollToken then .pollTeardown else .polling }, [])
  | .pollTeardown => ({ s with fds := false, reader := .idle }, [])
  | .idle | .blocked _ => (s, [])

/-- A wait ends without having been woken: a signal, or the timeout of `poll`. -/
def giveUp (s : State) : State :=
  match s.reader with
  | .blocked _ => { s with rxsem := s.rxsem + 1, reader := .idle }
  | .polling => { s with reader := .pollTeardown }
  | _ => s

def call (s : State) : Call → State
  | .openDevice =>
    if s.isOpen then s else { s with attached := true, rxenabled := true, isOpen := true }
  | .closeDevice =>
    if s.isOpen then
      { s with rxenabled := false, attached := false, rxworkPending := false, isOpen := false }
    else s
  | .read call =>
    if ¬s.isOpen ∨ call.buflen = 0 ∨ ¬call.userOk then s else { s with reader := .sampling call }
  | .poll pollout => if s.isOpen then { s with reader := .pollSetup pollout } else s

end State

inductive Input where
  | byte (byte : UInt8)
  /-- The `IDLE` interrupt. -/
  | idle
  | call (call : Call)
  | go
  | giveUp
  deriving DecidableEq

def body (s : State) : Input → State × List Note
  | .byte byte => (s.receive byte, [.received byte])
  | .idle => (s.usartIsr, [])
  | .call call => (if s.reader = .idle then s.call call else s, [])
  | .go => s.go
  | .giveUp => (s.giveUp, [])

def machine : Machine State Input (List Note) := ⟨body⟩

/-- `stm32_btuart_instantiate` and `stm32_btuart_chardev_register`. -/
def boot : State := {}

/-!
## Nothing is lost, and nobody sleeps over it

What has been received is what has been returned, what a read has taken, and what is in the ring, in
this order. The latch `rxwork_pending` is set only while there is something in the ring or a read is
about to look at it; so a reader that finds the ring empty finds the latch cleared, and from then on
either the semaphore has a count for it, or the next interrupt will post one. The same holds of
`poll`, from the moment it has its slot.
-/

open State
open List

/-! ### What is asked for -/

def Note.receivedBytes : Note → List UInt8
  | .received byte => [byte]
  | .read _ => []

def Note.readBytes : Note → List UInt8
  | .received _ => []
  | .read bytes => bytes

def received (h : List Note) : List UInt8 := h.flatMap Note.receivedBytes

/-- The bytes that the calls of `read` have returned. -/
def returned (h : List Note) : List UInt8 := h.flatMap Note.readBytes

def State.unread (s : State) : List UInt8 := Ring.contents 0 s.rxring s.rxConsumer s.rxAvailable

/-- The reader waits, has no token and is not going to get one, and there are bytes for it. -/
def Stuck (s : State) : Prop :=
  s.unread ≠ [] ∧ s.idleDue = false ∧
    match s.reader with
    | .blocked _ => s.rxsem ≤ 0
    | .polling => s.pollToken = false
    | _ => False

structure Reception (h : List Note) (s : State) : Prop where
  stream : returned h <+: received h
  rest : s.reader = .idle → received h = returned h ++ s.unread
  awake : ¬Stuck s

/-- Fewer than 512 bytes are unread, also behind a byte that is received. -/
def Room (s : State) : Input → Prop
  | .byte _ => s.rxAvailable + 1 < rxringSize
  | _ => True

instance (s : State) (input : Input) : Decidable (Room s input) := by
  cases input <;> unfold Room <;> infer_instance

/-! ### The ring -/

/-- What a read has taken out of the ring, and not returned yet. -/
def Outcome.taken : Outcome → List UInt8
  | .nothing _ => []
  | .bytes bs => bs

def Point.taken : Point → List UInt8
  | .checking bytes => bytes
  | .rearming outcome | .clearing outcome => outcome.taken
  | _ => []

/-- What a read has seen of the ring is still there. -/
def Point.Sees (us : List UInt8) : Point → Prop
  | .copying _ available => available ≤ us.length
  | .copied bytes => bytes <+: us
  | _ => True

/-- The bytes `us` are in the ring, behind what has been returned and taken. -/
structure Stored (h : List Note) (s : State) (us : List UInt8) : Prop where
  length : s.rxring.length = rxringSize
  residual : 1 ≤ s.residual ∧ s.residual ≤ rxringSize
  holds : Ring.Holds 0 s.rxring s.rxProducer s.rxConsumer us.length us
  room : us.length < rxringSize
  stream : received h = returned h ++ s.reader.taken ++ us
  sees : s.reader.Sees us

section Ring

variable {h : List Note} {s : State} {us : List UInt8}

theorem rxProducer_eq (hres : s.residual ≤ rxringSize) :
    s.rxProducer = (rxringSize - s.residual) % rxringSize :=
  if_neg (Nat.not_lt.mpr hres)

theorem post_reader (s : State) : s.post.reader = s.reader ∨
    ∃ call, s.reader = .blocked call ∧ s.post.reader = .sampling call := by
  unfold State.post
  split
  · next call hblocked => exact .inr ⟨call, hblocked, rfl⟩
  · exact .inl rfl

namespace Stored

theorem rxAvailable_eq (hs : Stored h s us) : s.rxAvailable = us.length := by
  rw [rxAvailable, ← hs.length]
  exact hs.holds.between_eq (hs.length ▸ hs.room)

theorem unread_eq (hs : Stored h s us) : s.unread = us := by
  rw [unread, hs.rxAvailable_eq]
  exact hs.holds.contents_eq

theorem producer_eq_iff (hs : Stored h s us) : s.rxProducer = s.rxConsumer ↔ us = [] := by
  rw [eq_comm]
  exact hs.holds.head_eq_tail_iff (hs.length ▸ hs.room)

theorem of_ring {s' : State} (hs : Stored h s us) (hring : s'.rxring = s.rxring)
    (hres : s'.residual = s.residual) (hconsumer : s'.rxConsumer = s.rxConsumer)
    (htaken : s'.reader.taken = s.reader.taken) (hsees : s'.reader.Sees us) : Stored h s' us := by
  have hproducer : s'.rxProducer = s.rxProducer := by
    rw [rxProducer, rxProducer, hres, hconsumer]
  refine ⟨hring ▸ hs.length, hres ▸ hs.residual, ?_, hs.room, htaken ▸ hs.stream, hsees⟩
  rw [hring, hproducer, hconsumer]
  exact hs.holds

/-- **A byte is received.** -/
theorem receive (hs : Stored h s us) (byte : UInt8) (hroom : us.length + 1 < rxringSize) :
    Stored (h ++ [.received byte]) (s.receive byte) (us ++ [byte]) := by
  obtain ⟨hlow, hhigh⟩ := hs.residual
  have hhead : s.rxProducer = rxringSize - s.residual := by
    rw [rxProducer_eq hhigh]
    exact Nat.mod_eq_of_lt (by omega)
  have hnext : (s.receive byte).residual =
      if s.residual = 1 then rxringSize else s.residual - 1 := rfl
  have hres : 1 ≤ (s.receive byte).residual ∧ (s.receive byte).residual ≤ rxringSize := by
    rw [hnext]
    split <;> omega
  have hproducer : (s.receive byte).rxProducer = (s.rxProducer + 1) % rxringSize := by
    rw [rxProducer_eq hres.2, hhead, hnext]
    split
    · next h1 => rw [h1]; decide
    · next h1 => congr 1; omega
  have hpush := hs.holds.push (x := byte) (hs.length ▸ hs.room)
  refine ⟨?_, hres, ?_, ?_, ?_, ?_⟩
  · show (s.rxring.set _ byte).length = _
    rw [length_set]
    exact hs.length
  · rw [hproducer, length_append, length_singleton]
    rw [hs.length, hhead] at hpush
    rw [hhead]
    exact hpush
  · rw [length_append]
    exact hroom
  · have hstream := hs.stream
    show received (_ ++ _) = returned (_ ++ _) ++ s.reader.taken ++ (us ++ [byte])
    rw [received, returned, flatMap_append, flatMap_append] at *
    rw [hstream]
    simp [Note.receivedBytes, Note.readBytes]
  · show s.reader.Sees (us ++ [byte])
    have hsees := hs.sees
    cases hreader : s.reader with
    | copying call available =>
      rw [hreader] at hsees
      show available ≤ (us ++ [byte]).length
      rw [length_append]
      exact Nat.le_add_right_of_le hsees
    | copied bytes =>
      rw [hreader] at hsees
      exact hsees.trans (prefix_append ..)
    | _ => trivial

theorem leave (hs : Stored h s us) {outcome : Outcome} (htaken : s.reader.taken = outcome.taken) :
    Stored (h ++ (s.leave outcome).2) (s.leave outcome).1 us := by
  cases outcome with
  | nothing call =>
    rw [State.leave, append_nil]
    refine hs.of_ring rfl rfl rfl (htaken ▸ ?_) ?_ <;> split <;>
      first | rfl | trivial
  | bytes bytes =>
    obtain ⟨hlength, hres, hholds, hroom, hstream, -⟩ := hs
    refine ⟨hlength, hres, hholds, hroom, ?_, trivial⟩
    show received (h ++ [.read bytes]) = returned (h ++ [.read bytes]) ++ [] ++ us
    rw [htaken] at hstream
    rw [received, returned, flatMap_append, flatMap_append] at *
    rw [hstream]
    simp [Note.receivedBytes, Note.readBytes, Outcome.taken]

/-- **A section of the reader.** Where it steps the consumer index, it takes the bytes it has
copied. -/
theorem go (hs : Stored h s us) : ∃ us', Stored (h ++ s.go.2) s.go.1 us' ∧
    ((∀ bytes, s.reader ≠ .copied bytes) → us' = us) := by
  unfold State.go
  split
  · next call hreader =>
    split
    · refine ⟨us, ?_, fun _ => rfl⟩
      rw [append_nil]
      exact hs.of_ring rfl rfl rfl (hreader ▸ rfl) trivial
    · refine ⟨us, ?_, fun _ => rfl⟩
      rw [append_nil]
      exact hs.of_ring rfl rfl rfl (hreader ▸ rfl) (Nat.le_of_eq hs.rxAvailable_eq)
  · next call available hreader =>
    refine ⟨us, ?_, fun _ => rfl⟩
    have hsees := hs.sees
    rw [hreader] at hsees
    have hle : (if available < call.buflen then available else call.buflen) ≤ us.length := by
      have hsees : available ≤ us.length := hsees
      split <;> omega
    -- what is copied out is a prefix of what is stored, and nothing is taken yet
    have hcopy := (hs.holds.drain hle (Nat.le_trans hle (hs.length ▸ Nat.le_of_lt hs.room))).1
    rw [append_nil]
    refine hs.of_ring rfl rfl rfl (hreader ▸ rfl) ?_
    show Ring.copyOut _ _ _ <+: us
    rw [hcopy]
    exact List.take_prefix ..
  · next bytes hreader =>
    have hsees := hs.sees
    have hstream := hs.stream
    rw [hreader] at hsees hstream
    obtain ⟨vs, rfl⟩ := hsees
    refine ⟨vs, ?_, fun hnot => absurd hreader (hnot bytes)⟩
    -- the consumer index passes the copied bytes: they leave the ring for the reader
    have hlen : bytes.length ≤ (bytes ++ vs).length := by simp
    have hroom := hs.room
    have hdrain := (hs.holds.drain hlen (Nat.le_trans hlen (hs.length ▸ Nat.le_of_lt hroom))).2
    rw [drop_left, length_append, Nat.add_sub_cancel_left] at hdrain
    rw [append_nil]
    refine ⟨hs.length, hs.residual, ?_, ?_, ?_, trivial⟩
    · have hproducer : State.rxProducer { s with
          rxConsumer := (s.rxConsumer + bytes.length) % rxringSize, reader := .checking bytes } =
          s.rxProducer := by
        rw [rxProducer_eq (s := s) hs.residual.2]
        exact rxProducer_eq hs.residual.2
      rw [hproducer]
      rw [hs.length] at hdrain
      exact hdrain
    · rw [length_append] at hroom
      omega
    · rw [hstream]
      simp [Point.taken]
  · next bytes hreader =>
    refine ⟨us, ?_, fun _ => rfl⟩
    split
    · rw [append_nil]
      exact hs.of_ring rfl rfl rfl (hreader ▸ rfl) trivial
    · exact hs.leave (hreader ▸ rfl)
  · next outcome hreader =>
    refine ⟨us, ?_, fun _ => rfl⟩
    split
    · rw [append_nil]
      exact hs.of_ring rfl rfl rfl (hreader ▸ rfl) trivial
    · exact hs.leave (hreader ▸ rfl)
  · next outcome hreader =>
    refine ⟨us, ?_, fun _ => rfl⟩
    -- the pending work is of no account for the ring
    have hcleared : Stored h { s with rxworkPending := false } us :=
      hs.of_ring rfl rfl rfl rfl hs.sees
    exact hcleared.leave (hreader ▸ rfl)
  · next call hreader =>
    refine ⟨us, ?_, fun _ => rfl⟩
    rw [append_nil]
    refine hs.of_ring rfl rfl rfl (hreader ▸ ?_) ?_ <;> split <;>
      first | rfl | trivial
  · next hreader =>
    refine ⟨us, ?_, fun _ => rfl⟩
    rw [append_nil]
    exact hs.of_ring rfl rfl rfl (hreader ▸ rfl) trivial
  · next hreader =>
    refine ⟨us, ?_, fun _ => rfl⟩
    rw [append_nil]
    exact hs.of_ring rfl rfl rfl (hreader ▸ rfl) trivial
  · next hreader =>
    refine ⟨us, ?_, fun _ => rfl⟩
    rw [append_nil]
    refine hs.of_ring rfl rfl rfl (Eq.trans ?_ (congrArg Point.taken hreader).symm) ?_ <;>
      split <;> first | rfl | trivial
  · next hreader =>
    refine ⟨us, ?_, fun _ => rfl⟩
    rw [append_nil]
    exact hs.of_ring rfl rfl rfl (hreader ▸ rfl) trivial
  · refine ⟨us, ?_, fun _ => rfl⟩
    rw [append_nil]
    exact hs
  · refine ⟨us, ?_, fun _ => rfl⟩
    rw [append_nil]
    exact hs

/-- The interrupt leaves the ring, and moves the reader on only if it waits. -/
theorem usartIsr (hs : Stored h s us) : Stored h s.usartIsr us := by
  have hpost : ∀ {s' : State}, Stored h s' us → Stored h s'.post us := by
    intro s' hs'
    rcases post_reader s' with hsame | ⟨call, hblocked, hwoken⟩
    · exact hs'.of_ring rfl rfl rfl (congrArg Point.taken hsame) (hsame ▸ hs'.sees)
    · refine hs'.of_ring rfl rfl rfl ?_ (hwoken ▸ trivial)
      rw [hwoken, hblocked]
      rfl
  unfold State.usartIsr
  split
  · exact hs
  · have hseen : Stored h { s with idleDue := false } us := hs.of_ring rfl rfl rfl rfl hs.sees
    unfold notifyRx
    split
    · exact hseen
    · split
      · exact hseen
      · split
        · exact hseen
        · have hlatched : Stored h { s with idleDue := false, rxworkPending := true } us :=
            hs.of_ring rfl rfl rfl rfl hs.sees
          unfold rxnotify
          split
          · have := hpost hlatched
            exact this.of_ring rfl rfl rfl rfl this.sees
          · exact hlatched.of_ring rfl rfl rfl rfl hlatched.sees

end Stored

end Ring

/-! ### Who wakes the reader -/

/-- The latch is clear, and bytes in the ring have their interrupt to come. -/
def Quiet (s : State) (us : List UInt8) : Prop :=
  s.rxworkPending = false ∧ (us ≠ [] → s.idleDue = true)

/-- A read that has been through, and whose critical section is still to come. -/
def Point.Drains : Point → Prop
  | .checking _ | .rearming (.bytes _) | .clearing (.bytes _) => True
  | _ => False

/-- A reader that has found the ring empty has a token, or will get one. -/
def Wakes (s : State) (us : List UInt8) : Prop :=
  match s.reader with
  | .rearming (.nothing _) | .clearing (.nothing _) | .waiting _ => 0 < s.rxsem ∨ Quiet s us
  | .blocked _ => s.rxsem = -1 ∧ Quiet s us
  | .pollSampling _ => s.fds = true
  | .polling => s.fds = true ∧ (s.pollToken = true ∨ Quiet s us)
  | _ => True

structure Awake (s : State) (us : List UInt8) : Prop where
  latch : s.rxworkPending = true → us ≠ [] ∨ s.reader.Drains
  wakes : Wakes s us
  sem : (∀ call, s.reader ≠ .blocked call) → 0 ≤ s.rxsem
  enabled : s.isOpen = true → s.attached = true ∧ s.rxenabled = true
  isOpen : s.reader ≠ .idle → s.isOpen = true

section Wakeups

variable {h : List Note} {s s' : State} {us us' : List UInt8}

theorem Wakes.mono (hwakes : Wakes s us) (hreader : s'.reader = s.reader)
    (hsem : s'.rxsem = s.rxsem) (hfds : s'.fds = s.fds) (htoken : s'.pollToken = s.pollToken)
    (hquiet : Quiet s us → Quiet s' us') : Wakes s' us' := by
  unfold Wakes at *
  rw [hreader, hsem, hfds, htoken]
  cases hr : s.reader <;> rw [hr] at hwakes
  case rearming outcome => cases outcome <;> first | exact hwakes.imp_right hquiet | trivial
  case clearing outcome => cases outcome <;> first | exact hwakes.imp_right hquiet | trivial
  case waiting => exact hwakes.imp_right hquiet
  case blocked => exact hwakes.imp_right hquiet
  case pollSampling => exact hwakes
  case polling => exact hwakes.imp_right fun hw => hw.imp_right hquiet
  all_goals trivial

theorem post_of_ready (hreader : ∀ call, s.reader ≠ .blocked call) :
    s.post = { s with rxsem := s.rxsem + 1 } := by
  unfold State.post
  split
  · next call hblocked => exact absurd hblocked (hreader call)
  · rfl

theorem rxnotify_of_ready (hreader : ∀ call, s.reader ≠ .blocked call) (hsem : 0 ≤ s.rxsem) :
    s.rxnotify = { s with rxsem := max s.rxsem 1, pollToken := s.pollToken || s.fds } := by
  unfold State.rxnotify
  split
  · next hle =>
    have hmax : max s.rxsem 1 = s.rxsem + 1 := by omega
    rw [post_of_ready hreader, hmax]
  · next hgt =>
    have hmax : max s.rxsem 1 = s.rxsem := by omega
    rw [hmax]

theorem rxnotify_of_blocked {call : ReadCall} (hreader : s.reader = .blocked call)
    (hsem : s.rxsem = -1) :
    s.rxnotify =
      { s with rxsem := 0, reader := .sampling call, pollToken := s.pollToken || s.fds } := by
  unfold State.rxnotify State.post
  rw [hreader, hsem]
  rfl

namespace Awake

theorem receive (ha : Awake s us) (byte : UInt8) : Awake (s.receive byte) (us ++ [byte]) where
  latch := fun _ => .inl (by simp)
  wakes := ha.wakes.mono rfl rfl rfl rfl fun hq => ⟨hq.1, fun _ => rfl⟩
  sem := ha.sem
  enabled := ha.enabled
  isOpen := ha.isOpen

theorem rxnotify (ha : Awake s us) (hne : us ≠ []) :
    Awake (State.rxnotify { s with idleDue := false, rxworkPending := true }) us := by
  have hwakes := ha.wakes
  by_cases hblocked : ∃ call, s.reader = .blocked call
  · obtain ⟨call, hreader⟩ := hblocked
    unfold Wakes at hwakes
    rw [hreader] at hwakes
    have hopen := ha.isOpen (hreader ▸ nofun)
    rw [rxnotify_of_blocked (s := { s with idleDue := false, rxworkPending := true }) hreader
      hwakes.1]
    exact ⟨fun _ => .inl hne, trivial, fun _ => Int.le_refl 0, ha.enabled, fun _ => hopen⟩
  · have hready : ∀ call, s.reader ≠ .blocked call := fun call hc => hblocked ⟨call, hc⟩
    have hpos : 0 < max s.rxsem 1 := by omega
    rw [rxnotify_of_ready (s := { s with idleDue := false, rxworkPending := true }) hready
      (ha.sem hready)]
    refine ⟨fun _ => .inl hne, ?_, fun _ => Int.le_of_lt hpos, ha.enabled, ha.isOpen⟩
    unfold Wakes at *
    cases hr : s.reader <;> rw [hr] at hwakes
    case rearming outcome => cases outcome <;> first | exact .inl hpos | trivial
    case clearing outcome => cases outcome <;> first | exact .inl hpos | trivial
    case waiting => exact .inl hpos
    case blocked call => exact absurd hr (hready call)
    case pollSampling => exact hwakes
    case polling => exact ⟨hwakes.1, .inl (by rw [hwakes.1, Bool.or_true])⟩
    all_goals trivial

/-- **The interrupt** wakes a reader that waits for the bytes in the ring. -/
theorem usartIsr (ha : Awake s us) (hs : Stored h s us) : Awake s.usartIsr us := by
  -- nothing but the interrupt is gone
  have hseen : (Quiet s us → us = []) → Awake { s with idleDue := false } us := fun hquiet =>
    { ha with wakes := ha.wakes.mono rfl rfl rfl rfl fun hq =>
        ⟨hq.1, fun hne => absurd (hquiet hq) hne⟩ }
  unfold State.usartIsr
  split
  · exact ha
  · unfold notifyRx
    split
    · next hoff =>
      have hidle : s.reader = .idle := by
        by_contra hne
        have henabled := ha.enabled (ha.isOpen hne)
        exact hoff.elim (fun hno => hno henabled.2) fun hno => hno henabled.1
      refine { ha with wakes := ?_ }
      rw [hidle]
      trivial
    · split
      · next hpending => exact hseen fun hq => absurd (hq.1.symm.trans hpending) Bool.false_ne_true
      · split
        · next hempty => exact hseen fun _ => hs.producer_eq_iff.mp hempty
        · next hnonempty => exact ha.rxnotify fun h0 => hnonempty (hs.producer_eq_iff.mpr h0)

theorem leave (ha : Awake s us) {outcome : Outcome} (hopen : s.isOpen = true)
    (hlatch : s.rxworkPending = true → us ≠ []) (hsem : 0 ≤ s.rxsem)
    (hwakes : ∀ call, outcome = .nothing call → 0 < s.rxsem ∨ Quiet s us) :
    Awake (s.leave outcome).1 us := by
  cases outcome with
  | nothing call =>
    refine ⟨fun hp => .inl (hlatch hp), ?_, fun _ => hsem, ha.enabled, fun _ => hopen⟩
    unfold Wakes State.leave
    dsimp only
    cases call.nonblock
    · exact hwakes call rfl
    · trivial
  | bytes bs =>
    exact ⟨fun hp => .inl (hlatch hp), trivial, fun _ => hsem, ha.enabled, fun _ => hopen⟩

/-- **A section of the reader.** -/
theorem go (ha : Awake s us) (hs : Stored h s us)
    (hsame : (∀ bytes, s.reader ≠ .copied bytes) → us' = us) : Awake s.go.1 us' := by
  obtain ⟨hlatch, hwakes, hsem, henabled, hopen⟩ := ha
  unfold Wakes at hwakes
  by_cases hcopied : ∃ bytes, s.reader = .copied bytes
  · obtain ⟨bytes, hreader⟩ := hcopied
    rw [hreader] at hsem hopen
    unfold State.go
    rw [hreader]
    exact ⟨fun _ => .inr trivial, trivial, fun _ => hsem nofun, henabled, fun _ => hopen nofun⟩
  obtain rfl := hsame fun bytes hr => hcopied ⟨bytes, hr⟩
  unfold State.go
  split
  · next call hreader =>
    rw [hreader] at hlatch hsem hopen
    have hlatch : s.rxworkPending = true → us' ≠ [] := fun hp => (hlatch hp).resolve_right id
    split
    · next hempty =>
      -- the ring is empty, so the latch is clear
      rw [hs.rxAvailable_eq, length_eq_zero_iff] at hempty
      have hclear : s.rxworkPending = false := Bool.eq_false_iff.mpr fun hp => hlatch hp hempty
      exact ⟨fun hp => .inl (hlatch hp), .inr ⟨hclear, fun hne => absurd hempty hne⟩,
        fun _ => hsem nofun, henabled, fun _ => hopen nofun⟩
    · exact ⟨fun hp => .inl (hlatch hp), trivial, fun _ => hsem nofun, henabled,
        fun _ => hopen nofun⟩
  · next call available hreader =>
    rw [hreader] at hlatch hsem hopen
    exact ⟨fun hp => .inl ((hlatch hp).resolve_right id), trivial, fun _ => hsem nofun, henabled,
      fun _ => hopen nofun⟩
  · next bytes hreader => exact absurd ⟨bytes, hreader⟩ hcopied
  · next bytes hreader =>
    rw [hreader] at hsem hopen
    split
    · exact ⟨fun _ => .inr trivial, trivial, fun _ => hsem nofun, henabled, fun _ => hopen nofun⟩
    · next hclear =>
      exact ⟨fun hp => absurd hp hclear, trivial, fun _ => hsem nofun, henabled,
        fun _ => hopen nofun⟩
  · next outcome hreader =>
    split
    · rw [hreader] at hlatch hwakes hsem hopen
      refine ⟨fun hp => (hlatch hp).imp_right fun hd => ?_, ?_, fun _ => hsem nofun, henabled,
        fun _ => hopen nofun⟩
      · cases outcome <;> exact hd
      · cases outcome <;> exact hwakes
    · next hnonempty =>
      have hne : us' ≠ [] := fun h0 => hnonempty (hs.producer_eq_iff.mpr h0)
      have hkept : Awake s us' := ⟨hlatch, hwakes, hsem, henabled, hopen⟩
      rw [hreader] at hwakes hsem hopen
      refine hkept.leave (hopen nofun) (fun _ => hne) (hsem nofun) ?_
      rintro call rfl
      exact hwakes
  · next outcome hreader =>
    rw [hreader] at hwakes hsem hopen
    have hwakes' : ∀ call, outcome = .nothing call →
        0 < s.rxsem ∨ Quiet { s with rxworkPending := false } us' := by
      rintro call rfl
      exact hwakes.imp_right fun hq => ⟨rfl, hq.2⟩
    have hkept : Awake { s with rxworkPending := false } us' := by
      refine ⟨nofun, ?_, fun _ => hsem nofun, henabled, fun _ => hopen nofun⟩
      rw [hreader]
      cases outcome with
      | nothing call => exact hwakes' call rfl
      | bytes => trivial
    exact hkept.leave (hopen nofun) nofun (hsem nofun) hwakes'
  · next call hreader =>
    rw [hreader] at hlatch hwakes hsem hopen
    have hnonneg := hsem nofun
    have hlatch : s.rxworkPending = true → us' ≠ [] := fun hp => (hlatch hp).resolve_right id
    by_cases hneg : s.rxsem - 1 < 0
    · rw [if_pos hneg]
      have hquiet := hwakes.resolve_left (by omega)
      exact ⟨fun hp => .inl (hlatch hp), ⟨by show s.rxsem - 1 = -1; omega, hquiet⟩,
        fun hnot => absurd rfl (hnot call), henabled, fun _ => hopen nofun⟩
    · rw [if_neg hneg]
      exact ⟨fun hp => .inl (hlatch hp), trivial, fun _ => Int.not_lt.mp hneg, henabled,
        fun _ => hopen nofun⟩
  · next pollout hreader =>
    rw [hreader] at hlatch hsem hopen
    exact ⟨fun hp => .inl ((hlatch hp).resolve_right id), rfl, fun _ => hsem nofun, henabled,
      fun _ => hopen nofun⟩
  · next pollout hreader =>
    rw [hreader] at hlatch hwakes hsem hopen
    have hlatch : s.rxworkPending = true → us' ≠ [] := fun hp => (hlatch hp).resolve_right id
    refine ⟨fun hp => .inl (hlatch hp), ⟨hwakes, ?_⟩, fun _ => hsem nofun, henabled,
      fun _ => hopen nofun⟩
    by_cases hempty : us' = []
    · have hclear : s.rxworkPending = false := Bool.eq_false_iff.mpr fun hp => hlatch hp hempty
      exact .inr ⟨hclear, fun hne => absurd hempty hne⟩
    · have hpos : s.rxAvailable > 0 := by
        rw [hs.rxAvailable_eq]
        exact length_pos_iff.mpr hempty
      left
      show (s.pollToken || decide (s.rxAvailable > 0) || pollout) = true
      rw [decide_eq_true hpos, Bool.or_true, Bool.true_or]
  · next hreader =>
    rw [hreader] at hlatch hwakes hsem hopen
    have hlatch : s.rxworkPending = true → us' ≠ [] := fun hp => (hlatch hp).resolve_right id
    cases htoken : s.pollToken
    · rw [htoken] at hwakes
      exact ⟨fun hp => .inl (hlatch hp), hwakes, fun _ => hsem nofun, henabled,
        fun _ => hopen nofun⟩
    · exact ⟨fun hp => .inl (hlatch hp), trivial, fun _ => hsem nofun, henabled,
        fun _ => hopen nofun⟩
  · next hreader =>
    rw [hreader] at hlatch hsem
    exact ⟨fun hp => .inl ((hlatch hp).resolve_right id), trivial, fun _ => hsem nofun, henabled,
      fun hne => absurd rfl hne⟩
  · exact ⟨hlatch, hwakes, hsem, henabled, hopen⟩
  · exact ⟨hlatch, hwakes, hsem, henabled, hopen⟩

theorem giveUp (ha : Awake s us) : Awake s.giveUp us := by
  obtain ⟨hlatch, hwakes, hsem, henabled, hopen⟩ := ha
  unfold Wakes at hwakes
  unfold State.giveUp
  split
  · next call hreader =>
    rw [hreader] at hlatch hwakes hopen
    have hzero : s.rxsem + 1 = 0 := by rw [hwakes.1]; rfl
    exact ⟨fun hp => .inl ((hlatch hp).resolve_right id), trivial, fun _ => Int.le_of_eq hzero.symm,
      henabled, fun _ => hopen nofun⟩
  · next hreader =>
    rw [hreader] at hlatch hsem hopen
    exact ⟨fun hp => .inl ((hlatch hp).resolve_right id), trivial, fun _ => hsem nofun, henabled,
      fun _ => hopen nofun⟩
  · exact ⟨hlatch, hwakes, hsem, henabled, hopen⟩

theorem call (ha : Awake s us) (hidle : s.reader = .idle) (c : Call) : Awake (s.call c) us := by
  obtain ⟨hlatch, -, hsem, henabled, hopen⟩ := ha
  rw [hidle] at hlatch hsem
  have hlatch : s.rxworkPending = true → us ≠ [] := fun hp => (hlatch hp).resolve_right id
  have hsame : Awake s us := by
    refine ⟨fun hp => .inl (hlatch hp), ?_, fun _ => hsem nofun, henabled, hopen⟩
    unfold Wakes
    rw [hidle]
    trivial
  unfold State.call
  split
  · split
    · exact hsame
    · refine ⟨hsame.latch, ?_, hsame.sem, fun _ => ⟨rfl, rfl⟩, fun _ => rfl⟩
      exact hsame.wakes.mono rfl rfl rfl rfl id
  · split
    · refine ⟨nofun, hsame.wakes.mono rfl rfl rfl rfl fun hq => ⟨rfl, hq.2⟩, hsame.sem, nofun,
        fun hne => absurd hidle hne⟩
    · exact hsame
  · split
    · exact hsame
    · next hgo =>
      have hopen : s.isOpen = true := by
        by_contra hnot
        exact hgo (.inl hnot)
      exact ⟨fun hp => .inl (hlatch hp), trivial, fun _ => hsem nofun, henabled, fun _ => hopen⟩
  · split
    · next hopen =>
      exact ⟨fun hp => .inl (hlatch hp), trivial, fun _ => hsem nofun, henabled, fun _ => hopen⟩
    · exact hsame

theorem not_stuck (ha : Awake s us) (hs : Stored h s us) : ¬Stuck s := by
  rintro ⟨hne, hdue, hwaits⟩
  rw [hs.unread_eq] at hne
  have hnot : ¬Quiet s us := fun hq => absurd ((hq.2 hne).symm.trans hdue) nofun
  have hwakes := ha.wakes
  unfold Wakes at hwakes
  split at hwaits
  · next call hreader =>
    rw [hreader] at hwakes
    exact hnot hwakes.2
  · next hreader =>
    rw [hreader] at hwakes
    exact hnot (hwakes.2.resolve_left fun ht => absurd (ht.symm.trans hwaits) nofun)
  · exact hwaits

end Awake

end Wakeups

/-! ### Whole runs -/

/-- What is in the ring, and who wakes the reader for it. -/
def Kept (h : List Note) (s : State) : Prop := ∃ us, Stored h s us ∧ Awake s us

theorem kept_boot : Kept [] boot := by
  have hlength : boot.rxring.length = rxringSize := length_replicate
  refine ⟨[], ⟨hlength, by decide, ?_, by decide, rfl, trivial⟩, ?_⟩
  · exact Ring.Holds.empty (hlength ▸ by decide)
  · exact ⟨nofun, trivial, fun _ => Int.le_refl 0, nofun, fun hne => absurd rfl hne⟩

theorem Stored.giveUp {h : List Note} {s : State} {us : List UInt8} (hs : Stored h s us) :
    Stored h s.giveUp us := by
  unfold State.giveUp
  split
  · next hreader => exact hs.of_ring rfl rfl rfl (congrArg Point.taken hreader).symm trivial
  · next hreader => exact hs.of_ring rfl rfl rfl (congrArg Point.taken hreader).symm trivial
  · exact hs

theorem Stored.call {h : List Note} {s : State} {us : List UInt8} (hs : Stored h s us)
    (hidle : s.reader = .idle) (c : Call) : Stored h (s.call c) us := by
  unfold State.call
  split <;> split <;> first
    | exact hs
    | exact hs.of_ring rfl rfl rfl rfl hs.sees
    | exact hs.of_ring rfl rfl rfl (congrArg Point.taken hidle).symm trivial

/-- **One section**, with room for a byte. -/
theorem Kept.step {h : List Note} {s : State} (hk : Kept h s) (input : Input)
    (hroom : Room s input) :
    Kept (h ++ (machine.step s input).2) (machine.step s input).1 := by
  obtain ⟨us, hs, ha⟩ := hk
  show Kept (h ++ (body s input).2) (body s input).1
  cases input with
  | byte byte =>
    have hroom : s.rxAvailable + 1 < rxringSize := hroom
    rw [hs.rxAvailable_eq] at hroom
    exact ⟨us ++ [byte], hs.receive byte hroom, ha.receive byte⟩
  | idle =>
    rw [body, append_nil]
    exact ⟨us, hs.usartIsr, ha.usartIsr hs⟩
  | call c =>
    rw [body, append_nil]
    split
    · next hidle => exact ⟨us, hs.call hidle c, ha.call hidle c⟩
    · exact ⟨us, hs, ha⟩
  | go =>
    obtain ⟨us', hs', hsame⟩ := hs.go
    exact ⟨us', hs', ha.go hs hsame⟩
  | giveUp =>
    rw [body, append_nil]
    exact ⟨us, hs.giveUp, ha.giveUp⟩

/-- **Reception**, as long as fewer than 512 bytes are unread. -/
theorem reception {events : List Input} (hroom : machine.Throughout Room boot events) :
    Reception (machine.history boot events) (machine.run boot events) := by
  have hkept : Kept (machine.history boot events) (machine.run boot events) :=
    Machine.history_invariant_of (h := [])
      (fun _ _ input hk hr => hk.step input hr) kept_boot events hroom
  obtain ⟨us, hs, ha⟩ := hkept
  refine ⟨?_, fun hidle => ?_, ha.not_stuck hs⟩
  · refine ⟨(machine.run boot events).reader.taken ++ us, ?_⟩
    rw [← append_assoc]
    exact hs.stream.symm
  · have hstream := hs.stream
    rw [hidle, ← hs.unread_eq] at hstream
    rw [hstream]
    simp [Point.taken]

/-- A read that waits for two bytes, which come in one burst, and returns them. -/
theorem reception_sample :
    Reception (machine.history boot [.call .openDevice, .call (.read ⟨false, 8, true⟩), .go, .go,
        .go, .go, .byte 4, .byte 14, .idle, .go, .go, .go, .go, .go, .go])
      (machine.run boot [.call .openDevice, .call (.read ⟨false, 8, true⟩), .go, .go, .go,
        .go, .byte 4, .byte 14, .idle, .go, .go, .go, .go, .go, .go]) :=
  reception (by decide)

end Brickwright.Btuart
