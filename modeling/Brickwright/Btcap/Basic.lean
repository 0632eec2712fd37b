import Brickwright.Machine.Semaphore
import Brickwright.Machine.Threads
import Brickwright.Ring.Basic

/-!
# The capture channel

`stm32_btcap_chardev.c`: `/dev/btcap` links one writer and one reader through a small ring. Every
call works under the lock of the channel. A write that finds the ring full and a read that finds it
empty give the lock up, wait for a semaphore and look again; in the meantime the session may have
been aborted, finalised, reset or replaced by another one.

A call is made on an open descriptor, and goes on if that is closed while it waits. A thread keeps
the lock from one round of its loop to the next, so the other threads can only wait for a semaphore
then.
-/

namespace Brickwright.Btcap

def ENOENT : Int := 2
def EINTR : Int := 4
def EAGAIN : Int := 11
def EACCES : Int := 13
def EBUSY : Int := 16
def EINVAL : Int := 22
def ENOTTY : Int := 25
def ECANCELED : Int := 125

inductive SessionState where
  | idle
  | ready
  | aborted
  deriving DecidableEq

/-- `BTCAP_STATE_*`. -/
def SessionState.code : SessionState → Int
  | .idle => 0
  | .ready => 1
  | .aborted => 2

/-- `struct btcap_session_meta_s`. -/
structure SessionMeta where
  schemaMagic : UInt16 := 0
  reserved0 : UInt16 := 0
  totalBytes : UInt32 := 0
  name : Vector UInt8 32 := Vector.replicate 32 0
  deriving DecidableEq

/-- `struct btcap_chardev_s`. -/
structure Chardev where
  ring : List UInt8
  /-- Where the writer goes on. -/
  head : Nat := 0
  /-- Where the reader goes on. -/
  tail : Nat := 0
  writableSem : Semaphore := {}
  readableSem : Semaphore := {}
  state : SessionState := .idle
  writerDone : Bool := false
  writerOpen : Bool := false
  readerOpen : Bool := false
  sessionGeneration : UInt32 := 0
  sessionMeta : SessionMeta := {}
  /-- A thread is in the loop of its call, with the lock. -/
  locked : Bool := false

inductive Descriptor where
  | writer
  | reader
  deriving DecidableEq

def Chardev.isOpen (s : Chardev) : Descriptor → Bool
  | .writer => s.writerOpen
  | .reader => s.readerOpen

/-- A call that has begun, and how far it is. -/
inductive Call where
  | write (data : List UInt8) (written : Nat)
  | read (buflen : Nat) (got : List UInt8)
  deriving DecidableEq

inductive Point where
  | ready
  /-- In the loop of its call, with the lock. -/
  | looping (call : Call) (nonblock : Bool) (generation : UInt32)
  /-- Without the lock, in front of the semaphore. -/
  | waiting (call : Call) (generation : UInt32)
  | blocked (call : Call) (generation : UInt32) (ticket : Nat)
  /-- Back from the semaphore, in front of the lock. -/
  | woken (call : Call) (generation : UInt32) (ret : Int)
  deriving DecidableEq

inductive Ioctl where
  | registerSession (m : SessionMeta)
  | finalizeSession
  | abortSession
  | getSessionMeta
  | queryState
  | other

/-- Whom a post wakes, for the one semaphore and for the other. -/
abbrev Picks := Nat × Nat

inductive Input where
  | openFile (wantWrite wantRead : Bool)
  | closeFile (fd : Descriptor) (picks : Picks)
  | ioctl (fd : Descriptor) (cmd : Ioctl) (picks : Picks)
  | write (data : List UInt8) (nonblock : Bool)
  | read (buflen : Nat) (nonblock : Bool)
  /-- The thread goes on. -/
  | go (picks : Picks)
  /-- The wait for the semaphore ends without a token. -/
  | giveUp (ret : Int)

inductive Note where
  | registers
  | finalises (readerOpen : Bool)
  /-- Bytes go into the ring, and out of it into the buffer of a reader. -/
  | accepts (bytes : List UInt8)
  | delivers (bytes : List UInt8)
  /-- What the calls return. -/
  | wrote (data : List UInt8) (rc : Int)
  | got (buflen : Nat) (bytes : List UInt8) (rc : Int)
  | returns (rc : Int)
  | sessionMeta (m : SessionMeta)
  | stateIs (code : Int)
  deriving DecidableEq

namespace Chardev

variable (s : Chardev)

/-- `btcap_ring_used_locked`. -/
def ringUsed : Nat :=
  if s.head ≥ s.tail then s.head - s.tail else s.ring.length - s.tail + s.head

/-- `btcap_ring_free_locked`. -/
def ringFree : Nat := s.ring.length - 1 - s.ringUsed

/-- `nxsem_get_value` and `nxsem_post` on one of the semaphores. -/
def notify (sem : Semaphore) (pick : Nat) : Semaphore :=
  if sem.value ≤ 0 then sem.post pick else sem

/-- `btcap_notify_all_locked`. -/
def notifyAll (picks : Picks) : Chardev :=
  { s with
    writableSem := notify s.writableSem picks.1
    readableSem := notify s.readableSem picks.2 }

/-- `btcap_reset_locked`. -/
def reset : Chardev :=
  { s with state := .idle, writerDone := false, head := 0, tail := 0, sessionMeta := {} }

def lock : Chardev := { s with locked := true }

def unlock : Chardev := { s with locked := false }

/-! ## Opening and closing -/

/-- `btcap_open`. -/
def openFile (wantWrite wantRead : Bool) : Chardev × Int :=
  if wantWrite ∧ wantRead then (s, -EINVAL)
  else if wantWrite then
    if s.writerOpen then (s, -EBUSY) else ({ s with writerOpen := true }, 0)
  else
    if s.readerOpen then (s, -EBUSY) else ({ s with readerOpen := true }, 0)

/-- `btcap_close` of the writer, up to the check that both sides share. -/
def closeWriter : Chardev :=
  let s := { s with writerOpen := false }
  if s.state = .ready ∧ ¬s.writerDone then { s with state := .aborted }
  else if s.state = .ready ∧ s.writerDone ∧ ¬s.readerOpen then s.reset
  else s

/-- `btcap_close` of the reader, up to that check. -/
def closeReader : Chardev :=
  let s := { s with readerOpen := false }
  if s.state = .aborted ∧ ¬s.writerOpen then s.reset
  else if s.state = .ready ∧ s.writerDone then s.reset
  else if s.state = .ready ∧ ¬s.writerOpen then s.reset
  else if s.state = .ready then { s with state := .aborted }
  else s

def closeSide : Descriptor → Chardev
  | .writer => s.closeWriter
  | .reader => s.closeReader

/-- `btcap_close`, up to the wakeup. -/
def closed (fd : Descriptor) : Chardev :=
  let s := s.closeSide fd
  if ¬s.writerOpen ∧ ¬s.readerOpen ∧ s.state = .aborted then s.reset else s

/-- `btcap_close`. -/
def closeFile (fd : Descriptor) (picks : Picks) : Chardev := (s.closed fd).notifyAll picks

/-! ## Control -/

def registered (m : SessionMeta) : Chardev :=
  { s with
    sessionMeta := { m with name := m.name.set 31 0 }
    state := .ready
    writerDone := false
    head := 0
    tail := 0
    sessionGeneration := s.sessionGeneration + 1 }

/-- `BTCAPIOC_REGISTER_SESSION`. -/
def registerSession (fd : Descriptor) (m : SessionMeta) (picks : Picks) : Chardev × List Note :=
  if s.state ≠ .idle then (s, [.returns (-EBUSY)])
  else if fd ≠ .writer then (s, [.returns (-EACCES)])
  else ((s.registered m).notifyAll picks, [.registers, .returns 0])

/-- The writer is done; if no one is there to read and nothing to be read, so is the session. -/
def finalised : Chardev :=
  let s := { s with writerDone := true }
  if ¬s.readerOpen ∧ s.ringUsed = 0 then s.reset else s

/-- `BTCAPIOC_FINALIZE_SESSION`. -/
def finalizeSession (fd : Descriptor) (picks : Picks) : Chardev × List Note :=
  if fd ≠ .writer then (s, [.returns (-EACCES)])
  else if s.state ≠ .ready ∨ s.writerDone then (s, [.returns (-EINVAL)])
  else (s.finalised.notifyAll picks, [.finalises s.readerOpen, .returns 0])

def aborted : Chardev := { s with state := .aborted }

/-- `BTCAPIOC_ABORT_SESSION`. -/
def abortSession (picks : Picks) : Chardev × List Note :=
  if s.state ≠ .ready then (s, [.returns 0])
  else (s.aborted.notifyAll picks, [.returns 0])

/-- `btcap_ioctl`. -/
def ioctl (fd : Descriptor) (cmd : Ioctl) (picks : Picks) : Chardev × List Note :=
  match cmd with
  | .registerSession m => s.registerSession fd m picks
  | .finalizeSession => s.finalizeSession fd picks
  | .abortSession => s.abortSession picks
  | .getSessionMeta =>
    if s.state ≠ .ready then (s, [.returns (-ENOENT)])
    else (s, [.sessionMeta s.sessionMeta, .returns 0])
  | .queryState => (s, [.stateIs s.state.code, .returns 0])
  | .other => (s, [.returns (-ENOTTY)])

/-! ## Waiting -/

/-- The condition of the loop in `btcap_wait_writable_locked`. -/
def mustWaitWritable (generation : UInt32) : Prop :=
  s.state = .ready ∧ ¬s.writerDone ∧ s.sessionGeneration = generation ∧ s.ringFree = 0

/-- The condition of the loop in `btcap_wait_readable_locked`. -/
def mustWaitReadable (generation : UInt32) : Prop :=
  s.state = .ready ∧ s.sessionGeneration = generation ∧ s.ringUsed = 0 ∧ ¬s.writerDone

instance (generation : UInt32) : Decidable (s.mustWaitWritable generation) :=
  inferInstanceAs (Decidable (_ ∧ _))

instance (generation : UInt32) : Decidable (s.mustWaitReadable generation) :=
  inferInstanceAs (Decidable (_ ∧ _))

/-- One look at that condition, and what `btcap_wait_writable_locked` returns if it is over. -/
def waitWritable (generation : UInt32) : Option Int :=
  if s.mustWaitWritable generation then none
  else if s.state ≠ .ready ∨ s.writerDone ∨ s.sessionGeneration ≠ generation then some (-ECANCELED)
  else some 0

/-- The same for `btcap_wait_readable_locked`. -/
def waitReadable (generation : UInt32) : Option Int :=
  if s.mustWaitReadable generation then none
  else if s.sessionGeneration ≠ generation then some (-ECANCELED)
  else some 0

/-- What both return right after the semaphore, before the next look. -/
def afterWait (generation : UInt32) (ret : Int) : Option Int :=
  if ret = -EINTR then some (-EINTR)
  else if s.sessionGeneration ≠ generation ∨ s.state = .aborted then some (-ECANCELED)
  else none

/-! ## Writing -/

/-- The end of `btcap_write`. -/
def writeEnd (data : List UInt8) (written : Nat) : Chardev × List Note × Point :=
  (s.unlock, [.wrote data (if written = 0 then -EAGAIN else written)], .ready)

def writeFail (data : List UInt8) (written : Nat) (ret : Int) : Chardev × List Note × Point :=
  (s.unlock, [.wrote data (if 0 < written then (written : Int) else ret)], .ready)

/-- Bytes go into the ring, in two segments if it wraps. -/
def accept (bytes : List UInt8) : Chardev :=
  { s with
    ring := Ring.copyIn s.ring s.head bytes
    head := (s.head + bytes.length) % s.ring.length }

def writeChunk (data : List UInt8) (written : Nat) (nonblock : Bool) (generation : UInt32)
    (picks : Picks) : Chardev × List Note × Point :=
  let chunk := min (data.length - written) s.ringFree
  let bytes := (data.drop written).take chunk
  ((s.accept bytes).notifyAll picks, [.accepts bytes],
    .looping (.write data (written + chunk)) nonblock generation)

def writeWait (data : List UInt8) (written : Nat) (generation : UInt32) (picks : Picks) :
    Chardev × List Note × Point :=
  match s.waitWritable generation with
  | none => (s.unlock, [], .waiting (.write data written) generation)
  | some ret =>
    if ret < 0 then s.writeFail data written ret
    else s.writeChunk data written false generation picks

/-- One round of the loop of `btcap_write`. -/
def writeLoop (data : List UInt8) (written : Nat) (nonblock : Bool) (generation : UInt32)
    (picks : Picks) : Chardev × List Note × Point :=
  if written < data.length then
    if s.ringFree = 0 then
      if nonblock then s.writeEnd data written
      else s.writeWait data written generation picks
    else s.writeChunk data written nonblock generation picks
  else s.writeEnd data written

/-- `btcap_write`, up to its loop. -/
def write (data : List UInt8) (nonblock : Bool) : Chardev × List Note × Point :=
  if s.state ≠ .ready ∨ s.writerDone then
    (s, [.wrote data (if s.state = .aborted then -ECANCELED else -EINVAL)], .ready)
  else (s.lock, [], .looping (.write data 0) nonblock s.sessionGeneration)

/-! ## Reading -/

/-- The end of `btcap_read`. -/
def readEnd (buflen : Nat) (got : List UInt8) (nonblock : Bool) (picks : Picks) :
    Chardev × List Note × Point :=
  let s := if s.writerDone ∧ s.ringUsed = 0 then s.notifyAll picks else s
  (s.unlock, [.got buflen got (if got.length = 0 ∧ nonblock then -EAGAIN else got.length)], .ready)

def readFail (buflen : Nat) (got : List UInt8) (ret : Int) : Chardev × List Note × Point :=
  (s.unlock, [.got buflen got (if 0 < got.length then (got.length : Int) else ret)], .ready)

/-- Bytes have been copied from the ring. -/
def deliver (count : Nat) : Chardev := { s with tail := (s.tail + count) % s.ring.length }

def readChunk (buflen : Nat) (got : List UInt8) (nonblock : Bool) (generation : UInt32)
    (picks : Picks) : Chardev × List Note × Point :=
  let chunk := min (buflen - got.length) s.ringUsed
  let bytes := Ring.copyOut s.ring s.tail chunk
  ((s.deliver chunk).notifyAll picks, [.delivers bytes],
    .looping (.read buflen (got ++ bytes)) nonblock generation)

def readWait (buflen : Nat) (got : List UInt8) (generation : UInt32) (picks : Picks) :
    Chardev × List Note × Point :=
  match s.waitReadable generation with
  | none => (s.unlock, [], .waiting (.read buflen got) generation)
  | some ret =>
    if ret < 0 then s.readFail buflen got ret
    else s.readChunk buflen got false generation picks

/-- One round of the loop of `btcap_read`. -/
def readLoop (buflen : Nat) (got : List UInt8) (nonblock : Bool) (generation : UInt32)
    (picks : Picks) : Chardev × List Note × Point :=
  if got.length < buflen then
    if s.ringUsed = 0 then
      if s.writerDone then s.readEnd buflen got nonblock picks
      else if nonblock then s.readEnd buflen got nonblock picks
      else s.readWait buflen got generation picks
    else s.readChunk buflen got nonblock generation picks
  else s.readEnd buflen got nonblock picks

/-- `btcap_read`, up to its loop. -/
def read (buflen : Nat) (nonblock : Bool) : Chardev × List Note × Point :=
  if s.state = .idle ∨ s.state = .aborted then (s, [.got buflen [] 0], .ready)
  else if s.writerDone ∧ s.ringUsed = 0 then (s, [.got buflen [] 0], .ready)
  else (s.lock, [], .looping (.read buflen []) nonblock s.sessionGeneration)

/-! ## The threads -/

def loop (call : Call) (nonblock : Bool) (generation : UInt32) (picks : Picks) :
    Chardev × List Note × Point :=
  match call with
  | .write data written => s.writeLoop data written nonblock generation picks
  | .read buflen got => s.readLoop buflen got nonblock generation picks

/-- A call that has taken the lock again after its wait. -/
def resume (call : Call) (generation : UInt32) (ret : Int) (picks : Picks) :
    Chardev × List Note × Point :=
  match call, s.afterWait generation ret with
  | .write data written, some ret => s.writeFail data written ret
  | .write data written, none => s.lock.writeWait data written generation picks
  | .read buflen got, some ret => s.readFail buflen got ret
  | .read buflen got, none => s.lock.readWait buflen got generation picks

end Chardev

/-- The semaphore that a call waits for. -/
inductive Side where
  | writable
  | readable
  deriving DecidableEq

def Call.side : Call → Side
  | .write .. => .writable
  | .read .. => .readable

def Chardev.sem (s : Chardev) : Side → Semaphore
  | .writable => s.writableSem
  | .readable => s.readableSem

def Chardev.setSem (s : Chardev) (side : Side) (sem : Semaphore) : Chardev :=
  match side with
  | .writable => { s with writableSem := sem }
  | .readable => { s with readableSem := sem }

/-- One section of a thread. A thread that needs the lock waits until it is free. -/
def body (s : Chardev) : Point → Input → Chardev × List Note × Point
  | .ready, .openFile wantWrite wantRead =>
    if s.locked then (s, [], .ready)
    else
      let (s, rc) := s.openFile wantWrite wantRead
      (s, [.returns rc], .ready)
  | .ready, .closeFile fd picks =>
    if s.locked ∨ ¬s.isOpen fd then (s, [], .ready)
    else (s.closeFile fd picks, [.returns 0], .ready)
  | .ready, .ioctl fd cmd picks =>
    if s.locked ∨ ¬s.isOpen fd then (s, [], .ready)
    else
      let (s, notes) := s.ioctl fd cmd picks
      (s, notes, .ready)
  | .ready, .write data nonblock =>
    if ¬s.writerOpen then (s, [], .ready)
    else if data.length = 0 then (s, [.wrote data 0], .ready)
    else if s.locked then (s, [], .ready)
    else s.write data nonblock
  | .ready, .read buflen nonblock =>
    if ¬s.readerOpen then (s, [], .ready)
    else if buflen = 0 then (s, [.got buflen [] 0], .ready)
    else if s.locked then (s, [], .ready)
    else s.read buflen nonblock
  | .looping call nonblock generation, .go picks => s.loop call nonblock generation picks
  | .waiting call generation, .go _ =>
    let (sem, ticket) := (s.sem call.side).wait
    (s.setSem call.side sem, [],
      match ticket with
      | none => .woken call generation 0
      | some ticket => .blocked call generation ticket)
  | .blocked call generation ticket, .go _ =>
    if ticket ∈ (s.sem call.side).waiting then (s, [], .blocked call generation ticket)
    else (s, [], .woken call generation 0)
  | .blocked call generation ticket, .giveUp ret =>
    if ticket ∈ (s.sem call.side).waiting ∧ ret < 0 then
      (s.setSem call.side ((s.sem call.side).leave ticket), [], .woken call generation ret)
    else (s, [], .blocked call generation ticket)
  | .woken call generation ret, .go picks =>
    if s.locked then (s, [], .woken call generation ret)
    else s.resume call generation ret picks
  | point, _ => (s, [], point)

def threads : Threads Chardev Point Input Note where
  body := body

/-- After `stm32_btcap_chardev_register`, with a ring of `size + 1` bytes. -/
def boot (size : Nat) : Threads.State Chardev Point where
  shared := { ring := List.replicate (size + 1) 0 }
  pc _ := .ready

end Brickwright.Btcap
