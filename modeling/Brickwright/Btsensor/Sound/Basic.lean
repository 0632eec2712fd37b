import Brickwright.Btsensor.Modern.Basic
import Brickwright.Machine.Threads
import Brickwright.Protocol.Hub

/-!
# Beeps (`btsensor_sound.c`)

An operation stops the timer of the last beep, takes `g_lock`, closes what is open, and opens the
device for its own beep; the timer's callback closes it again. The calls to the device and to the
timer are those of `g_production_io`, and what they return is up to the environment.

Of the timer only what the scheduler promises is modelled: a start replaces the deadline, a stop
takes it away and returns when the callback is not running, and there is one callback at a time.
Beeps are numbered as they are opened.
-/

namespace Brickwright.Btsensor.Sound

open Modern (Operation ERANGE ENOTSUP)
open Protocol (Link)

def EIO : Int := 5

def targetSr : Nat := 50000

def pcmMaxSamples : Nat := 256

/-- `struct pcm_blob`, with the fields of its header. -/
structure PcmBlob where
  magic : UInt32 := 0x304D4350
  version : UInt16 := 1
  hdrSize : UInt16 := 20
  flags : UInt32 := 0
  sampleRate : Nat
  sampleCount : Nat
  samples : List UInt16
  deriving DecidableEq, Repr

/-- The number of samples of one period. -/
def squareCount (frequency : Nat) : Nat :=
  let count := targetSr / frequency
  let count := if count < 4 then 4 else count
  let count := if count > pcmMaxSamples then pcmMaxSamples else count
  count / 2 * 2

def buildSquare (frequency : Nat) : PcmBlob where
  sampleRate := frequency * squareCount frequency
  sampleCount := squareCount frequency
  samples := List.replicate (squareCount frequency / 2) 0x0001 ++
    List.replicate (squareCount frequency / 2) 0xffff

/-- What `build_square` returns. -/
def PcmBlob.length (blob : PcmBlob) : Nat := blob.hdrSize.toNat + 2 * blob.samples.length

structure Shared where
  /-- `g_lock`. -/
  locked : Bool := false
  /-- `g_fd`. -/
  fd : Int := -1
  /-- `g_owner`. -/
  owner : Link := .classic
  /-- `g_io_valid`; `g_io` is then the production table. -/
  ioValid : Bool := false
  /-- How many times the device has been opened. The last is the one in `g_fd`. -/
  beep : Nat := 0
  /-- The beep whose deadline `g_timer` has. -/
  armed : Option Nat := none
  /-- The beep whose expiry the callback is running for. -/
  dispatching : Option Nat := none
  deriving DecidableEq, Repr

/-- What is done behind the stop of the timer. -/
inductive Job where
  | operate (link : Link) (operation : Operation)
  | shutdown
  deriving DecidableEq, Repr

inductive Point where
  | idle
  | stoppingTimer (job : Job)
  /-- The deadline is gone, and the callback may be running. -/
  | awaitingTimer (job : Job)
  | locking (job : Job)
  /-- An operation with the lock, before `open`, `write` and `timer_start`. -/
  | opening (link : Link) (operation : Operation)
  | writing (link : Link) (operation : Operation)
  | starting (operation : Operation)
  /-- `btsensor_sound_link_state`. -/
  | disconnecting (link : Link)
  /-- `timer_expired`, of the beep. -/
  | expired (beep : Nat)
  deriving DecidableEq, Repr

inductive Input where
  | operate (link : Link) (operation : Operation)
  | linkState (link : Link) (connected : Bool)
  | shutdown
  /-- The deadline of the timer is over. -/
  | expire
  /-- The next section, with what the call in it returns. -/
  | go (ret : Int)
  deriving DecidableEq

inductive Cause where
  | operation
  | disconnect (link : Link)
  | expiry (beep : Nat)
  | shutdown
  deriving DecidableEq, Repr

inductive Note where
  | opens (beep : Nat) (link : Link) (fd : Int)
  | writes (beep : Nat) (blob : PcmBlob)
  /-- `TONEIOC_STOP`. -/
  | stops (beep : Nat)
  | closes (beep : Nat) (cause : Cause)
  deriving DecidableEq

/-- `close_locked`. -/
def Shared.close (s : Shared) (cause : Cause) : Shared × List Note :=
  if s.fd < 0 ∨ ¬s.ioValid then (s, [])
  else ({ s with fd := -1 }, [.stops s.beep, .closes s.beep cause])

/-- `close_locked`, and the end of the section. -/
def Shared.closeUnlock (s : Shared) (cause : Cause) : Shared × List Note × Point :=
  ({ (s.close cause).1 with locked := false }, (s.close cause).2, .idle)

/-- The checks of `btsensor_sound_operation_with_io`. -/
def refused (operation : Operation) : Option Int :=
  if operation.kind ≠ .soundBeep ∧ operation.kind ≠ .soundStop then some (-ENOTSUP)
  else if operation.kind = .soundBeep ∧
    (operation.frequencyHz < 100 ∨ operation.frequencyHz > 10000 ∨
      operation.durationMs > 60000) then some (-ERANGE)
  else none

/-- `btsensor_sound_operation`, from the lock on. -/
def operate (s : Shared) (ret : Int) : Point → Shared × List Note × Point
  | .locking (.operate link operation) =>
    if s.locked then (s, [], .locking (.operate link operation))
    else
      -- There is one table, so it is the same.
      let s' := ({ s with ioValid := true }.close .operation).1
      let notes := ({ s with ioValid := true }.close .operation).2
      if operation.kind = .soundStop ∨ operation.durationMs = 0 then (s', notes, .idle)
      else ({ s' with locked := true }, notes, .opening link operation)
  | .opening link operation =>
    if ret < 0 then ({ s with fd := ret, locked := false }, [], .idle)
    else
      ({ s with fd := ret, beep := s.beep + 1 }, [.opens (s.beep + 1) link ret],
        .writing link operation)
  | .writing link operation =>
    let blob := buildSquare operation.frequencyHz.toNat
    let (s', notes, pc) :=
      if ret < 0 ∨ ret ≠ blob.length then s.closeUnlock .operation
      else ({ s with owner := link }, [], .starting operation)
    (s', .writes s.beep blob :: notes, pc)
  | .starting _ =>
    if ret < 0 then s.closeUnlock .operation
    else ({ s with armed := some s.beep, locked := false }, [], .idle)
  | pc => (s, [], pc)

/-- A section that needs the lock, and gives it back. -/
def locked (s : Shared) (pc : Point) (section_ : Shared × List Note) : Shared × List Note × Point :=
  if s.locked then (s, [], pc) else (section_.1, section_.2, .idle)

def body (s : Shared) (pc : Point) (input : Input) : Shared × List Note × Point :=
  match pc, input with
  | .idle, .operate link operation =>
    (s, [], if (refused operation).isSome then .idle else .stoppingTimer (.operate link operation))
  | .idle, .shutdown => (s, [], .stoppingTimer .shutdown)
  | .idle, .linkState link connected => (s, [], if connected then .idle else .disconnecting link)
  | .idle, .expire =>
    match s.armed, s.dispatching with
    | some beep, none => ({ s with armed := none, dispatching := some beep }, [], .expired beep)
    | _, _ => (s, [], .idle)
  | .stoppingTimer job, .go _ => ({ s with armed := none }, [], .awaitingTimer job)
  | .awaitingTimer job, .go _ =>
    (s, [], if s.dispatching = none then .locking job else .awaitingTimer job)
  | .locking .shutdown, .go _ =>
    locked s (.locking .shutdown) (if s.ioValid then s.close .shutdown else (s, []))
  | .disconnecting link, .go _ =>
    locked s (.disconnecting link)
      (if s.fd ≥ 0 ∧ s.owner = link then s.close (.disconnect link) else (s, []))
  | .expired beep, .go _ =>
    locked s (.expired beep)
      ({ (s.close (.expiry beep)).1 with dispatching := none }, (s.close (.expiry beep)).2)
  | .locking (.operate ..), .go ret | .opening .., .go ret | .writing .., .go ret
  | .starting _, .go ret => operate s ret pc
  | _, _ => (s, [], pc)

def threads : Threads Shared Point Input Note := ⟨body⟩

def boot : Threads.State Shared Point := ⟨{}, fun _ => .idle⟩

end Brickwright.Btsensor.Sound
