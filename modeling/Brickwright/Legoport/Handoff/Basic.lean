import Brickwright.Machine.Semaphore
import Brickwright.Machine.Threads

/-!
# The handoff of a port

`stm32_legoport.c`: when the worker of the port finds a device with a UART it hands the port to
whoever has registered for it, by a callback that it calls without the lock. `register_uart_handoff`
and `release_uart` put another callback in its place, or none, and wait until no call is in flight;
so their callers may free what the old callback works on.

`registered` counts those calls without ever wrapping, unlike the generation, and `calls` how many
of them stand between raising and lowering the number of waiters; the code knows neither.
-/

namespace Brickwright.Legoport

/-- A callback with its private pointer. -/
structure Callback where
  cb : Nat
  priv : Nat
  deriving DecidableEq, Repr

/-- `enum dcm_state_e`, as far as a handoff tells the states apart. -/
inductive DcmState where
  | s0Init
  | scanning
  | latchedUartOwned
  | latchedUartUnownedIdle
  deriving DecidableEq, Repr

structure Dcm where
  state : DcmState := .s0Init
  matchCount : UInt8 := 0
  prevTypeId : UInt8 := 0
  inUnownedRescan : Bool := false
  unownedDiscStreak : UInt8 := 0
  unownedOtherStreak : UInt8 := 0
  unownedOtherType : UInt8 := 0
  unownedIdleUntil : Nat := 0
  handoffOk : Bool := false
  deriving DecidableEq, Repr

/-- `struct legoport_state_s`, what a handoff uses of it. -/
structure HandoffState where
  handoffCb : Option Callback := none
  handoffGeneration : UInt32 := 0
  handoffInflight : UInt32 := 0
  handoffWaiters : UInt32 := 0
  handoffQuiescent : Semaphore := {}
  dcm : Dcm := {}
  registered : Nat := 0
  calls : Nat := 0

/-- Where the worker of the port is: a call is made under the number of the last registration before
it. -/
inductive WorkerStage where
  | idle
  | calling (callback : Callback) (generation : UInt32) (number : Nat)
  | missing (number : Nat)
  deriving DecidableEq

inductive CallerStage where
  | ready
  | waiting (release : Bool) (number : Nat)
  | blocked (release : Bool) (number : Nat) (ticket : Nat)
  | woken (release : Bool) (number : Nat)
  deriving DecidableEq

inductive HandoffPoint where
  | worker (stage : WorkerStage)
  | caller (stage : CallerStage)
  deriving DecidableEq

inductive HandoffInput where
  /-- The worker scans, and hands the port over. -/
  | scan (dcm : Dcm)
  | invoke
  | finish (ret : Int) (now : Nat) (pick : Nat)
  /-- Another thread registers, or releases the port. -/
  | register (callback : Option Callback)
  | release
  | go

inductive HandoffNote where
  | starts (callback : Callback) (number : Nat)
  | returns (number : Nat)
  deriving DecidableEq

/-- `MSEC2TICK`; a tick is 10 us. -/
def msec2tick (ms : Nat) : Nat := ms * 100

def unownedProbeMs : Nat := 100

/-- What a callback that fails, or none, leaves. -/
def Dcm.unowned (d : Dcm) (now : Nat) : Dcm :=
  { d with
    state := .latchedUartUnownedIdle, inUnownedRescan := false, unownedDiscStreak := 0
    unownedOtherStreak := 0, unownedOtherType := 0
    unownedIdleUntil := now + msec2tick unownedProbeMs }

def Dcm.owned (d : Dcm) : Dcm := { d with state := .latchedUartOwned, handoffOk := true }

/-- What `stm32_legoport_release_uart` leaves. -/
def Dcm.released (d : Dcm) : Dcm :=
  { d with
    state := .s0Init, matchCount := 0, prevTypeId := 0, inUnownedRescan := false
    unownedDiscStreak := 0, unownedOtherStreak := 0, unownedOtherType := 0, handoffOk := false }

/-- The first section of `legoport_invoke_handoff`. -/
def HandoffState.invoke (s : HandoffState) : HandoffState × List HandoffNote × WorkerStage :=
  match s.handoffCb with
  | none => (s, [], .missing s.registered)
  | some callback =>
    ({ s with handoffInflight := s.handoffInflight + 1 }, [.starts callback s.registered],
      .calling callback s.handoffGeneration s.registered)

/-- The result of a call is applied in the generation that it was made in. -/
def HandoffState.apply (s : HandoffState) (generation : UInt32) (ret : Int) (now : Nat) : Dcm :=
  if generation = s.handoffGeneration then
    if ret = 0 then s.dcm.owned else s.dcm.unowned now
  else s.dcm

def HandoffState.finish (s : HandoffState) (generation : UInt32) (ret : Int) (now pick : Nat) :
    HandoffState :=
  let s := { s with dcm := s.apply generation ret now, handoffInflight := s.handoffInflight - 1 }
  if s.handoffInflight = 0 ∧ s.handoffWaiters > 0 then
    { s with handoffQuiescent := s.handoffQuiescent.post pick }
  else s

/-- The loop of a caller that drains the calls in flight. -/
def HandoffState.drain (s : HandoffState) (release : Bool) (number : Nat) :
    HandoffState × List HandoffNote × CallerStage :=
  if s.handoffInflight ≠ 0 then
    ({ s with handoffWaiters := s.handoffWaiters + 1, calls := s.calls + 1 }, [],
      .waiting release number)
  else
    ({ s with dcm := if release then s.dcm.released else s.dcm }, [.returns number], .ready)

/-- A caller that is back under the lock. -/
def HandoffState.wake (s : HandoffState) : HandoffState :=
  { s with handoffWaiters := s.handoffWaiters - 1, calls := s.calls - 1 }

/-- The callback of `stm32_legoport_register_uart_handoff`, or none for a release. -/
def HandoffState.register (s : HandoffState) (callback : Option Callback) : HandoffState :=
  { s with
    handoffCb := callback
    handoffGeneration := s.handoffGeneration + 1
    registered := s.registered + 1 }

def workerBody (s : HandoffState) :
    WorkerStage → HandoffInput → HandoffState × List HandoffNote × WorkerStage
  | .idle, .scan dcm => ({ s with dcm := dcm }, [], .idle)
  | .idle, .invoke => s.invoke
  | .calling _ generation _, .finish ret now pick => (s.finish generation ret now pick, [], .idle)
  | .missing _, .finish _ now _ => ({ s with dcm := s.dcm.unowned now }, [], .idle)
  | stage, _ => (s, [], stage)

def callerBody (s : HandoffState) :
    CallerStage → HandoffInput → HandoffState × List HandoffNote × CallerStage
  | .ready, .register callback => (s.register callback).drain false (s.registered + 1)
  | .ready, .release => (s.register none).drain true (s.registered + 1)
  | .waiting release number, .go =>
    let (sem, ticket) := s.handoffQuiescent.wait
    ({ s with handoffQuiescent := sem }, [],
      match ticket with
      | none => .woken release number
      | some ticket => .blocked release number ticket)
  | .blocked release number ticket, .go =>
    if ticket ∈ s.handoffQuiescent.waiting then (s, [], .blocked release number ticket)
    else (s, [], .woken release number)
  | .woken release number, .go => s.wake.drain release number
  | stage, _ => (s, [], stage)

def handoffThreads : Threads HandoffState HandoffPoint HandoffInput HandoffNote where
  body s point input :=
    match point with
    | .worker stage =>
      let (s, notes, stage) := workerBody s stage input
      (s, notes, .worker stage)
    | .caller stage =>
      let (s, notes, stage) := callerBody s stage input
      (s, notes, .caller stage)

def handoffBoot : Threads.State HandoffState HandoffPoint where
  shared := {}
  pc i := if i = 0 then .worker .idle else .caller .ready

abbrev Handoffs := Threads.State HandoffState HandoffPoint

/-! ## What the claims about a handoff speak of -/

/-- The call that is in flight, by the registration it was made under. -/
def HandoffPoint.running : HandoffPoint → Option Nat
  | .worker (.calling _ _ number) => some number
  | _ => none

/-- The ticket that a caller waits with. -/
def HandoffPoint.ticket : HandoffPoint → Option Nat
  | .caller (.blocked _ _ ticket) => some ticket
  | _ => none

/-- A caller waits, and has not been woken. -/
def HandoffPoint.pending (sem : Semaphore) : HandoffPoint → Bool
  | .caller (.waiting ..) => true
  | .caller (.blocked _ _ ticket) => decide (ticket ∈ sem.waiting)
  | _ => false

def Pending (s : Handoffs) (i : Nat) : Prop :=
  (s.pc i).pending s.shared.handoffQuiescent = true

/-- When a call returns, no callback is running that was registered before it. -/
def Quiescent (s : Handoffs) (e : Nat × HandoffInput) : Prop :=
  ∀ j number, (j, .returns number) ∈ handoffThreads.notes s e.1 e.2 →
    ∀ i m, ((handoffThreads.step s e.1 e.2).pc i).running = some m → number ≤ m

/-- Behind the return of a call, no callback starts that was registered before it. -/
def NoneStarts (h : List (Nat × HandoffNote)) : Prop :=
  ∀ pre i number post, h = pre ++ (i, .returns number) :: post →
    ∀ j callback m, (j, .starts callback m) ∈ post → number ≤ m

/-- The end of an invocation behind which there has been another registration leaves the port
alone. -/
def StaleHarmless (s : Handoffs) (e : Nat × HandoffInput) : Prop :=
  match s.pc e.1, e.2 with
  | .worker (.calling _ _ number), .finish .. | .worker (.missing number), .finish .. =>
    number ≠ s.shared.registered → (handoffThreads.step s e.1 e.2).shared.dcm = s.shared.dcm
  | _, _ => True

/-- An invocation ends before its generation comes round; one that has found no callback, before the
next registration. -/
def Timely (s : Handoffs) (e : Nat × HandoffInput) : Prop :=
  match s.pc e.1, e.2 with
  | .worker (.calling _ _ number), .finish .. => s.shared.registered < number + 2 ^ 32
  | .worker (.missing number), .finish .. => s.shared.registered = number
  | _, _ => True

/-- A caller waits where no call is in flight and no token is left. -/
def Forgotten (s : Handoffs) : Prop :=
  s.shared.handoffInflight = 0 ∧ s.shared.handoffQuiescent.tokens = 0 ∧ ∃ i, Pending s i

/-- When a call ends, one caller at most waits, and the number of waiters has not come round. -/
def OneWaits (s : Handoffs) (e : Nat × HandoffInput) : Prop :=
  match s.pc e.1, e.2 with
  | .worker (.calling ..), .finish .. =>
    s.shared.calls < 2 ^ 32 ∧ ∀ i j, Pending s i → Pending s j → i = j
  | _, _ => True

end Brickwright.Legoport
