import Brickwright.Btsensor.Backend.Owners
import Brickwright.Btsensor.Classic.Requests
import Brickwright.Machine.History

/-!
# The runs of the Classic adapter (`btsensor_classic.c`)

Two threads use the table of runs: the Bluetooth host's, on which lines and disconnects arrive one
at a time, and the scheduler's, on which the timer fires. Each stands at a point of its program, and
one step takes it through one section: what it does under `g_lock`, or one call. The motors are
those of the port backend, which others command as well, between any two steps.

The callbacks are those of `btsensor_main.c`, none of them null. `timer_start` is
`btsensor_scheduler_timer_start_once`: it replaces what was armed, or fails and leaves it.
`timer_stop` is `btsensor_scheduler_timer_stop`, which waits for the callback to return.

A run and a request carry the number of their line, which the source has no field for: notes tell by
it which line a reply answers.
-/

namespace Brickwright.Btsensor.Classic

open Decimal Backend

variable {σ : Type*}

/-! ## The table -/

/-- Who asked: `id` and `has_id`, with the number of the line. -/
structure Asked where
  line : Nat
  id : Option (List UInt8)
  deriving DecidableEq

/-- `struct pending_run`; one that is not active is not in the table. -/
structure Run where
  asked : Asked
  deadlineMs : UInt64 := 0
  expiresMs : UInt64 := 0
  progressMs : UInt64 := 0
  lastPosition : Int32 := 0
  targetDelta : Int64 := 0
  displacement : Int64 := 0
  direction : Int64 := 0
  degrees : Bool := false
  generation : UInt32 := 0
  ownershipToken : UInt32 := 0
  endState : UInt8 := 0

/-- `g_pending`. -/
abbrev Table := Port → Option Run

/-- A timer that was started with a delay, after a reading of the clock. -/
structure Arming where
  reading : UInt64
  delay : UInt32
  deriving DecidableEq

/-- `UINT64_MAX`, and `UINT32_MAX` as a number of 64 bits. -/
def maxClock : UInt64 := 18446744073709551615
def maxDelay : UInt64 := 4294967295

/-- `CLASSIC_ENCODER_POLL_MS` and `CLASSIC_NO_PROGRESS_MS`. -/
def encoderPollMs : UInt64 := 20
def noProgressMs : UInt64 := 1000

namespace Table

/-- The loop of `arm_next_locked`. -/
def earliest (pending : Table) : UInt64 :=
  (List.finRange 6).foldl (fun earliest port =>
    match pending port with
    | some run => if run.deadlineMs < earliest then run.deadlineMs else earliest
    | none => earliest) maxClock

/-- The active runs, in the order of their ports. -/
def runs (pending : Table) : List (Port × Run) :=
  (List.finRange 6).filterMap fun port => (pending port).map (Prod.mk port)

/-- What `memset` leaves. -/
def empty : Table := fun _ => none

end Table

def armDelay (earliest now : UInt64) : UInt32 :=
  if earliest ≤ now then 1
  else if earliest - now > maxDelay then 4294967295
  else (earliest - now).toUInt32

/-- `arm_next_locked`: the result, and what is armed then. `failure` is the error of `timer_start`,
less one, if it fails. -/
def armNext (pending : Table) (armed : Option Arming) (now : UInt64) (failure : Option Nat) :
    Int × Option Arming :=
  if pending.earliest = maxClock then (0, armed)
  else
    match failure with
    | none => (0, some ⟨now, armDelay pending.earliest now⟩)
    | some e => (-(e + 1), armed)

/-! ## A run -/

/-- How far the clock must be from its end: the time of the run, or `CLASSIC_TIMED_MAX_MS`. -/
def Goal.span : Goal → UInt64
  | .timed timeMs => timeMs
  | .degrees _ => 60000

namespace Run

/-- What a run is filled with before the clock is read again. -/
def start (asked : Asked) (operation : Operation) (goal : Goal) (endState : UInt8)
    (baseline : Int32)
    (token : UInt32) : Run :=
  let run : Run := { asked := asked, ownershipToken := token, endState := endState }
  match goal with
  | .timed _ => run
  | .degrees angle =>
    { run with
      degrees := true
      lastPosition := baseline
      targetDelta := Int64.ofInt angle.natAbs
      direction := if operation.speed < 0 then -1 else 1 }

/-- The times of a run that starts at `now`. -/
def startAt (run : Run) (goal : Goal) (generation : UInt32) (now : UInt64) : Run :=
  match goal with
  | .timed timeMs => { run with generation := generation, deadlineMs := now + timeMs }
  | .degrees _ =>
    { run with
      generation := generation
      expiresMs := now + goal.span
      progressMs := now
      deadlineMs := now + encoderPollMs }

/-- What a new position does: the counter wraps, and half of its range has no direction. -/
def measure (run : Run) (rc : Int) (measured : Int32) (now : UInt64) : Int × Run :=
  let rc := if rc = -EAGAIN then 0 else rc
  if rc = 0 ∧ measured ≠ run.lastPosition then
    let delta := measured.toUInt32 - run.lastPosition.toUInt32
    if delta = 2147483648 then (-EOVERFLOW, run)
    else
      (0, { run with
        displacement := run.displacement + delta.toInt32.toInt64
        lastPosition := measured
        progressMs := now })
  else (rc, run)

def Reached (run : Run) : Prop := run.targetDelta ≤ run.displacement * run.direction

instance (run : Run) : Decidable run.Reached := inferInstanceAs (Decidable (_ ≤ _))

def GoesOn (run : Run) (rc : Int) (now : UInt64) : Prop :=
  rc = 0 ∧ ¬ run.Reached ∧ now < run.expiresMs ∧ now - run.progressMs < noProgressMs

instance (run : Run) (rc : Int) (now : UInt64) : Decidable (run.GoesOn rc now) :=
  inferInstanceAs (Decidable (_ ∧ _))

end Run

/-! ## Where the threads stand -/

/-- The loop of `abort_failed_runs`: the runs that are left, and what the end of the first
returned. -/
structure Abort where
  failed : List (Port × Run)
  error : Int
  stopRc : Option Int := none

inductive Host where
  | idle
  /-- A sound of the older commands. -/
  | sounding (operation : Operation)
  /-- `send_current_state`. -/
  | snapshot (asked : Asked)
  /-- `port_pending`. -/
  | checking (asked : Asked) (port : Port) (operation : Operation)
  | operating (asked : Asked) (operation : Operation) (cancel : Option Port)
  /-- `start_timed` and `start_degrees`, at their lock, and with the lock behind the operation. -/
  | starting (asked : Asked) (port : Port) (operation : Operation) (goal : Goal) (endState : UInt8)
  | arming (port : Port) (run : Run) (goal : Goal)
  | ending (port : Port) (run : Run) (endState : UInt8) (rc : Int)
  /-- `cancel_port`. -/
  | canceling (asked : Asked) (port : Port)
  | stopping (asked : Asked) (canceled : Run)
  | rearming (asked : Asked) (canceled : Run)
  | resolving (asked : Asked) (canceled : Run) (failed : Abort)
  | aborting (asked : Asked) (failed : Abort)
  | replying (asked : Asked) (rc : Int)
  /-- `btsensor_classic_link_state`. -/
  | disconnecting (canceled : List (Port × Run))
  | releasing (canceled : List (Port × Run))

/-- `g_lock` is held between two steps. -/
def Host.HoldsLock : Host → Prop
  | .arming .. | .ending .. => True
  | _ => False

instance (host : Host) : Decidable host.HoldsLock := by
  cases host <;> first | exact .isTrue trivial | exact .isFalse id

inductive Timer where
  | idle
  /-- The head of the loop over the ports, or the section behind it. -/
  | visiting (port : Nat)
  | ending (port : Port) (completed : Run) (motionResult : Int)
  | finishing (port : Port) (completed : Run) (rc : Int)
  | replying (port : Port) (completed : Run) (rc : Int)
  | aborting (failed : Abort)

structure System (σ : Type*) where
  pending : Table
  generation : UInt32
  armed : Option Arming
  host : Host
  timer : Timer
  backend : Backend.State
  context : σ
  /-- The lines received. -/
  received : Nat

/-- What the callbacks of a section return. -/
structure Answers where
  now : UInt64 := 0
  again : UInt64 := 0
  encoderRc : Int := 0
  degrees : Int32 := 0
  /-- What `encoder` does to the descriptors of the backend. -/
  ports : Ports → Ports := id
  timerFailure : Option Nat := none
  /-- Of `btsensor_sound_operation`. -/
  soundRc : Int := 0
  snapshotRc : Int := 0
  batteryPercent : UInt8 := 0
  sent : Int := 0
  sentAgain : Int := 0

inductive Note where
  /-- A request with an identifier was recognised. -/
  | request (line : Nat) (id : List UInt8)
  /-- `send_result` was called. -/
  | reply (line : Nat) (id : List UInt8) (result : Int)
  | state (text : List UInt8)
  | started (port : Port) (line : Nat)
  | over (port : Port) (line : Nat)
  /-- A disconnect has taken the run from the table. -/
  | discarded (port : Port) (asked : Asked)
  /-- The operation of a run that was accepted, and the end action of a run. -/
  | command (port : Port) (line : Nat) (e : Entry)
  | ending (port : Port) (line : Nat) (e : Entry)
  /-- Any other request to the backend. -/
  | backend (e : Entry)

namespace Asked

/-- `send_result`. -/
def reply (asked : Asked) (result : Int) : List Note :=
  match asked.id with
  | none => []
  | some id => [.reply asked.line id result]

def note (asked : Asked) : List Note :=
  match asked.id with
  | none => []
  | some id => [.request asked.line id]

end Asked

namespace System

variable (env : IoCall → σ → IoResult × σ)

def call (s : System σ) (request : Backend.Request) : Entry × System σ :=
  let r := (Calls.serving Backend.State.serve env).step (s.backend, s.context) request
  ((request, r.2), { s with backend := r.1.1, context := r.1.2 })

def endOwned (s : System σ) (port : Port) (run : Run) (endState : UInt8) :
    Int × List Note × System σ :=
  let (e, s) := s.call env (.endMotorIfOwned linkClassic port run.ownershipToken endState)
  (e.2.1.rc, [.ending port run.asked.line e], s)

/-- `classic_operation`. -/
def operate (s : System σ) (a : Answers) (operation : Operation) : Int × List Note × System σ :=
  if operation.kind = .soundBeep ∨ operation.kind = .soundStop then (a.soundRc, [], s)
  else
    let (e, s) := s.call env (.operation linkClassic (some operation) false)
    (e.2.1.rc, [.backend e], s)

/-- `classic_encoder` leaves the rest of the backend alone. -/
def encode (s : System σ) (a : Answers) : System σ :=
  { s with backend := { s.backend with ports := a.ports s.backend.ports } }

/-- Every run of the table goes, with a note. -/
def overAll (pending : Table) : List Note := pending.runs.map fun r => .over r.1 r.2.asked.line

/-- One step of `abort_failed_runs`, if a run is left. -/
def abort (s : System σ) (failed : Abort) : Option (List Note × Abort × System σ) :=
  match failed.failed, failed.stopRc with
  | [], _ => none
  | (port, run) :: _, none =>
    let (rc, notes, s) := s.endOwned env port run 1
    some (notes, { failed with stopRc := some rc }, s)
  | (_, run) :: rest, some stopRc =>
    some (run.asked.reply (if stopRc < 0 then stopRc else failed.error),
      { failed with failed := rest, stopRc := none }, s)

/-! ## The thread of the Bluetooth host -/

/-- Where the thread goes on with a request. -/
def begin (asked : Asked) : Todo → Host
  | .reply rc => .replying asked rc
  | .currentState => .snapshot asked
  | .operate operation cancel => .operating asked operation cancel
  | .operateIdle port operation => .checking asked port operation
  | .start port operation goal endState => .starting asked port operation goal endState

/-- `btsensor_classic_receive`, up to what it asks of others. -/
def receive (s : System σ) (link : Nat) (line : List UInt8) : System σ × List Note :=
  if link ≠ linkClassic then (s, [])
  else
    match parseLegacySound line with
    | some operation => ({ s with host := .sounding operation }, [])
    | none =>
      match parseRequest line with
      | none => (s, [])
      | some request =>
        let asked : Asked := ⟨s.received, request.id⟩
        ({ s with received := s.received + 1, host := begin asked request.todo }, asked.note)

/-- `send_current_state`: the lines sent, and the result. -/
def currentState (a : Answers) : List Note × Int :=
  let ports := Note.state (text
    "\x7b\"m\":0,\"p\":[[0,[]],[0,[]],[0,[]],[0,[]],[0,[]],[0,[]],[],[],[0,0,0]]\x7d\r\n")
  if a.snapshotRc < 0 then ([], a.snapshotRc)
  else if a.batteryPercent > 100 then ([], -ERANGE)
  else if a.sent < 0 then ([ports], a.sent)
  else
    ([ports, .state (text "\x7b\"m\":2,\"p\":[0," ++ decimal a.batteryPercent.toNat ++
      text "]\x7d\r\n")], a.sentAgain)

/-- `tagged_operation`, in `start_timed` and `start_degrees`. -/
def tag (s : System σ) (a : Answers) (asked : Asked) (port : Port) (operation : Operation)
    (goal : Goal) (endState : UInt8) : System σ × List Note :=
  let (e, s) := s.call env (.operation linkClassic (some operation) true)
  if e.2.1.rc = 0 then
    let run := Run.start asked operation goal endState a.degrees (e.2.1.token.getD 0)
    ({ s with host := .arming port run goal }, [.command port asked.line e])
  else ({ s with host := .replying asked e.2.1.rc }, [.backend e])

/-- `start_timed` and `start_degrees`, from the lock to the operation. -/
def start (s : System σ) (a : Answers) (asked : Asked) (port : Port) (operation : Operation)
    (goal : Goal) (endState : UInt8) : System σ × List Note :=
  if (s.pending port).isSome then ({ s with host := .replying asked (-EBUSY) }, [])
  else if a.now > maxClock - goal.span then ({ s with host := .replying asked (-EOVERFLOW) }, [])
  else
    match goal with
    | .timed _ => s.tag env a asked port operation goal endState
    | .degrees angle =>
      let s := s.encode a
      if a.encoderRc ≠ 0 then ({ s with host := .replying asked a.encoderRc }, [])
      else
        let speed := if angle < 0 then -operation.speed else operation.speed
        s.tag env a asked port { operation with speed := speed } goal endState

/-- The rest of them: a run that cannot be timed is not started. -/
def arm (s : System σ) (a : Answers) (port : Port) (run : Run) (goal : Goal) :
    System σ × List Note :=
  let run := run.startAt goal (s.generation + 1) a.now
  let pending := Function.update s.pending port (some run)
  let (rc, armed) := armNext pending s.armed a.again a.timerFailure
  let endState :=
    match goal with
    | .timed _ => run.endState
    | .degrees _ => 1
  if rc < 0 then
    ({ s with
        generation := s.generation + 1, armed := armed, host := .ending port run endState rc },
      [])
  else
    ({ s with pending := pending, generation := s.generation + 1, armed := armed, host := .idle },
      [.started port run.asked.line])

/-- `cancel_port`, before the timer is stopped. -/
def cancel (s : System σ) (asked : Asked) (port : Port) : System σ × List Note :=
  match s.pending port with
  | none => ({ s with host := .replying asked 0 }, [])
  | some run =>
    ({ s with pending := Function.update s.pending port none, host := .stopping asked run },
      [.over port run.asked.line])

/-- `cancel_port`, behind it. -/
def rearm (s : System σ) (a : Answers) (asked : Asked) (canceled : Run) : System σ × List Note :=
  let (rc, armed) := armNext s.pending s.armed a.now a.timerFailure
  if rc < 0 then
    ({ s with
        pending := .empty
        armed := armed
        host := .resolving asked canceled ⟨s.pending.runs, rc, none⟩ }, overAll s.pending)
  else ({ s with armed := armed, host := .resolving asked canceled ⟨[], rc, none⟩ }, [])

/-- `btsensor_classic_link_state`, before the timer is stopped. -/
def disconnect (s : System σ) (link : Nat) (connected : Bool) : System σ × List Note :=
  if link ≠ linkClassic ∨ connected = true then (s, [])
  else
    ({ s with pending := .empty, host := .disconnecting s.pending.runs },
      s.pending.runs.map fun r => .discarded r.1 r.2.asked)

def hostStep (s : System σ) (a : Answers) : System σ × List Note :=
  match s.host with
  | .idle => (s, [])
  | .sounding operation =>
    let (_, notes, s) := s.operate env a operation
    ({ s with host := .idle }, notes)
  | .snapshot asked =>
    let (notes, rc) := currentState a
    ({ s with host := .replying asked rc }, notes)
  | .checking asked port operation =>
    if (s.pending port).isSome then ({ s with host := .replying asked (-EBUSY) }, [])
    else ({ s with host := .operating asked operation none }, [])
  | .operating asked operation cancel =>
    let (rc, notes, s) := s.operate env a operation
    match cancel with
    | some port =>
      ({ s with host := if rc = 0 then .canceling asked port else .replying asked rc }, notes)
    | none => ({ s with host := .replying asked rc }, notes)
  | .starting asked port operation goal endState => s.start env a asked port operation goal endState
  | .arming port run goal => s.arm a port run goal
  | .ending port run endState rc =>
    let (_, notes, s) := s.endOwned env port run endState
    ({ s with host := .replying run.asked rc }, notes)
  | .canceling asked port => s.cancel asked port
  | .stopping asked canceled =>
    match s.timer with
    | .idle => ({ s with armed := none, host := .rearming asked canceled }, [])
    | _ => (s, [])
  | .rearming asked canceled => s.rearm a asked canceled
  | .resolving asked canceled failed =>
    ({ s with host := .aborting asked failed }, canceled.asked.reply 0)
  | .aborting asked failed =>
    match s.abort env failed with
    | none => ({ s with host := .replying asked 0 }, [])
    | some (notes, failed, s) => ({ s with host := .aborting asked failed }, notes)
  | .replying asked rc => ({ s with host := .idle }, asked.reply rc)
  | .disconnecting canceled =>
    match s.timer with
    | .idle => ({ s with armed := none, host := .releasing canceled }, [])
    | _ => (s, [])
  | .releasing [] => ({ s with host := .idle }, [])
  | .releasing ((port, run) :: rest) =>
    let (_, notes, s) := s.endOwned env port run 1
    ({ s with host := .releasing rest }, notes)

/-! ## The thread of the scheduler -/

/-- The head of the loop of `btsensor_classic_timer_fired`. -/
def visit (s : System σ) (a : Answers) (port : Port) : System σ × List Note :=
  let next : Timer := .visiting (port + 1)
  match s.pending port with
  | none => ({ s with timer := next }, [])
  | some run =>
    if run.deadlineMs > a.now then ({ s with timer := next }, [])
    else if run.degrees = false then ({ s with timer := .ending port run 0 }, [])
    else
      let s := s.encode a
      let (rc, moved) := run.measure a.encoderRc a.degrees a.again
      if moved.GoesOn rc a.again then
        let moved := { moved with deadlineMs := a.again + encoderPollMs }
        ({ s with pending := Function.update s.pending port (some moved), timer := next }, [])
      else
        let motionResult := if rc = 0 ∧ ¬ moved.Reached then -ETIMEDOUT else rc
        ({ s with
            pending := Function.update s.pending port (some moved)
            timer := .ending port run motionResult }, [])

/-- The run is over, if it is still there. -/
def finish (s : System σ) (port : Port) (completed : Run) (rc : Int) : System σ × List Note :=
  let next : Timer := .visiting (port + 1)
  match s.pending port with
  | none => ({ s with timer := next }, [])
  | some run =>
    if run.generation = completed.generation then
      ({ s with
          pending := Function.update s.pending port none
          timer := .replying port completed rc }, [.over port completed.asked.line])
    else ({ s with timer := next }, [])

def fired (s : System σ) (a : Answers) : System σ × List Note :=
  let (rc, armed) := armNext s.pending s.armed a.now a.timerFailure
  if rc < 0 then
    ({ s with pending := .empty, armed := armed, timer := .aborting ⟨s.pending.runs, rc, none⟩ },
      overAll s.pending)
  else ({ s with armed := armed, timer := .idle }, [])

/-- The next section of the thread; one that takes the lock waits for it. -/
def timerStep (s : System σ) (a : Answers) : System σ × List Note :=
  match s.timer with
  | .idle => (s, [])
  | .visiting port =>
    if s.host.HoldsLock then (s, [])
    else if h : port < 6 then s.visit a ⟨port, h⟩
    else s.fired a
  | .ending port completed motionResult =>
    let endState := if motionResult < 0 then 1 else completed.endState
    let (rc, notes, s) := s.endOwned env port completed endState
    ({ s with timer := .finishing port completed (if rc = 0 then motionResult else rc) }, notes)
  | .finishing port completed rc => if s.host.HoldsLock then (s, []) else s.finish port completed rc
  | .replying port completed rc =>
    ({ s with timer := .visiting (port + 1) }, completed.asked.reply rc)
  | .aborting failed =>
    match s.abort env failed with
    | none => ({ s with timer := .idle }, [])
    | some (notes, failed, s) => ({ s with timer := .aborting failed }, notes)

/-! ## The system -/

end System

inductive Event where
  /-- A line has arrived. -/
  | receive (link : Nat) (line : List UInt8)
  | linkState (link : Nat) (connected : Bool)
  | host (a : Answers)
  /-- The timer fires. -/
  | fire
  | timer (a : Answers)
  /-- Anybody else asks the port backend for something. -/
  | other (request : Backend.Request)

namespace System

variable (env : IoCall → σ → IoResult × σ)

/-- A line and a disconnect wait for the thread of the host, as the timer does for its own. -/
def step (s : System σ) : Event → System σ × List Note
  | .receive link line =>
    match s.host with
    | .idle => s.receive link line
    | _ => (s, [])
  | .linkState link connected =>
    match s.host with
    | .idle => s.disconnect link connected
    | _ => (s, [])
  | .host a => s.hostStep env a
  | .fire =>
    match s.timer, s.armed with
    | .idle, some _ => ({ s with armed := none, timer := .visiting 0 }, [])
    | _, _ => (s, [])
  | .timer a => s.timerStep env a
  | .other request =>
    let (e, s) := s.call env request
    (s, [.backend e])

theorem step_receive (s : System σ) {line : List UInt8} (request : Request) (todo : Todo)
    (hidle : s.host = .idle) (hsound : parseLegacySound line = none)
    (hrequest : parseRequest line = some request) (htodo : request.todo = todo) :
    (s.step env (.receive linkClassic line)).1 = { s with
      received := s.received + 1
      host := begin ⟨s.received, request.id⟩ todo } := by
  rw [step, hidle]
  rw [receive, if_neg (by decide), hsound, hrequest, ← htodo]

end System

def machine (env : IoCall → σ → IoResult × σ) : Machine (System σ) Event (List Note) where
  step := System.step env

/-- Behind `btsensor_classic_init`. -/
def boot (context : σ) : System σ where
  pending := .empty
  generation := 0
  armed := none
  host := .idle
  timer := .idle
  backend := Backend.boot
  context := context
  received := 0

end Brickwright.Btsensor.Classic
