import Brickwright.HubProgram.Program.Basic
import Brickwright.Lump.Queue
import Brickwright.Lump.Requests.Basic
import Brickwright.Machine.History

/-!
# The sensors of a program (`apps/hubprogram/device.c`)

A read of a sensor is a sequence of system calls on the device file of a port. One input takes it
through one critical section of one of them and the code behind it; the port's own thread may go on
between two inputs. The service calls in here under its lock, so there is one read at a time.

The motors are left out: their calls, their fields of `struct port_state`, and what `poll_port`,
`bw_device_tick` and `bw_device_release` do for a port that has one.
-/

namespace Brickwright.HubProgram.Device

open Lump (DataFrame DeviceInfo Engine SessionFrame)

def ENODEV : Int := 19
def ESTALE : Int := 116

/-- `BW_PROGRAM_PORT_COUNT`. -/
def portCount : Nat := 6

structure PortState where
  fd : Int
  /-- `none` is -1. -/
  mode : Option UInt8
  valid : Bool
  type : UInt8
  value : Int
  sampled : Nat

/-- What `bw_device_init` and `bw_device_release` leave. -/
def PortState.reset : PortState := ⟨-1, none, false, 0, 0, 0⟩

/-- `poll_port` behind its loop. -/
def PortState.refresh (p : PortState) (updated : Bool) (now : Nat) : PortState :=
  if updated then { p with sampled := now, valid := true } else p

/-- A newly attached device must not reuse samples. -/
def PortState.attach (p : PortState) (typeId : UInt8) : PortState :=
  if p.type ≠ typeId then { p with valid := false, mode := none } else p

/-- A read in progress: what `open_port` is called with, and the caller's `*value`. -/
structure Access where
  port : Nat
  type : UInt8
  mode : UInt8
  /-- A read by `explicit_distance`. -/
  explicit : Bool
  value : Int

/-- Where a read is: about to make a system call. -/
inductive Pc where
  | idle
  /-- `open`. -/
  | opening (a : Access)
  /-- `LEGOPORT_LUMP_GET_INFO`. -/
  | asking (a : Access)
  /-- `LEGOPORT_LUMP_SELECT`, and between its checks and its request. -/
  | selecting (a : Access) (typeId : UInt8)
  | posting (a : Access) (typeId : UInt8) (request : Lump.Request)
  /-- `LEGOPORT_LUMP_POLL_DATA`, with what is left of the budget. -/
  | polling (a : Access) (budget : Nat) (updated : Bool)
  /-- `LEGOPORT_LUMP_POLL_DATA_SESSION`. -/
  | reading (a : Access)

structure State where
  /-- The engines of the ports. -/
  engines : Nat → Engine
  ports : Nat → PortState
  now : Nat
  /-- `g_sensor_sessions` and `g_sensor_stale`. -/
  sessions : Nat → UInt64
  stale : Nat → Bool
  pc : Pc

inductive Note where
  /-- A synchronization of the port's device has begun a session, and a frame was queued. -/
  | begun (port : Nat)
  | pushed (port : Nat) (frame : DataFrame)
  | initialised
  | released
  /-- An explicit read begins; it returns, with `*value` and the frame it took. -/
  | called (port : Nat)
  | returned (port : Nat) (rc : Int) (value : Int) (sample : Option SessionFrame)
  /-- Another read returns. -/
  | sensed (port : Nat) (rc : Int) (value : Int)
  | refused (rc : Int)

/-! ## The port's thread -/

/-- What it does under one of its locks. -/
inductive PortStep where
  /-- `info_lock`: what is known of the device changes, `SYNCED` is exposed or cleared. -/
  | info (info : DeviceInfo)
  /-- `dq_lock`; the queue is reset before a synchronization and invalidated behind the session. -/
  | reset
  | begin
  | push (frame : DataFrame)
  | invalidate
  /-- `tx_lock`: the requests are taken, to be sent or to be dropped. -/
  | take

namespace State

def setEngine (s : State) (i : Nat) (e : Engine) : State :=
  { s with engines := Function.update s.engines i e }

def setPort (s : State) (i : Nat) (p : PortState) : State :=
  { s with ports := Function.update s.ports i p }

def portStep (s : State) (i : Nat) : PortStep → State × List Note
  | .info info => (s.setEngine i { s.engines i with info := info }, [])
  | .reset =>
    (s.setEngine i { s.engines i with dq := { (s.engines i).dq.invalidate with dropped := 0 } }, [])
  | .begin =>
    let (rc, q) := (s.engines i).dq.begin
    (s.setEngine i { s.engines i with dq := q }, if rc = 0 then [.begun i] else [])
  | .push frame =>
    let (rc, q) := (s.engines i).dq.push frame
    (s.setEngine i { s.engines i with dq := q }, if rc = 0 then [.pushed i frame] else [])
  | .invalidate => (s.setEngine i { s.engines i with dq := (s.engines i).dq.invalidate }, [])
  | .take => (s.setEngine i (s.engines i).take, [])

/-! ## Return -/

def finish (s : State) (n : Note) : State × List Note := ({ s with pc := .idle }, [n])

/-- An error of `open_port`. -/
def fail (s : State) (a : Access) (rc : Int) : State × List Note :=
  s.finish (if a.explicit then .returned a.port rc a.value none else .sensed a.port rc a.value)

/-! ## `poll_port` -/

/-- The distance in a frame of mode 0 of the ultrasonic sensor. -/
def distance (frame : DataFrame) : Int :=
  let raw := (frame.data.getD 0 0).toUInt16 ||| (frame.data.getD 1 0).toUInt16 <<< 8
  if raw = 0xffff then -1 else raw.toNat

def pollDone (s : State) (a : Access) (updated : Bool) : State × List Note :=
  let p := (s.ports a.port).refresh updated s.now
  let s := s.setPort a.port p
  if p.valid = true ∧ p.sampled ≤ s.now ∧ s.now - p.sampled ≤ 100 then
    s.finish (.sensed a.port 0 p.value)
  else s.finish (.sensed a.port (-EAGAIN) a.value)

def pollLoop (s : State) (a : Access) (updated : Bool) : Nat → State × List Note
  | 0 => s.pollDone a updated
  | budget + 1 => ({ s with pc := .polling a budget updated }, [])

def pollFrame (s : State) (a : Access) (budget : Nat) (updated : Bool) (frame : DataFrame) :
    State × List Note :=
  let p := s.ports a.port
  if some frame.mode ≠ p.mode then s.pollLoop a updated budget
  else if p.type = 62 then
    if frame.len < 2 then s.finish (.sensed a.port (-EPROTO) a.value)
    else (s.setPort a.port { p with value := distance frame }).pollLoop a true budget
  else if frame.len < 1 then s.finish (.sensed a.port (-EPROTO) a.value)
  else
    (s.setPort a.port { p with value := (frame.data.getD 0 0).toNat }).pollLoop a true budget

/-- Behind `LEGOPORT_LUMP_POLL_DATA`. -/
def polled (s : State) (a : Access) (budget : Nat) (updated : Bool) (rc : Int) :
    State × List Note :=
  if rc = -EAGAIN then s.pollDone a updated
  else if rc < 0 then s.finish (.sensed a.port rc a.value)
  else
    match (s.engines a.port).dq.pop with
    | (none, _) => s.pollDone a updated
    | (some (_, frame), q) =>
      (s.setEngine a.port { s.engines a.port with dq := q }).pollFrame a budget updated frame

/-! ## `explicit_distance` -/

def explicitSample (s : State) (a : Access) (x : SessionFrame) : State × List Note :=
  if x.session = 0 then s.finish (.returned a.port (-EPROTO) a.value (some x))
  else if s.sessions a.port ≠ 0 ∧ x.session ≠ s.sessions a.port then
    { s with stale := Function.update s.stale a.port true }.finish
      (.returned a.port (-ESTALE) a.value (some x))
  else if x.frame.mode ≠ 0 ∨ x.frame.len < 2 ∨ x.frame.len.toNat > Lump.maxPayload then
    s.finish (.returned a.port (-EPROTO) a.value (some x))
  else
    { s with sessions := Function.update s.sessions a.port x.session }.finish
      (.returned a.port 0 (distance x.frame) (some x))

/-- Behind `LEGOPORT_LUMP_POLL_DATA_SESSION`. -/
def read (s : State) (a : Access) (rc : Int) : State × List Note :=
  if rc < 0 then s.finish (.returned a.port rc a.value none)
  else
    match (s.engines a.port).dq.pop with
    | (none, _) => s.finish (.returned a.port (-EAGAIN) a.value none)
    | (some (session, frame), q) =>
      (s.setEngine a.port { s.engines a.port with dq := q }).explicitSample a ⟨session, frame, 0⟩

/-! ## `open_port` -/

def access (s : State) (a : Access) : State × List Note :=
  if a.explicit then ({ s with pc := .reading a }, []) else s.pollLoop a false 16

def isMotor (type : UInt8) : Prop := type = 48 ∨ type = 49 ∨ type = 46 ∨ type = 65

instance (type : UInt8) : Decidable (isMotor type) := inferInstanceAs (Decidable (_ ∨ _))

/-- The device is not of the type asked for; 48 is any motor. -/
def wrongType (type typeId : UInt8) : Prop := if type = 48 then ¬ isMotor typeId else typeId ≠ type

instance (type typeId : UInt8) : Decidable (wrongType type typeId) :=
  inferInstanceAs (Decidable (if type = 48 then ¬ isMotor typeId else typeId ≠ type))

def openPort (s : State) (a : Access) : State × List Note :=
  if a.port ≥ portCount then s.fail a (-EINVAL)
  else if (s.ports a.port).fd < 0 then ({ s with pc := .opening a }, [])
  else ({ s with pc := .asking a }, [])

/-- Behind `open`. -/
def opened (s : State) (a : Access) (rc : Int) : State × List Note :=
  if rc < 0 then (s.setPort a.port { s.ports a.port with fd := -1 }).fail a rc
  else ({ s.setPort a.port { s.ports a.port with fd := rc } with pc := .asking a }, [])

/-- `lump_get_info`. -/
def getInfo (e : Engine) : Int × Option DeviceInfo :=
  if e.info.flags &&& Lump.flagSynced = 0 then (-EAGAIN, none) else (0, some e.info)

/-- Behind `LEGOPORT_LUMP_GET_INFO`. -/
def asked (s : State) (a : Access) (rc : Int) : State × List Note :=
  if rc < 0 then s.fail a rc
  else
    match getInfo (s.engines a.port) with
    | (rc, none) => s.fail a rc
    | (_, some info) =>
      if info.flags &&& Lump.flagSynced = 0 then s.fail a (-EAGAIN)
      else if wrongType a.type info.typeId then s.fail a (-ENODEV)
      else
        let p := (s.ports a.port).attach info.typeId
        if p.mode ≠ some a.mode then
          ({ s.setPort a.port p with pc := .selecting a info.typeId }, [])
        else (s.setPort a.port { p with type := info.typeId }).access a

/-- The first half of `LEGOPORT_LUMP_SELECT`. -/
def checked (s : State) (a : Access) (typeId : UInt8) (rc : Int) : State × List Note :=
  if rc < 0 then s.fail a rc
  else
    match (s.engines a.port).checkSelect a.mode with
    | (rc, none) => s.fail a rc
    | (_, some request) => ({ s with pc := .posting a typeId request }, [])

def selected (s : State) (a : Access) (typeId : UInt8) (request : Lump.Request) :
    State × List Note :=
  let s := s.setEngine a.port ((s.engines a.port).post request)
  let p := s.ports a.port
  (s.setPort a.port { p with mode := some a.mode, valid := false, type := typeId }).access a

/-! ## The calls -/

/-- `bw_sensor_predicate`. -/
def sensorPredicate (selector : Nat) : Nat :=
  if 1 ≤ selector ∧ selector ≤ 6 then selector
  else if selector < 0x100 then 0
  else
    let port := (selector - 0x100) >>> 3
    let predicate := (selector - 0x100) &&& 7
    if port < 6 ∧ (predicate = 1 ∨ predicate = 2) then predicate else 0

def explicitDistance (s : State) (port : Nat) (value : Int) : State × List Note :=
  let a : Access := ⟨port, 62, 0, true, value⟩
  let (s, notes) := if s.stale port then s.fail a (-ESTALE) else s.openPort a
  (s, .called port :: notes)

def sensor (s : State) (predicate : Nat) : Option Int → State × List Note
  | none => (s, [.refused (-EINVAL)])
  | some value =>
    if sensorPredicate predicate = 0 then (s, [.refused (-EINVAL)])
    else if predicate ≥ 0x100 then s.explicitDistance ((predicate - 0x100) >>> 3) value
    else if predicate = 1 ∨ predicate = 2 then s.openPort ⟨3, 62, 0, false, value⟩
    else if predicate = 3 then s.openPort ⟨4, 63, 1, false, value⟩
    else if 4 ≤ predicate ∧ predicate ≤ 6 then
      s.openPort ⟨2, 61, if predicate = 4 then 0 else 1, false, value⟩
    else (s, [.refused (-EINVAL)])

/-- `bw_device_init`. -/
def init (s : State) : State × List Note :=
  ({ s with
      ports := fun _ => PortState.reset, now := 0, sessions := fun _ => 0,
       stale := fun _ => false },
    [.initialised])

/-- `bw_device_release`. -/
def release (s : State) : State × List Note :=
  ({ s with
      ports := fun _ => PortState.reset, sessions := fun _ => 0, stale := fun _ => false },
    [.released])

/-- `bw_device_tick`, with no motor in use. -/
def tick (s : State) (now : Nat) : State × List Note :=
  if now < s.now then (s, []) else ({ s with now := now }, [])

/-- The next section of the read in progress, where `rc` is the new file descriptor or an error of
the system call before it gets to the driver. -/
def resume (s : State) (rc : Int) : State × List Note :=
  match s.pc with
  | .idle => (s, [])
  | .opening a => s.opened a rc
  | .asking a => s.asked a rc
  | .selecting a typeId => s.checked a typeId rc
  | .posting a typeId request => s.selected a typeId request
  | .polling a budget updated => s.polled a budget updated rc
  | .reading a => s.read a rc

end State

/-- A call begins when none is in progress. -/
inductive Event where
  | port (i : Nat) (step : PortStep)
  | init
  | release
  | tick (now : Nat)
  | sensor (predicate : Nat) (value : Option Int)
  | resume (rc : Int)

def State.whenIdle (s : State) (r : State × List Note) : State × List Note :=
  match s.pc with
  | .idle => r
  | _ => (s, [])

def device : Machine State Event (List Note) where
  step s
    | .port i step => s.portStep i step
    | .init => s.whenIdle s.init
    | .release => s.whenIdle s.release
    | .tick now => s.whenIdle (s.tick now)
    | .sensor predicate value => s.whenIdle (s.sensor predicate value)
    | .resume rc => s.resume rc

/-- After the first `bw_device_init` of a boot. -/
def start : State where
  engines := fun _ => Engine.boot false false
  ports := fun _ => PortState.reset
  now := 0
  sessions := fun _ => 0
  stale := fun _ => false
  pc := .idle

end Brickwright.HubProgram.Device
