import Brickwright.HubProgram.Storage.Basic
import Brickwright.HubProgram.Upload.Steps

/-!
# The program service (`apps/hubprogram/service.c`)

All transports talk to one program under one lock: the packet transports through
`bw_program_service_request`, a debugger through a mailbox that every tick looks at. A worker ticks
the program and executes Python; it gives the lock up for the execution, between the section that
marks Python active and the one that clears the mark.

Every critical section is one event, so a run is an interleaving. What the sections do that a
history should remember (answers, marks, clears) is their output.

`bw_device_release` and `bw_device_snapshot` touch only the state of the devices and are left out,
as is what the mailbox publishes.
-/

namespace Brickwright.HubProgram.Service

/-- What the file system answers a request that saves or restores. -/
structure StorageIo where
  save : SaveIo
  restore : RestoreIo

structure State where
  hub : Hub
  /-- `/mnt/flash/brickwright.program`. -/
  files : Files
  initialized : Bool
  pythonActive : Bool
  /-- The tasks created, each with whether it executes Python. -/
  workers : List Bool
  /-- A call of the file system did not return; it holds the lock. -/
  blocked : Bool

/-- `struct bw_program` in zeroed memory, which has no callbacks. -/
def zeroProgram : Program := { Program.init ⟨false, false, false, false, false⟩ with moving := 0 }

def boot (respond : List HubProgram.Event → IoCall → IoResult) (files : Files) : State where
  hub := ⟨zeroProgram, Upload.init, ⟨respond, []⟩⟩
  files := files
  initialized := false
  pythonActive := false
  workers := []
  blocked := false

/-- What a history remembers: a request with its answer and the program stored afterwards, an
execution of a source text, and its end. -/
inductive Note where
  | answered (r : Request) (rc : Int) (stored : Stored)
  | marked (source : List UInt8)
  | cleared

/-! ## Requests -/

/-- The opcode as the service looks at it, before any check of the packet. -/
def opOf (data : Option (List UInt8)) : Nat :=
  match data with
  | some data => if data.length ≥ 3 then byteAt data 2 else 255
  | none => 255

def idOf (data : Option (List UInt8)) : Nat :=
  match data with
  | some data => if data.length ≥ 8 then get32 (data.drop 4) else 0
  | none => 0

def statusPacket : List UInt8 := [0x70, 1, 5, 0, 0, 0, 0, 0]

/-- The status request made in place of another one. -/
def statusRequest (r : Request) : Request := ⟨r.owner, r.now, some statusPacket⟩

/-- A restore from the file, if there is one. -/
def restoreFile (p : Program) (id : UInt32) (io : RestoreIo) (files : Files) :
    Option (Int × Program) :=
  match files.path with
  | some file => restore p id io file
  | none => restore p id { io with openError := some ⟨ENOENT, by decide⟩ } []

def storagePacket (r : Request) : Bool :=
  match r.data with
  | some data => decide (r.owner ≠ 0 ∧ data.length = 8 ∧ byteAt data 0 = 0x70 ∧ byteAt data 1 = 1 ∧
      byteAt data 3 = 0 ∧ idOf r.data ≠ 0)
  | none => false

/-- The return code of a request that is answered with a status, and what it does. -/
def storageCall (s : State) (r : Request) (io : StorageIo) : Option (Int × State) :=
  if s.pythonActive then some (-EBUSY, s)
  else if storagePacket r then
    if s.hub.upload.active = true ∨ s.hub.program.state = .running then some (-EBUSY, s)
    else if opOf r.data = 8 then
      (save s.hub.program (UInt32.ofNat (idOf r.data)) io.save s.files).map fun (rc, files) =>
        (rc, { s with files := files })
    else
      (restoreFile s.hub.program (UInt32.ofNat (idOf r.data)) io.restore s.files).map fun (rc, p) =>
        (rc, { s with hub := { s.hub with program := p } })
  else some (-EINVAL, s)

/-- A status request, whose answer the caller takes as a template. -/
def State.status (s : State) (r : Request) : State × List UInt8 :=
  let a := HubProgram.request s.hub (statusRequest r)
  ({ s with hub := a.1 }, a.2.reply)

/-- The requests that are answered with a status while Python is active, or always. -/
def diverted (s : State) (op : Nat) : Bool :=
  decide ((s.pythonActive = true ∧ (op = 0 ∨ op = 2 ∨ op = 3 ∨ op = 7)) ∨ op = 8 ∨ op = 9)

def requestLocked (s : State) (r : Request) (io : StorageIo) : Option (State × Answer) :=
  if diverted s (opOf r.data) then
    (storageCall (s.status r).1 r io).map fun (rc, s) =>
      let (s, reply) := s.status r
      (s, ⟨rc, ((reply.set 2 (UInt8.ofNat (opOf r.data))).overlay 4 (put32 (idOf r.data))).overlay 8
        (put32 (toUnsigned rc))⟩)
  else
    let a := HubProgram.request s.hub r
    some ({ s with hub := a.1 }, a.2)

def noted (r : Request) (x : State × Answer) : State × List Note :=
  (x.1, [.answered r x.2.rc x.1.hub.program.stored])

/-! ## Ticks -/

/-- What a tick meets: the clock, a packet in the mailbox, the file system and the result of
`bw_device_tick`. -/
structure TickIo where
  now : Nat
  mailbox : Option (List UInt8)
  storage : StorageIo
  device : Int

/-- `debug_locked`. An oversized packet counts as empty. -/
def debugLocked (s : State) (t : TickIo) : Option (State × List Note) :=
  match t.mailbox with
  | none => some (s, [])
  | some packet =>
    let r : Request := ⟨3, t.now, some (if packet.length > 20 then [] else packet)⟩
    (requestLocked s r t.storage).map (noted r)

def State.setProgram (s : State) (p : Program) (w : World) : State :=
  { s with hub := { s.hub with program := p, world := w } }

/-- `tick_locked`, behind the mailbox. -/
def tickProgram (s : State) (t : TickIo) : State :=
  let p := s.hub.program
  if p.state ≠ .running then s
  else if t.device < 0 ∨ sub64 t.now p.started ≥ timeLimit then
    let r := HubProgram.stop p s.hub.world
    s.setProgram
      { r.2.1 with state := .fault, error := if t.device < 0 then t.device else -ETIMEDOUT } r.2.2
  else if p.language = 0 ∨ p.ending = true then
    let r := HubProgram.tick p t.now s.hub.world
    s.setProgram r.1 r.2
  else s

def tickLocked (s : State) (t : TickIo) : Option (State × List Note) :=
  (debugLocked s t).map fun (s, notes) => (tickProgram s t, notes)

/-! ## The worker -/

/-- The C string at the start of an array. -/
def cString (source : List UInt8) : List UInt8 := source.takeWhile (· ≠ 0)

/-- A Python program that has been started and not executed. -/
def armed (p : Program) : Bool :=
  decide (p.state = .running ∧ p.language ≠ 0 ∧ p.ending = false)

/-- The first critical section of a round, up to the execution. -/
def workerBegin (s : State) (i : Nat) (t : TickIo) : Option (State × List Note) :=
  (tickLocked s t).map fun (s, notes) =>
    if armed s.hub.program ∧ s.pythonActive = false then
      ({ s with pythonActive := true, workers := s.workers.set i true },
        notes ++ [.marked (cString s.hub.program.source)])
    else (s, notes)

/-- The program when the execution has returned `rc`. -/
def executed (p : Program) (w : World) (rc : Int) : Program × World :=
  if p.state = .running then
    let r := HubProgram.stop p w
    let error := if rc < 0 then rc else r.1
    if rc < 0 ∨ r.1 < 0 then ({ r.2.1 with state := .fault, error := error }, r.2.2)
    else
      ({ r.2.1 with
        state := .running, ending := true, moving := -1, awaiting := 0, error := error }, r.2.2)
  else (p, w)

def workerEnd (s : State) (i : Nat) (rc : Int) : State :=
  let r := executed s.hub.program s.hub.world rc
  { s.setProgram r.1 r.2 with pythonActive := false, workers := s.workers.set i false }

/-! ## The entry points -/

/-- The callbacks of `bw_device_init`. -/
def deviceIo : ProgramIo := ⟨true, true, true, true, true⟩

/-- `bw_program_service_init`; the error is that of `task_create`. -/
def init (s : State) (error : Option Errno) : Int × State :=
  if s.initialized then (0, s)
  else
    let s := s.setProgram (Program.init deviceIo) s.hub.world
    match error with
    | none => (0, { s with initialized := true, workers := s.workers ++ [false] })
    | some e => (-e.1, s)

/-- `bw_program_service_request`. -/
def serviceRequest (s : State) (r : Request) (error : Option Errno) (io : StorageIo) :
    Option (State × List Note) :=
  let (rc, s) := init s error
  if rc < 0 then some (s, [.answered r rc s.hub.program.stored])
  else (requestLocked s r io).map (noted r)

/-- `bw_program_service_stop`. -/
def serviceStop (s : State) : State :=
  if s.initialized then
    let r := HubProgram.stop s.hub.program s.hub.world
    { s with hub := ⟨r.2.1, Upload.init, r.2.2⟩ }
  else s

/-- `bw_program_service_motor` and `bw_program_service_position`. -/
def drive (s : State) (port : Nat) (call : IoCall) : State :=
  if s.hub.program.state ≠ .running ∨ port ≥ portCount then s
  else
    s.setProgram { s.hub.program with owned := s.hub.program.owned ||| 1 <<< port }
      (s.hub.world.call call).2

/-- `bw_program_service_done`. -/
def serviceDone (s : State) (port : Nat) : State :=
  if port ≥ portCount then s else s.setProgram s.hub.program (s.hub.world.call (.done port)).2

/-- `bw_program_service_sensor`. -/
def serviceSensor (s : State) (predicate : Nat) : State :=
  if s.hub.program.state ≠ .running ∨ s.hub.program.io.sensor = false then s
  else s.setProgram s.hub.program (s.hub.world.call (.sensor predicate)).2

/-! ## The machine -/

inductive Event where
  | init (error : Option Errno)
  | request (r : Request) (error : Option Errno) (io : StorageIo)
  | poll (t : TickIo)
  | workerBegin (i : Nat) (t : TickIo)
  | workerEnd (i : Nat) (rc : Int)
  | stop
  | motor (port : Nat) (speed : Int)
  | position (port : Nat) (degrees speed : Int)
  | done (port : Nat)
  | sensor (predicate : Nat)

/-- One critical section. A worker's section stands only where that worker is. -/
def critical (s : State) : Event → Option (State × List Note)
  | .init error => some ((init s error).2, [])
  | .request r error io => serviceRequest s r error io
  | .poll t => tickLocked s t
  | .workerBegin i t => if s.workers[i]? = some false then workerBegin s i t else some (s, [])
  | .workerEnd i rc =>
    if s.workers[i]? = some true then some (workerEnd s i rc, [.cleared]) else some (s, [])
  | .stop => some (serviceStop s, [])
  | .motor port speed => some (drive s port (.motor port speed), [])
  | .position port degrees speed => some (drive s port (.position port degrees speed), [])
  | .done port => some (serviceDone s port, [])
  | .sensor predicate => some (serviceSensor s predicate, [])

def machine : Machine State Event (List Note) where
  step s e :=
    if s.blocked then (s, [])
    else
      match critical s e with
      | some r => r
      | none => ({ s with blocked := true }, [])

def history (s : State) (events : List Event) : List Note :=
  (machine.trace s events).flatMap Prod.snd

end Brickwright.HubProgram.Service
