import Brickwright.Bytes.Buffers
import Mathlib.Data.List.GetD

/-!
# The program interpreter (`apps/hubprogram/program.c`)

One committed program, in one of two languages, and the state of its execution. The functions below
follow `program.c` and `sensor_selector.h` line by line; a C `return` in the middle of
`bw_program_tick` ends the corresponding stage, so the function is cut at the points where it goes
on (`tickMoving`, `tickAwaiting`, `tickEnding`, `interpret`).

The callbacks of `struct bw_program_io` are the outside world. `World` answers each of them from the
whole history of calls, so quantifying over worlds quantifies over every sequence of results, and
its `log` keeps what was asked. Two kinds of entries are not calls: `fetch` marks the top of the
interpreter loop and `protocolFault` the two places that raise `-EPROTO`.
-/

namespace Brickwright.HubProgram

/-! ## Errors and limits -/

def EAGAIN : Int := 11
def EBUSY : Int := 16
def EINVAL : Int := 22
def ERANGE : Int := 34
def ENOSYS : Int := 38
def EPROTO : Int := 71
def EBADMSG : Int := 74
def ETIMEDOUT : Int := 110

def portCount : Nat := 6
def programLimit : Nat := 256
def timeLimit : Nat := 120000
def portMask : Nat := 2 ^ portCount - 1

/-- The C conversion of an `int` to `unsigned`. -/
def toUnsigned (v : Int) : Nat := (v % 2 ^ 32).toNat

/-- `uint64_t` subtraction. -/
def sub64 (a b : Nat) : Nat := (a + 2 ^ 64 - b) % 2 ^ 64

/-! ## Programs -/

structure Instruction where
  op : Int
  a : Int
  b : Int
  c : Int
  deriving DecidableEq, Repr

inductive ProgramState where
  | empty | ready | running | complete | stopped | fault
  deriving DecidableEq, Repr

/-- The value of the C enumeration, as replies report it. -/
def ProgramState.code : ProgramState → Nat
  | .empty => 0 | .ready => 1 | .running => 2 | .complete => 3 | .stopped => 4 | .fault => 5

/-- Which callbacks of `struct bw_program_io` are present. -/
structure ProgramIo where
  motor : Bool
  position : Bool
  done : Bool
  brake : Bool
  sensor : Bool
  deriving DecidableEq, Repr

structure Program where
  code : List Instruction
  source : List UInt8
  language : Nat
  io : ProgramIo
  count : Nat
  pc : Nat
  id : Nat
  owned : Nat
  state : ProgramState
  error : Int
  moving : Int
  started : Nat
  deadline : Nat
  lastTick : Nat
  waiting : Bool
  ending : Bool
  awaiting : Nat
  deriving DecidableEq

/-! ## The outside world -/

inductive IoCall where
  | motor (port : Nat) (speedDps : Int)
  | position (port : Nat) (degrees speedDps : Int)
  | done (port : Nat)
  | brake (port : Nat)
  | sensor (selector : Nat)
  deriving DecidableEq, Repr

/-- A callback's return value; `value` is what the sensor callback stores through its pointer. -/
structure IoResult where
  rc : Int
  value : Int
  deriving DecidableEq, Repr

inductive Event where
  | call (c : IoCall) (r : IoResult)
  | fetch (pc count : Nat) (op : Option Int)
  | protocolFault
  deriving DecidableEq, Repr

structure World where
  respond : List Event → IoCall → IoResult
  log : List Event

namespace World

def observe (w : World) (e : Event) : World := { w with log := w.log ++ [e] }

def call (w : World) (c : IoCall) : IoResult × World :=
  (w.respond w.log c, w.observe (.call c (w.respond w.log c)))

@[simp] theorem log_observe (w : World) (e : Event) : (w.observe e).log = w.log ++ [e] := rfl

end World

/-! ## The static validator -/

def between (v low high : Int) : Bool := decide (v ≥ low) && decide (v ≤ high)

/-- `bw_sensor_predicate`: the plain predicates, or the distance predicate of an addressed token. -/
def sensorPredicate (selector : Nat) : Nat :=
  if 1 ≤ selector ∧ selector ≤ 6 then selector
  else if selector < 0x100 then 0
  else
    let port := (selector - 0x100) >>> 3
    let predicate := (selector - 0x100) &&& 7
    if port < 6 ∧ (predicate = 1 ∨ predicate = 2) then predicate else 0

def predicate (selector value : Int) : Bool :=
  let selector := sensorPredicate (toUnsigned selector)
  if selector = 1 ∨ selector = 2 then between value 0 65535
  else if selector = 3 then between value 0 1
  else if selector = 4 then between value 0 255
  else decide (selector = 5 ∨ selector = 6) && between value 0 100

/-- The `switch` of `bw_program_validate`: whether one row is well formed in a program of `count`
rows. -/
def rowValid (count : Nat) (p : Instruction) : Bool :=
  match p.op with
  | 0 => decide (p.a = 0) && decide (p.b = 0) && decide (p.c = 0)
  | 1 => between p.a 0 (portCount - 1) && between p.b (-1110) 1110 && decide (p.c = 0)
  | 2 => between p.a 0 120000 && decide (p.b = 0) && decide (p.c = 0)
  | 3 => predicate p.a p.b && decide (p.c = 0)
  | 4 => between p.a 0 (count - 1) && decide (p.b = 0) && decide (p.c = 0)
  | 5 => predicate p.a p.b && between p.c 0 (count - 1)
  | 6 => between p.a 0 (portCount - 1) && between p.b (-36000) 36000 && between p.c 1 1110
  | 7 => between p.a 0 (portCount - 1) && between p.b (-36000) 36000 && between p.c 1 1110
  | 8 => between p.a 1 portMask && decide (p.b = 0) && decide (p.c = 0)
  | _ => false

/-- `bw_program_validate`; `none` is the null pointer. -/
def validate (code : Option (List Instruction)) : Int :=
  match code with
  | none => -EINVAL
  | some code =>
    if code.length = 0 ∨ programLimit < code.length then -EINVAL
    else if code.all (rowValid code.length) then
      if (code.getD (code.length - 1) ⟨0, 0, 0, 0⟩).op = 0 then 0 else -EINVAL
    else -EINVAL

/-! ## Loading and starting -/

/-- `bw_program_init`: every byte zero, no move in progress. -/
def Program.init (io : ProgramIo) : Program where
  code := List.replicate programLimit ⟨0, 0, 0, 0⟩
  source := List.replicate 4096 0
  language := 0
  io := io
  count := 0
  pc := 0
  id := 0
  owned := 0
  state := .empty
  error := 0
  moving := -1
  started := 0
  deadline := 0
  lastTick := 0
  waiting := false
  ending := false
  awaiting := 0

/-- `bw_program_load`. -/
def load (p : Program) (id : Nat) (code : Option (List Instruction)) : Int × Program :=
  if p.state = .running then (-EBUSY, p)
  else if id = 0 then (-EINVAL, p)
  else if validate code < 0 then (validate code, p)
  else
    let rows := code.getD []
    (0, { p with
      code := p.code.overlay 0 rows, language := 0, source := p.source.set 0 0
      count := rows.length, id := id, pc := 0, error := 0, owned := 0, moving := -1
      waiting := false, ending := false, awaiting := 0, state := .ready })

/-- `bw_program_start`. -/
def start (p : Program) (id now : Nat) : Int × Program :=
  if p.state = .running then (-EBUSY, p)
  else if (p.state ≠ .ready ∧ p.state ≠ .complete ∧ p.state ≠ .stopped ∧ p.state ≠ .fault) ∨
      p.id ≠ id ∨ now > 2 ^ 64 - 1 - timeLimit then (-EINVAL, p)
  else if !p.io.motor || !p.io.position || !p.io.done || !p.io.brake || !p.io.sensor then
    (-ENOSYS, p)
  else
    (0, { p with
      pc := 0, owned := 0, moving := -1, waiting := false, ending := false, awaiting := 0
      deadline := 0, started := now, lastTick := now, error := 0, state := .running })

/-! ## Braking -/

/-- One round of the loop in `brake_owned`; `result` keeps the first failure. -/
def brakePort (p : Program) (acc : Int × World) (port : Nat) : Int × World :=
  if p.owned.testBit port then
    let r := acc.2.call (.brake port)
    (if r.1.rc < 0 ∧ acc.1 = 0 then r.1.rc else acc.1, r.2)
  else acc

def brakeOwned (p : Program) (w : World) : Int × World :=
  (List.range portCount).foldl (brakePort p) (0, w)

/-- `fault`: brake whatever the outcome, then record the error. -/
def fault (p : Program) (error : Int) (w : World) : Program × World :=
  ({ p with error := error, state := .fault }, (brakeOwned p w).2)

/-- `bw_program_stop`. -/
def stop (p : Program) (w : World) : Int × Program × World :=
  let r := brakeOwned p w
  if r.1 < 0 then (r.1, fault p r.1 r.2)
  else if p.state ≠ .empty then (r.1, { p with state := .stopped }, r.2)
  else (r.1, p, r.2)

/-! ## The interpreter -/

/-- What `condition` makes of a sensor reading. -/
def conditionHolds (predicate : Nat) (value threshold : Int) : Bool :=
  if (predicate = 1 ∨ predicate = 2) ∧ value < 0 then false
  else if predicate = 1 ∨ predicate = 5 then decide (value < threshold)
  else if predicate = 2 ∨ predicate = 6 then decide (value > threshold)
  else decide (value = threshold)

/-- `condition`: 0 or 1, or the sensor's error; `-EAGAIN` counts as not yet. -/
def condition (selector threshold : Int) (w : World) : Int × World :=
  let r := w.call (.sensor (toUnsigned selector))
  if r.1.rc = -EAGAIN then (0, r.2)
  else if r.1.rc < 0 then (r.1.rc, r.2)
  else
    (if conditionHolds (sensorPredicate (toUnsigned selector)) r.1.value threshold then 1 else 0,
      r.2)

/-- How the body of the interpreter loop ends: with a C `return`, or with a `break` out of the
`switch` into the next round. -/
inductive Control where
  | ret (r : Program × World)
  | next (p : Program) (w : World)

/-- Add a port to the owned set, as every opcode that drives one does before its call. -/
def Program.own (p : Program) (port : Int) : Program :=
  { p with owned := p.owned ||| 1 <<< toUnsigned port }

/-- The `switch` on the opcode. -/
def execute (now : Nat) (p : Program) (ins : Instruction) (w : World) : Control :=
  match ins.op with
  | 0 =>
    let r := brakeOwned p w
    if r.1 < 0 then .ret (fault p r.1 r.2) else .ret ({ p with ending := true }, r.2)
  | 1 =>
    let p := p.own ins.a
    let r := w.call (.motor (toUnsigned ins.a) ins.b)
    if r.1.rc < 0 then .ret (fault p r.1.rc r.2) else .next { p with pc := p.pc + 1 } r.2
  | 2 =>
    let delay := toUnsigned (if ins.a ≠ 0 then ins.a else 1)
    .ret ({ p with deadline := (now + delay) % 2 ^ 64, waiting := true, pc := p.pc + 1 }, w)
  | 3 =>
    -- Not yet: the next tick fetches the same row.
    let r := condition ins.a ins.b w
    if r.1 < 0 then .ret (fault p r.1 r.2)
    else if r.1 = 0 then .ret (p, r.2)
    else .next { p with pc := p.pc + 1 } r.2
  | 4 => .next { p with pc := toUnsigned ins.a } w
  | 5 =>
    let r := condition ins.a ins.b w
    if r.1 < 0 then .ret (fault p r.1 r.2)
    else .next { p with pc := if r.1 ≠ 0 then toUnsigned ins.c else p.pc + 1 } r.2
  | 6 =>
    let p := p.own ins.a
    let r := w.call (.position (toUnsigned ins.a) ins.b ins.c)
    if r.1.rc < 0 then .ret (fault p r.1.rc r.2)
    else .ret ({ p with moving := ins.a, pc := p.pc + 1 }, r.2)
  | 7 =>
    -- As 6, but the program goes on while the port moves.
    let p := p.own ins.a
    let r := w.call (.position (toUnsigned ins.a) ins.b ins.c)
    if r.1.rc < 0 then .ret (fault p r.1.rc r.2) else .next { p with pc := p.pc + 1 } r.2
  | 8 => .ret ({ p with awaiting := toUnsigned ins.a, pc := p.pc + 1 }, w)
  | _ => .ret (fault p (-EPROTO) (w.observe .protocolFault))

/-- The row at `pc`, if the bound check of the loop lets it be fetched. -/
def Program.fetched (p : Program) : Option Instruction :=
  if p.count ≤ p.pc then none else some (p.code.getD p.pc ⟨0, 0, 0, 0⟩)

/-- The `while (budget--)` loop. -/
def interpret (now : Nat) : Nat → Program → World → Program × World
  -- The next tick goes on here.
  | 0, p, w => (p, w)
  | budget + 1, p, w =>
    let w := w.observe (.fetch p.pc p.count (p.fetched.map (·.op)))
    match p.fetched with
    | none => fault p (-EPROTO) (w.observe .protocolFault)
    | some ins =>
      match execute now p ins w with
      | .ret r => r
      | .next p w => interpret now budget p w

/-- Ask the ports of a mask, in order, whether they are done; the first one that fails or is still
pending answers for all. -/
def pollDone (mask : Nat) : List Nat → World → Option Int × World
  | [], w => (none, w)
  | port :: ports, w =>
    if mask.testBit port then
      let r := w.call (.done port)
      if r.1.rc ≤ 0 then (some r.1.rc, r.2) else pollDone mask ports r.2
    else pollDone mask ports w

def budget : Nat := 32

/-- The tick of an ending program: complete once every owned port is at rest. -/
def tickEnding (p : Program) (now : Nat) (w : World) : Program × World :=
  if p.ending then
    match pollDone p.owned (List.range portCount) w with
    | (some rc, w) => if rc < 0 then fault p rc w else (p, w)
    | (none, w) => ({ p with state := .complete }, w)
  else interpret now budget p w

def tickAwaiting (p : Program) (now : Nat) (w : World) : Program × World :=
  if p.awaiting ≠ 0 then
    match pollDone p.awaiting (List.range portCount) w with
    | (some rc, w) => if rc < 0 then fault p rc w else (p, w)
    | (none, w) => tickEnding { p with awaiting := 0 } now w
  else tickEnding p now w

def tickMoving (p : Program) (now : Nat) (w : World) : Program × World :=
  if p.moving ≥ 0 then
    let r := w.call (.done (toUnsigned p.moving))
    if r.1.rc < 0 then fault p r.1.rc r.2
    else if r.1.rc = 0 then (p, r.2)
    else tickAwaiting { p with moving := -1 } now r.2
  else tickAwaiting p now w

/-- `bw_program_tick`. -/
def tick (p : Program) (now : Nat) (w : World) : Program × World :=
  if p.state ≠ .running then (p, w)
  else if now < p.lastTick then fault p (-ERANGE) w
  else
    let p := { p with lastTick := now }
    if sub64 now p.started ≥ timeLimit then fault p (-ETIMEDOUT) w
    else if p.waiting ∧ now < p.deadline then (p, w)
    else tickMoving { p with waiting := false } now w

end Brickwright.HubProgram
