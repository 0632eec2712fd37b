import Brickwright.HubProgram.Program.Basic
import Brickwright.Machine.Basic

/-!
# The upload protocol (`apps/hubprogram/upload.c`)

One request packet at a time: begin, ordered chunks and commit move a program from a transport to
the interpreter through a single buffer, and start, stop, status and abort use the same packet. The
`switch` of `bw_program_request` is cut into one definition per opcode; everything else follows the
source.

The buffer is the memory of the C union. `decodeRows` is the loop of the instruction commit, which
writes each decoded field over the bytes it was read from, and `codeView` is what the interpreter's
loader then sees through the union's other member on the little-endian target.

`service` is the machine the transports talk to: requests from any owner, interleaved with the ticks
of the worker.
-/

namespace Brickwright.HubProgram

open Bytes

/-! ## Words on the wire -/

def byteAt (data : List UInt8) (i : Nat) : Nat := (data.getD i 0).toNat

def get32 (p : List UInt8) : Nat :=
  byteAt p 0 ||| byteAt p 1 <<< 8 ||| byteAt p 2 <<< 16 ||| byteAt p 3 <<< 24

def put32 (v : Nat) : List UInt8 :=
  [UInt8.ofNat v, UInt8.ofNat (v >>> 8), UInt8.ofNat (v >>> 16), UInt8.ofNat (v >>> 24)]

def put16 (v : Nat) : List UInt8 := [UInt8.ofNat v, UInt8.ofNat (v >>> 8)]

def crc32Bit (crc : UInt32) : UInt32 :=
  (crc >>> 1) ^^^ (if crc &&& 1 ≠ 0 then 0xedb88320 else 0)

/-- `bw_program_crc32`. -/
def crc32 (data : List UInt8) : UInt32 :=
  ~~~ data.foldl (fun crc byte => Nat.iterate crc32Bit 8 (crc ^^^ byte.toUInt32)) 0xffffffff

def signed32 (p : List UInt8) : Int :=
  if get32 p ≤ 0x7fffffff then get32 p else -((2 ^ 32 - 1 - get32 p : Nat) : Int) - 1

/-! ## The upload in progress -/

structure Upload where
  buffer : List UInt8
  id : Nat
  crc : Nat
  owner : Nat
  size : Nat
  received : Nat
  activity : Nat
  active : Bool
  language : Nat
  deriving DecidableEq

def Upload.init : Upload := ⟨List.replicate (programLimit * 16) 0, 0, 0, 0, 0, 0, 0, false, 0⟩

/-- The test at the top of every request: 30 seconds without an accepted packet, or a clock that
went back, end the upload. -/
def Upload.expire (u : Upload) (now : Nat) : Upload :=
  if u.active = true ∧ (now < u.activity ∨ now - u.activity ≥ 30000) then { u with active := false }
  else u

/-- What the upload has assembled so far. -/
def Upload.assembled (u : Upload) : List UInt8 := u.buffer.take u.received

/-! ## The union, seen as rows -/

/-- Store the decoded field over the bytes it was read from. -/
def decodeField (buffer : List UInt8) (off : Nat) : List UInt8 :=
  buffer.overlay off (int32Bytes (signed32 (buffer.drop off)))

def decodeRow (buffer : List UInt8) (i : Nat) : List UInt8 :=
  decodeField (decodeField (decodeField (decodeField buffer (16 * i)) (16 * i + 4)) (16 * i + 8))
    (16 * i + 12)

def decodeRows (count : Nat) (buffer : List UInt8) : List UInt8 :=
  (List.range count).foldl decodeRow buffer

/-- The word the machine loads from the union at an offset. -/
def wordAt (buffer : List UInt8) (off : Nat) : Int := int32 ((buffer.drop off).take 4)

/-- The union's `code[i]`. -/
def codeAt (buffer : List UInt8) (i : Nat) : Instruction where
  op := wordAt buffer (16 * i)
  a := wordAt buffer (16 * i + 4)
  b := wordAt buffer (16 * i + 8)
  c := wordAt buffer (16 * i + 12)

def codeView (buffer : List UInt8) (count : Nat) : List Instruction :=
  (List.range count).map (codeAt buffer)

/-! ## The opcodes -/

/-- Opcodes 0 and 7: begin an upload of instructions or of Python source. -/
def opBegin (op id owner now : Nat) (p : Program) (u : Upload) (data : List UInt8) : Int × Upload :=
  if data.length ≠ 16 then (-EINVAL, u)
  else if p.state = .running ∨ u.active = true then (-EBUSY, u)
  else
    let count := get32 (data.drop 8)
    if count = 0 ∨ count > (if op = 7 then 4095 else programLimit) then (-EINVAL, u)
    else
      (0, { u with
        id := id, owner := owner, crc := get32 (data.drop 12)
        language := if op = 7 then 1 else 0
        size := (if op = 7 then count else count * 16) % 2 ^ 16
        received := 0, active := true, activity := now })

def chunkOffset (data : List UInt8) : Nat := byteAt data 8 ||| byteAt data 9 <<< 8

/-- Opcode 1: an ordered chunk, or the retry of an accepted one. -/
def opChunk (id owner now : Nat) (u : Upload) (data : List UInt8) : Int × Upload :=
  if data.length < 11 ∨ u.active = false ∨ u.owner ≠ owner ∨ u.id ≠ id then (-EINVAL, u)
  else
    let offset := chunkOffset data
    let n := data.length - 10
    if offset + n > u.size then (-EINVAL, u)
    else if offset < u.received then
      -- A retry has to repeat what is stored.
      if offset + n ≤ u.received ∧ (u.buffer.drop offset).take n = data.drop 10 then
        (0, { u with activity := now })
      else (-EINVAL, u)
    else if offset = u.received then
      (0, { u with
        buffer := u.buffer.overlay offset (data.drop 10), received := (offset + n) % 2 ^ 16
        activity := now })
    else (-EINVAL, u)

/-- The Python half of a commit: the source, its terminating NUL and a program at rest. -/
def commitSource (p : Program) (id : Nat) (text : List UInt8) : Program :=
  { p with
    source := (p.source.overlay 0 text).set text.length 0
    language := 1, count := text.length, id := id, pc := 0, error := 0, owned := 0, moving := -1
    waiting := false, ending := false, awaiting := 0, state := .ready }

def opCommit (id owner : Nat) (p : Program) (u : Upload) (data : List UInt8) :
    Int × Program × Upload :=
  if data.length ≠ 8 ∨ u.active = false ∨ u.owner ≠ owner ∨ u.id ≠ id ∨ u.received ≠ u.size then
    (-EINVAL, p, u)
  else if (crc32 (u.buffer.take u.size)).toNat ≠ u.crc then
    (-EBADMSG, p, { u with active := false })
  else if u.language ≠ 0 then
    -- The source is stored as a C string.
    if 0 ∈ u.buffer.take u.size then (-EINVAL, p, { u with active := false })
    else if p.state = .running then (-EBUSY, p, u)
    else (0, commitSource p id (u.buffer.take u.size), { u with active := false })
  else
    let count := u.size / 16
    let buffer := decodeRows count u.buffer
    let r := load p id (some (codeView buffer count))
    (r.1, r.2, { u with buffer := buffer, active := false })

def opAbort (id owner : Nat) (u : Upload) (data : List UInt8) : Int × Upload :=
  if data.length ≠ 8 ∨ u.active = false ∨ id ≠ u.id ∨ owner ≠ u.owner then (-EINVAL, u)
  else (0, { u with active := false })

/-! ## One request -/

structure Hub where
  program : Program
  upload : Upload
  world : World

/-- The static state at boot: no program, no upload. -/
def Hub.init (io : ProgramIo) (respond : List Event → IoCall → IoResult) : Hub :=
  ⟨Program.init io, Upload.init, ⟨respond, []⟩⟩

/-- The `switch` of `bw_program_request`. -/
def dispatch (op id owner now : Nat) (data : List UInt8) (s : Hub) : Int × Hub :=
  match op with
  | 7 | 0 =>
    let r := opBegin op id owner now s.program s.upload data
    (r.1, { s with upload := r.2 })
  | 1 =>
    let r := opChunk id owner now s.upload data
    (r.1, { s with upload := r.2 })
  | 2 =>
    let r := opCommit id owner s.program s.upload data
    (r.1, { s with program := r.2.1, upload := r.2.2 })
  | 3 =>
    if data.length ≠ 8 then (-EINVAL, s)
    else if s.upload.active = true then (-EBUSY, s)
    else
      let r := start s.program id now
      (r.1, { s with program := r.2 })
  | 4 =>
    if data.length ≠ 8 ∨ id ≠ s.program.id then (-EINVAL, s)
    else
      let r := stop s.program s.world
      (r.1, { s with program := r.2.1, world := r.2.2 })
  | 5 => if data.length = 8 then (0, s) else (-EINVAL, s)
  | 6 =>
    let r := opAbort id owner s.upload data
    (r.1, { s with upload := r.2 })
  | _ => (-EINVAL, s)

/-- A packet as a transport hands it over; `none` is the null pointer. -/
structure Request where
  owner : Nat
  now : Nat
  data : Option (List UInt8)
  deriving DecidableEq

/-- What the header of an accepted packet says. -/
structure Packet where
  op : Nat
  id : Nat
  data : List UInt8
  deriving DecidableEq

/-- The header check: the packet, if it is one. -/
def Request.packet (r : Request) : Option Packet :=
  match r.data with
  | none => none
  | some data =>
    if r.owner = 0 ∨ data.length < 8 ∨ data.length > 20 ∨ byteAt data 0 ≠ 0x70 ∨
        byteAt data 1 ≠ 1 ∨ byteAt data 3 ≠ 0 then none
    else some ⟨byteAt data 2, get32 (data.drop 4), data⟩

structure Answer where
  rc : Int
  reply : List UInt8
  deriving DecidableEq

/-- The `respond` label: the 20 bytes of the reply. -/
def respond (op id : Nat) (rc : Int) (s : Hub) : Answer where
  rc := rc
  reply :=
    [0x71, 1, UInt8.ofNat op, UInt8.ofNat s.program.state.code]
      ++ put32 (if op = 5 ∧ id = 0 then s.program.id else id) ++ put32 (toUnsigned rc)
      ++ put16 s.program.pc ++ put16 s.program.count
      ++ put16 (if s.upload.active = true then s.upload.received else 0)
      ++ put16 (toUnsigned s.program.error)

/-- `bw_program_request`. -/
def request (s : Hub) (r : Request) : Hub × Answer :=
  let s := { s with upload := s.upload.expire r.now }
  match r.packet with
  | none => (s, respond 0 0 (-EINVAL) s)
  | some k =>
    if k.id = 0 ∧ k.op ≠ 5 then (s, respond k.op k.id (-EINVAL) s)
    else
      let d := dispatch k.op k.id r.owner r.now k.data s
      (d.2, respond k.op k.id d.1 d.2)

/-! ## The service -/

inductive Input where
  | request (r : Request)
  | tick (now : Nat)
  deriving DecidableEq

/-- The upload protocol and the interpreter behind it; a tick is not answered. -/
def service : Machine Hub Input (Option Answer) where
  step s i := match i with
    | .request r => ((request s r).1, some (request s r).2)
    | .tick now =>
      ({ s with
            program := (tick s.program now s.world).1
            world := (tick s.program now s.world).2 },
        none)

end Brickwright.HubProgram
