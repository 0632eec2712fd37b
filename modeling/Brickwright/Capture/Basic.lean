import Brickwright.Btcap.Basic
import Brickwright.Bytes.Buffers

/-!
# Schemas and the head of a capture file

`capture_build_header` of `apps/capture/capture.c`, over the structures of `capture_format.h`: it
lays the fields of a schema out one after the other and stages the file header and the descriptors,
which are the head of the file.
-/

namespace Brickwright.Capture

open Bytes Btcap

def CAPTURE_FILE_MAGIC : Nat := 0x42504143
def CAPTURE_FILE_VERSION : Nat := 1
def CAPTURE_MAX_FIELDS : Nat := 8
def E2BIG : Int := 7

/-- `struct capture_field_desc_s`. -/
structure FieldDesc where
  name : Vector UInt8 16 := Vector.replicate 16 0
  type : UInt8 := 0
  offset : UInt8 := 0
  size : UInt8 := 0
  scaleLog10 : UInt8 := 0
  unit : Vector UInt8 16 := Vector.replicate 16 0
  reserved : Vector UInt8 12 := Vector.replicate 12 0

def FieldDesc.bytes (f : FieldDesc) : List UInt8 :=
  f.name.toList ++ [f.type, f.offset, f.size, f.scaleLog10] ++ f.unit.toList ++ f.reserved.toList

/-- `struct capture_schema_s`. -/
structure Schema where
  magic : UInt16
  recordSize : UInt8
  fieldCount : UInt8
  name : Vector UInt8 32
  fields : Vector FieldDesc 8

/-- `struct capture_file_header_s`. -/
structure FileHeader where
  magic : Nat := 0
  version : Nat := 0
  schemaMagic : UInt16 := 0
  startTsUs : UInt64 := 0
  recordSize : Nat := 0
  recordCount : UInt32 := 0
  schemaName : Vector UInt8 32 := Vector.replicate 32 0
  fieldCount : UInt8 := 0

def FileHeader.bytes (header : FileHeader) : List UInt8 :=
  leBytes 4 header.magic ++ leBytes 2 header.version ++ leBytes 2 header.schemaMagic.toNat ++
    leBytes 8 header.startTsUs.toNat ++ leBytes 4 header.recordSize ++
    leBytes 4 header.recordCount.toNat ++ header.schemaName.toList ++ [header.fieldCount] ++
    List.replicate 7 0

/-- `strncpy` from one array of 32 characters to another. -/
def strncpy (src : Vector UInt8 32) : Vector UInt8 32 :=
  Vector.ofFn fun i => if ∀ j ≤ i, src[j] ≠ 0 then src[i] else 0

def captureTypeSize (type : UInt8) : UInt8 :=
  if type = 0 ∨ type = 1 then 1
  else if type = 2 ∨ type = 3 then 2
  else if type = 4 ∨ type = 5 ∨ type = 8 then 4
  else if type = 6 ∨ type = 7 ∨ type = 9 then 8
  else 0

/-- The loop over the fields: the descriptors with their offsets and sizes, and what the sizes add
up to. -/
def layOut (expect : UInt32) : List FieldDesc → Option (List FieldDesc × UInt32)
  | [] => some ([], expect)
  | f :: fs =>
    let sz := captureTypeSize f.type
    if sz = 0 then none
    else
      (layOut (expect + sz.toUInt32) fs).map fun r =>
        ({ f with offset := expect.toUInt8, size := sz } :: r.1, r.2)

/-- What `capture_build_header` stages in the handle. -/
structure Staged where
  fileHeader : FileHeader := {}
  fieldDescs : List FieldDesc := []
  totalBytes : UInt64 := 0

/-- `sizeof (struct capture_file_header_s)`. -/
def sizeofFileHeader : Nat := 64

/-- `sizeof (struct capture_field_desc_s)`. -/
def sizeofFieldDesc : Nat := 48

/-- The checks of `capture_build_header`, with the descriptors if they pass. -/
def checkSchema (schema : Schema) : Except Int (List FieldDesc) :=
  if schema.fieldCount = 0 ∨ schema.fieldCount.toNat > CAPTURE_MAX_FIELDS then .error (-EINVAL)
  else
    match layOut 0 (schema.fields.toList.take schema.fieldCount.toNat) with
    | none => .error (-EINVAL)
    | some (descs, expect) =>
      if expect ≠ schema.recordSize.toUInt32 then .error (-EINVAL) else .ok descs

/-- The rest of it, once the clock has been read. -/
def stage (schema : Schema) (recordCount : UInt32) (descs : List FieldDesc) (nowUs : UInt64) :
    Staged where
  fileHeader := {
    magic := CAPTURE_FILE_MAGIC
    version := CAPTURE_FILE_VERSION
    schemaMagic := schema.magic
    startTsUs := nowUs
    recordSize := schema.recordSize.toNat
    recordCount := recordCount
    schemaName := strncpy schema.name
    fieldCount := schema.fieldCount }
  fieldDescs := descs
  totalBytes := UInt64.ofNat (sizeofFileHeader + schema.fieldCount.toNat * sizeofFieldDesc +
    recordCount.toNat * schema.recordSize.toNat)

namespace Staged

variable (staged : Staged)

def descBytes : List UInt8 := staged.fieldDescs.flatMap FieldDesc.bytes

def head : List UInt8 := staged.fileHeader.bytes ++ staged.descBytes

end Staged

/-! ## Sizes -/

@[simp] theorem FieldDesc.length_bytes (f : FieldDesc) : f.bytes.length = sizeofFieldDesc := by
  simp only [bytes, List.length_append, Vector.length_toList, List.length_cons, List.length_nil]
  rfl

@[simp] theorem FileHeader.length_bytes (header : FileHeader) :
    header.bytes.length = sizeofFileHeader := by
  simp only [bytes, List.length_append, length_leBytes, Vector.length_toList, List.length_cons,
    List.length_nil, List.length_replicate]
  rfl

theorem Staged.length_descBytes (staged : Staged) :
    staged.descBytes.length = staged.fieldDescs.length * sizeofFieldDesc := by
  rw [descBytes, List.length_flatMap, List.map_congr_left fun f _ => f.length_bytes,
    List.map_const', List.sum_replicate_nat]

theorem length_layOut {expect sum : UInt32} {fs descs : List FieldDesc}
    (h : layOut expect fs = some (descs, sum)) : descs.length = fs.length := by
  induction fs generalizing expect descs sum with
  | nil =>
    cases h
    rfl
  | cons f fs ih =>
    dsimp only [layOut] at h
    split at h
    · cases h
    · obtain ⟨r, hr, heq⟩ := Option.map_eq_some_iff.mp h
      cases heq
      rw [List.length_cons, ih hr, List.length_cons]

theorem length_of_checkSchema {schema : Schema} {descs : List FieldDesc}
    (h : checkSchema schema = .ok descs) :
    descs.length = schema.fieldCount.toNat ∧ 0 < descs.length ∧
      descs.length ≤ CAPTURE_MAX_FIELDS := by
  unfold checkSchema at h
  split at h
  · cases h
  next hcount =>
  split at h
  · cases h
  next descs' expect hlay =>
  split at h
  · cases h
  cases h
  have hlen := length_layOut hlay
  obtain ⟨hzero, hmax⟩ := not_or.mp hcount
  have hpos : 0 < schema.fieldCount.toNat := by
    rw [Nat.pos_iff_ne_zero]
    intro hnat
    exact hzero (UInt8.toNat_inj.mp hnat)
  have hle := Nat.le_of_not_lt hmax
  have hmin : min schema.fieldCount.toNat 8 = schema.fieldCount.toNat := Nat.min_eq_left hle
  rw [List.length_take, Vector.length_toList, hmin] at hlen
  omega

/-- **The announced size is that of the head and the records.** -/
theorem totalBytes_stage {schema : Schema} {descs : List FieldDesc}
    (h : checkSchema schema = .ok descs) (recordCount : UInt32) (nowUs : UInt64) :
    (stage schema recordCount descs nowUs).totalBytes.toNat =
      (stage schema recordCount descs nowUs).head.length +
        recordCount.toNat * schema.recordSize.toNat := by
  obtain ⟨hlen, -, -⟩ := length_of_checkSchema h
  have hcount := recordCount.toNat_lt
  have hsize := schema.recordSize.toNat_lt
  have hfields := schema.fieldCount.toNat_lt
  have hpayload : recordCount.toNat * schema.recordSize.toNat ≤ 2 ^ 32 * 2 ^ 8 :=
    Nat.mul_le_mul hcount.le hsize.le
  have hhead : (stage schema recordCount descs nowUs).head.length =
      sizeofFileHeader + schema.fieldCount.toNat * sizeofFieldDesc := by
    rw [Staged.head, List.length_append, FileHeader.length_bytes, Staged.length_descBytes, ← hlen]
    rfl
  have hsmall : sizeofFileHeader + schema.fieldCount.toNat * sizeofFieldDesc +
      recordCount.toNat * schema.recordSize.toNat < 2 ^ 64 := by
    simp only [sizeofFileHeader, sizeofFieldDesc]
    omega
  rw [hhead]
  exact UInt64.toNat_ofNat_of_lt' hsmall

/-!
## The capture library

`apps/capture/capture.c`: a task announces a capture to the channel, pushes the head of the file and
then what it is given, and takes the session down again. Every system call of the library on
`/dev/btcap` is a call of one thread of the channel, in whatever sections that takes it; between
them the other threads do what they like with the channel, but the descriptor of the task is its
own.
-/

def UINT32_MAX : Nat := 2 ^ 32 - 1

/-- `data` and `bytes` of `capture_write`. -/
inductive Buffer where
  | null (bytes : Nat)
  | memory (contents : List UInt8)
  deriving DecidableEq

def Buffer.bytes : Buffer → Nat
  | .null bytes => bytes
  | .memory contents => contents.length

def Buffer.contents : Buffer → List UInt8
  | .null _ => []
  | .memory contents => contents

inductive Op where
  | init
  | write (data : Buffer)
  | deinit
  | abort
  deriving DecidableEq

/-- `capture_handle_t`; no descriptor is -1. -/
structure Handle where
  fd : Option Descriptor := none
  headerSent : Bool := false
  staged : Staged := {}
  bytesWritten : UInt64 := 0

/-- What `capture_write_all` is called with. -/
inductive Piece where
  | header
  | descs
  | data
  deriving DecidableEq

/-- Where the task is: in front of, or in, its next system call. -/
inductive Point where
  | start
  /-- `clock_gettime`. -/
  | reads (descs : List FieldDesc)
  | opens
  | registers
  /-- `close` after a registration that failed. -/
  | fails (rc : Int)
  | idle
  /-- `write` in `capture_write_all`, with the buffer that `capture_write` was called with. -/
  | pushes (piece : Piece) (remaining : List UInt8) (data : Buffer)
  | finalises
  | queries
  | polls
  | aborts
  | closes (op : Op) (rc : Int)

structure State where
  channel : Threads.State Chardev Btcap.Point
  handle : Handle := {}
  point : Point := .start

inductive Entry where
  | channel (i : Nat) (n : Note)
  | returned (op : Op) (rc : Int)
  deriving DecidableEq

/-- The schema and the count that `capture_init` is called with, and the thread of the task. -/
structure Setup where
  schema : Schema
  recordCount : UInt32
  me : Nat

inductive Input where
  /-- Another thread moves on the channel. -/
  | other (i : Nat) (input : Btcap.Input)
  | call (op : Op)
  /-- The task goes on with its system call. -/
  | run (picks : Picks)
  /-- Its wait ends without a token. -/
  | giveUp (ret : Int)
  /-- What `clock_gettime` and `poll` return. -/
  | clock (nowUs : UInt64)
  | polled (rc : Int)

namespace State

variable (s : State)

def goes (point : Point) : State × List Entry := ({ s with point := point }, [])

def returns (op : Op) (rc : Int) : State × List Entry :=
  ({ s with point := .idle }, [.returned op rc])

/-- `capture_write` once the head has been sent. -/
def writePayload (data : Buffer) : State × List Entry :=
  if data.bytes = 0 then s.returns (.write data) 0
  else
    match data with
    | .null _ => s.returns (.write data) (-EINVAL)
    | .memory contents => s.goes (.pushes .data contents data)

def captureWrite (data : Buffer) : State × List Entry :=
  match s.handle.fd with
  | none => s.returns (.write data) (-EINVAL)
  | some _ =>
    if ¬s.handle.headerSent then s.goes (.pushes .header s.handle.staged.fileHeader.bytes data)
    else s.writePayload data

/-- `capture_deinit`, up to its first system call. -/
def captureDeinit : State × List Entry :=
  match s.handle.fd with
  | none => s.returns .deinit 0
  | some _ => if s.handle.headerSent then s.goes .finalises else s.goes .queries

/-- `capture_abort`, up to its first system call. -/
def captureAbort : State × List Entry :=
  match s.handle.fd with
  | none => s.returns .abort 0
  | some _ => s.goes .aborts

def headSent : State :=
  { s with
    handle := { s.handle with
      headerSent := true
      bytesWritten := s.handle.bytesWritten + UInt64.ofNat s.handle.staged.head.length } }

/-- `capture_write_all` is through with a piece. -/
def pieceDone (piece : Piece) (data : Buffer) : State × List Entry :=
  match piece with
  | .header => s.goes (.pushes .descs s.handle.staged.descBytes data)
  | .descs => s.headSent.writePayload data
  | .data =>
    returns { s with
      handle := { s.handle with
        bytesWritten := s.handle.bytesWritten + UInt64.ofNat data.bytes } } (.write data) 0

/-- One round of `capture_write_all`, behind `write`. -/
def wrote (piece : Piece) (remaining : List UInt8) (data : Buffer) (n : Int) : State × List Entry :=
  if n > 0 then
    let remaining := remaining.drop n.toNat
    if remaining.length > 0 then s.goes (.pushes piece remaining data) else s.pieceDone piece data
  else if n = 0 then s.returns (.write data) (-ECANCELED)
  else if n = -EINTR ∨ n = -ECANCELED then s.returns (.write data) (-ECANCELED)
  else s.returns (.write data) n

/-- The loop of `capture_deinit`, behind `BTCAPIOC_QUERY_STATE`. -/
def queried (rc state : Int) : State × List Entry :=
  if rc < 0 then s.goes (.closes .deinit rc)
  else if state = SessionState.code .idle then s.goes (.closes .deinit 0)
  else if state = SessionState.code .aborted then s.goes (.closes .deinit (-ECANCELED))
  else s.goes .polls

/-- `h->fd = -1`. -/
def closed : State := { s with handle := { s.handle with fd := none } }

/-- The task goes on behind its system call. -/
def resume (rc : Int) (state : Int) : State × List Entry :=
  match s.point with
  | .opens => if rc < 0 then s.returns .init rc else s.goes .registers
  | .registers =>
    if rc < 0 then s.goes (.fails rc)
    else returns { s with handle := { s.handle with fd := some .writer } } .init 0
  | .fails rc => s.returns .init rc
  | .pushes piece remaining data => s.wrote piece remaining data rc
  | .finalises => if rc < 0 then s.goes (.closes .deinit rc) else s.goes .queries
  | .queries => s.queried rc state
  | .aborts => s.goes (.closes .abort (if rc < 0 then rc else 0))
  | .closes op rc => s.closed.returns op rc
  | _ => (s, [])

def holds : Bool :=
  match s.point with
  | .registers | .fails _ => true
  | _ => s.handle.fd.isSome

end State

/-- What a system call returns: `write` the count or an error, the others 0 or an error. -/
def answer : Point → List Note → Option Int
  | .pushes .., notes => notes.findSome? fun
    | .wrote _ rc => some rc
    | _ => none
  | _, notes => notes.findSome? fun
    | .returns rc => some rc
    | _ => none

/-- What `BTCAPIOC_QUERY_STATE` stores. -/
def stateOf (notes : List Note) : Int :=
  (notes.findSome? fun
    | .stateIs code => some code
    | _ => none).getD (-1)

def usesWriter : Btcap.Input → Bool
  | .closeFile .writer _ | .ioctl .writer _ _ | .write .. => true
  | _ => false

variable (setup : Setup)

/-- `capture_init` tells the channel of the session. -/
def sessionMeta (staged : Staged) : SessionMeta where
  schemaMagic := setup.schema.magic
  totalBytes := UInt32.ofNat staged.totalBytes.toNat
  name := strncpy setup.schema.name

/-- The system call that the task is in front of, if it is one on the channel. -/
def request (s : State) (picks : Picks) : Option Btcap.Input :=
  match s.point with
  | .opens => some (.openFile true false)
  | .registers =>
    some (.ioctl .writer (.registerSession (sessionMeta setup s.handle.staged)) picks)
  | .fails _ | .closes .. => some (.closeFile .writer picks)
  | .pushes _ remaining _ => some (.write remaining false)
  | .finalises => some (.ioctl .writer .finalizeSession picks)
  | .queries => some (.ioctl .writer .queryState picks)
  | .aborts => some (.ioctl .writer .abortSession picks)
  | _ => none

/-- What the channel notes of a section of the task. -/
def noted (s : State) (input : Btcap.Input) : List Note :=
  (body s.channel.shared (s.channel.pc setup.me) input).2.1

def moved (s : State) (input : Btcap.Input) : State :=
  { s with channel := threads.step s.channel setup.me input }

/-- One section of the task on the channel; behind the last one of a call it goes on. -/
def onChannel (s : State) (input : Btcap.Input) : State × List Entry :=
  let entries := (noted setup s input).map (.channel setup.me)
  match answer s.point (noted setup s input) with
  | none => (moved setup s input, entries)
  | some rc =>
    let turn := (moved setup s input).resume rc (stateOf (noted setup s input))
    (turn.1, entries ++ turn.2)

/-- `capture_init`, up to the clock. -/
def captureInit (s : State) : State × List Entry :=
  match checkSchema setup.schema with
  | .error rc => s.returns .init rc
  | .ok descs => s.goes (.reads descs)

/-- `capture_init`, from the clock to `open`. -/
def clockRead (s : State) (descs : List FieldDesc) (nowUs : UInt64) : State × List Entry :=
  let staged := stage setup.schema setup.recordCount descs nowUs
  let s := { s with handle := { s.handle with staged := staged } }
  if staged.totalBytes.toNat > UINT32_MAX then s.returns .init (-E2BIG) else s.goes .opens

def step (s : State) : Input → State × List Entry
  | .other i input =>
    if i = setup.me ∨ s.holds ∧ usesWriter input then (s, [])
    else
      ({ s with channel := threads.step s.channel i input },
        (body s.channel.shared (s.channel.pc i) input).2.1.map (.channel i))
  | .call op =>
    match s.point, op with
    | .start, .init => captureInit setup s
    | .idle, .write data => s.captureWrite data
    | .idle, .deinit => s.captureDeinit
    | .idle, .abort => s.captureAbort
    | _, _ => (s, [])
  | .run picks =>
    match request setup s picks with
    | none => (s, [])
    | some input =>
      onChannel setup s (if s.channel.pc setup.me = .ready then input else .go picks)
  | .giveUp ret =>
    match request setup s (0, 0) with
    | none => (s, [])
    | some _ => onChannel setup s (.giveUp ret)
  | .clock nowUs =>
    match s.point with
    | .reads descs => clockRead setup s descs nowUs
    | _ => (s, [])
  | .polled rc =>
    match s.point with
    | .polls =>
      if rc ≥ 0 then s.goes .queries
      else s.goes (.closes .deinit (if rc = -EINTR then -ECANCELED else rc))
    | _ => (s, [])

def machine : Machine State Input (List Entry) where
  step := step setup

/-- The channel has a ring of `size + 1` bytes. -/
def boot (size : Nat) : State where
  channel := Btcap.boot size

end Brickwright.Capture
