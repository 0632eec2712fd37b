import Mathlib.Data.Nat.Bitwise
import Brickwright.Bytes.Buffers

/-!
# The state of a LUMP port (`stm32_legoport_lump.c`, `lump_data_queue.h`, `board_lump.h`)

One engine a port: what has been learnt about the attached device, the scratch state of the
synchronization, the ring of received DATA frames and the two one-entry slots of requests to
transmit. Fields of fixed width are fixed-width integers, so their arithmetic wraps as the C code's
does. A `float` is only moved from the wire into the public structure and is kept as its bits.

Counters and rings that only feed a log line or a status report are left out.
-/

namespace Brickwright.Lump

/-! ## Errors and limits -/

def OK : Int := 0
def EAGAIN : Int := 11
def EINVAL : Int := 22
def EBADMSG : Int := 74
def EOVERFLOW : Int := 75
def EILSEQ : Int := 84
def ETIMEDOUT : Int := 110
def ENOTSUP : Int := 95

theorem eilseq_neg : -EILSEQ < 0 := by decide

def maxModes : UInt8 := 8
def maxNameLen : Nat := 12
def maxUnitsLen : Nat := 4
def maxPayload : Nat := 32

def flagSynced : UInt8 := 1
def flagDataOk : UInt8 := 2

/-- `LUMP_CAP_NEEDS_SUPPLY_PIN1` and `LUMP_CAP_NEEDS_SUPPLY_PIN2`. -/
def capSupplyPin1 : UInt8 := 0x40
def capSupplyPin2 : UInt8 := 0x80

/-! ## What is known about the device -/

structure ModeInfo where
  name : List UInt8
  numValues : UInt8
  dataType : UInt8
  writable : UInt8
  modeFlags : UInt8
  raw : UInt32 × UInt32
  pct : UInt32 × UInt32
  si : UInt32 × UInt32
  units : List UInt8
  deriving DecidableEq, Repr

/-- A mode after `memset`. -/
def ModeInfo.zero : ModeInfo where
  name := List.replicate (maxNameLen + 1) 0
  numValues := 0
  dataType := 0
  writable := 0
  modeFlags := 0
  raw := (0, 0)
  pct := (0, 0)
  si := (0, 0)
  units := List.replicate (maxUnitsLen + 1) 0

structure DeviceInfo where
  typeId : UInt8
  numModes : UInt8
  currentMode : UInt8
  flags : UInt8
  capabilityFlags : UInt8
  baud : UInt32
  fwVersion : UInt32
  hwVersion : UInt32
  modes : List ModeInfo
  deriving DecidableEq, Repr

def DeviceInfo.zero : DeviceInfo where
  typeId := 0
  numModes := 0
  currentMode := 0
  flags := 0
  capabilityFlags := 0
  baud := 0
  fwVersion := 0
  hwVersion := 0
  modes := List.replicate maxModes.toNat ModeInfo.zero

/-- An update of `modes[mode]`. -/
def DeviceInfo.setMode (info : DeviceInfo) (mode : UInt8) (f : ModeInfo → ModeInfo) : DeviceInfo :=
  { info with modes := info.modes.modify mode.toNat f }

/-! ## The ring of DATA frames -/

structure DataFrame where
  mode : UInt8
  len : UInt8
  data : List UInt8
  deriving DecidableEq, Repr

def queueDepth : UInt8 := 16

structure DataQueue where
  frames : List DataFrame
  session : UInt64
  dropped : UInt32
  head : UInt8
  tail : UInt8
  count : UInt8
  active : Bool
  deriving DecidableEq, Repr

namespace DataQueue

/-- `lump_data_queue_invalidate`. -/
def invalidate (q : DataQueue) : DataQueue :=
  { q with active := false, head := 0, tail := 0, count := 0 }

/-- `lump_data_queue_begin`. -/
def begin (q : DataQueue) : Int × DataQueue :=
  let q := { q.invalidate with dropped := 0 }
  if q.session = 0xffffffffffffffff then (-EOVERFLOW, q)
  else (0, { q with session := q.session + 1, active := true })

/-- `lump_data_queue_push`. -/
def push (q : DataQueue) (frame : DataFrame) : Int × DataQueue :=
  if frame.len = 0 ∨ frame.len.toNat > maxPayload ∨ frame.mode ≥ maxModes then (-EINVAL, q)
  else if q.active = false then (-EAGAIN, q)
  else
    let q :=
      -- A full ring loses its oldest frame.
      if q.count = queueDepth then
        { q with tail := (q.tail + 1) % queueDepth, count := q.count - 1, dropped := q.dropped + 1 }
      else q
    (0, { q with
      frames := q.frames.set q.head.toNat frame
      head := (q.head + 1) % queueDepth
      count := q.count + 1 })

/-- `lump_data_queue_pop`. -/
def pop (q : DataQueue) : Option (UInt64 × DataFrame) × DataQueue :=
  if q.active = false ∨ q.count = 0 then (none, q)
  else
    (some (q.session, q.frames.getD q.tail.toNat ⟨0, 0, []⟩),
      { q with tail := (q.tail + 1) % queueDepth, count := q.count - 1 })

end DataQueue

/-! ## The engine -/

/-- `enum lump_state_e`. -/
inductive EngineState where
  | idle | syncing | info | data | err
  deriving DecidableEq, Repr

def baudInitial : UInt32 := 115200
def baudFallback : UInt32 := 2400
def baudMax : UInt32 := 460800

/-- `LUMP_RX_MSG_BYTES`. -/
def rxMsgBytes : Nat := 35

structure Engine where
  state : EngineState
  infoFlags : UInt32
  newMode : UInt8
  extMode : UInt8
  newBaudRate : UInt32
  errCount : UInt8
  rxMsg : List UInt8
  rxMsgSize : Nat
  info : DeviceInfo
  pendingSelect : Bool
  pendingSelectMode : UInt8
  pendingSend : Bool
  pendingSendMode : UInt8
  pendingSendBuf : List UInt8
  dq : DataQueue
  /-- Whether an attached consumer has the callback. -/
  onData : Bool
  onSync : Bool
  deriving DecidableEq, Repr

/-- A port at boot, with or without a consumer. -/
def Engine.boot (onData onSync : Bool) : Engine where
  state := .idle
  infoFlags := 0
  newMode := 0
  extMode := 0
  newBaudRate := 0
  errCount := 0
  rxMsg := List.replicate rxMsgBytes 0
  rxMsgSize := 0
  info := DeviceInfo.zero
  pendingSelect := false
  pendingSelectMode := 0
  pendingSend := false
  pendingSendMode := 0
  pendingSendBuf := []
  dq := ⟨List.replicate queueDepth.toNat ⟨0, 0, List.replicate maxPayload 0⟩, 0, 0, 0, 0, 0, false⟩
  onData := onData
  onSync := onSync

/-- `lump_reset_session_state`. -/
def Engine.resetSession (e : Engine) : Engine :=
  { e with
    state := .idle, infoFlags := 0, newMode := 0, extMode := 0, newBaudRate := baudInitial
    errCount := 0, rxMsgSize := 0, info := DeviceInfo.zero
    pendingSelect := false, pendingSend := false, pendingSendBuf := []
    dq := { e.dq.invalidate with dropped := 0 } }

/-- What the engine does to the world outside it. -/
inductive Call where
  /-- `lump_data_queue_push`. -/
  | push (frame : DataFrame)
  /-- The consumer's `on_data`. -/
  | onData (mode : UInt8) (data : List UInt8)
  /-- The consumer's `on_sync`. -/
  | onSync (info : DeviceInfo)
  /-- `stm32_legoport_pwm_pin_supply`. -/
  | pinSupply (sign : Int)
  deriving DecidableEq, Repr

/-!
## Parsing a frame (`lump_parse_msg`)

The prologue computes the mode a frame speaks about, with the sticky adder of the last extended-mode
command, and drops every frame whose mode is out of range; what is left goes to one definition per
frame type and command. The parser reads `rx_msg`, which still holds the bytes of earlier frames
behind the current one.
-/

/-! ### Headers -/

inductive MsgType where
  | sys | cmd | info | data
  deriving DecidableEq, Repr

/-- `header & LUMP_MSG_TYPE_MASK`. -/
def msgType (header : UInt8) : MsgType :=
  if header &&& 0xc0 = 0x00 then .sys
  else if header &&& 0xc0 = 0x40 then .cmd
  else if header &&& 0xc0 = 0x80 then .info
  else .data

/-- `header & LUMP_MSG_CMD_MASK`. -/
def msgCmd (header : UInt8) : UInt8 := header &&& 0x07

/-- `lump_msg_payload_size`. -/
def payloadSize (header : UInt8) : Nat := 1 <<< ((header &&& 0x38) >>> 3).toNat

/-- `lump_msg_total_size`. -/
def totalSize (header : UInt8) : Nat :=
  match msgType header with
  | .sys => 1
  | .info => 1 + payloadSize header + 1 + 1
  | .cmd | .data => 1 + payloadSize header + 1

/-- `lump_xor_checksum`. -/
def xorChecksum (buf : List UInt8) : UInt8 := buf.foldl (· ^^^ ·) 0xff

def sysAck : UInt8 := 0x04
def cmdType : UInt8 := 0x00
def cmdModes : UInt8 := 0x01
def cmdSpeed : UInt8 := 0x02
def cmdSelect : UInt8 := 0x03
def cmdWrite : UInt8 := 0x04
def cmdExtMode : UInt8 := 0x06
def cmdVersion : UInt8 := 0x07

def infoName : UInt8 := 0x00
def infoRaw : UInt8 := 0x01
def infoPct : UInt8 := 0x02
def infoSi : UInt8 := 0x03
def infoUnits : UInt8 := 0x04
def infoMapping : UInt8 := 0x05
def infoFormat : UInt8 := 0x80
def infoModePlus8 : UInt8 := 0x20

def typeIdMin : UInt8 := 29
def typeIdMax : UInt8 := 101

/-! ### The frames a session has seen -/

def ifCmdType : UInt32 := 1
def ifCmdModes : UInt32 := 2
def ifCmdSpeed : UInt32 := 4
def ifCmdVersion : UInt32 := 8
def ifInfoName : UInt32 := 16
def ifInfoFormat : UInt32 := 0x4000
def ifRequired : UInt32 := ifCmdType ||| ifCmdModes ||| ifInfoName ||| ifInfoFormat

/-! ### The parser -/

namespace Engine

/-- `rx_msg[i]`. -/
def rx (e : Engine) (i : Nat) : UInt8 := e.rxMsg.getD i 0

/-- `lump_get_u32_le` at `rx_msg[i]`. -/
def rx32 (e : Engine) (i : Nat) : UInt32 :=
  (e.rx i).toUInt32 ||| (e.rx (i + 1)).toUInt32 <<< 8 ||| (e.rx (i + 2)).toUInt32 <<< 16
    ||| (e.rx (i + 3)).toUInt32 <<< 24

def cmd2 (e : Engine) : UInt8 := if e.rxMsgSize ≥ 2 then e.rx 1 else 0

/-- The mode of the frame, and its second byte without the bit that is part of the mode. -/
def prologue (e : Engine) : UInt8 × UInt8 :=
  if msgType (e.rx 0) = .info ∧ e.cmd2 &&& infoModePlus8 ≠ 0 then
    (msgCmd (e.rx 0) + 8, e.cmd2 &&& ~~~infoModePlus8)
  else (msgCmd (e.rx 0) + e.extMode, e.cmd2)

theorem prologue_of_ne_info {e : Engine} (h : msgType (e.rx 0) ≠ .info) :
    e.prologue = (msgCmd (e.rx 0) + e.extMode, e.cmd2) := by
  rw [prologue, if_neg]
  exact fun hinfo => h hinfo.1

/-! #### SYS and CMD -/

def parseSys (e : Engine) : Int × Engine :=
  if msgCmd (e.rx 0) = sysAck then
    if e.infoFlags &&& ifRequired ≠ ifRequired then (-EILSEQ, e)
    else (OK, { e with info := { e.info with currentMode := e.newMode } })
  else (OK, e)

def parseType (e : Engine) : Int × Engine :=
  if e.rx 1 < typeIdMin ∨ e.rx 1 > typeIdMax then (-EBADMSG, e)
  else
    (OK, { e with
      infoFlags := e.infoFlags ||| ifCmdType, info := { e.info with typeId := e.rx 1 } })

/-- The number of modes a `CMD MODES` announces, before it is capped. -/
def announcedModes (e : Engine) : UInt8 := if e.rxMsgSize > 5 then e.rx 3 + 1 else e.cmd2 + 1

def numModes (e : Engine) : UInt8 :=
  if e.announcedModes > maxModes then maxModes else e.announcedModes

def parseModes (e : Engine) : Int × Engine :=
  if e.infoFlags &&& ifCmdModes ≠ 0 then (-EILSEQ, e)
  -- The extended count, where there is one, is not checked.
  else if e.cmd2 > 7 then (-EILSEQ, e)
  else
    (OK, { e with
      infoFlags := e.infoFlags ||| ifCmdModes, newMode := e.numModes - 1
      info := { e.info with numModes := e.numModes } })

def parseSpeed (e : Engine) : Int × Engine :=
  if e.infoFlags &&& ifCmdSpeed ≠ 0 then (-EILSEQ, e)
  else if e.rx32 1 < baudFallback ∨ e.rx32 1 > baudMax then (-EILSEQ, e)
  else (OK, { e with infoFlags := e.infoFlags ||| ifCmdSpeed, newBaudRate := e.rx32 1 })

def parseVersion (e : Engine) : Int × Engine :=
  if e.infoFlags &&& ifCmdVersion ≠ 0 then (-EILSEQ, e)
  else
    (OK, { e with
      infoFlags := e.infoFlags ||| ifCmdVersion
      info := { e.info with fwVersion := e.rx32 1, hwVersion := e.rx32 5 } })

def parseCmd (e : Engine) : Int × Engine :=
  let cmd := msgCmd (e.rx 0)
  if cmd = cmdType then e.parseType
  else if cmd = cmdModes then e.parseModes
  else if cmd = cmdSpeed then e.parseSpeed
  else if cmd = cmdVersion then e.parseVersion
  else if cmd = cmdExtMode then (OK, { e with extMode := e.rx 1 })
  else if cmd = cmdWrite then (OK, e)
  -- `CMD SELECT` and 5, which a device does not send.
  else (-EBADMSG, e)

/-! #### INFO -/

/-- The C string from `rx_msg[2]` on. -/
def nameString (e : Engine) : List UInt8 := (e.rxMsg.drop 2).takeWhile (· ≠ 0)

/-- `strncpy` into a name, with its terminator. -/
def nameField (name : List UInt8) : List UInt8 :=
  (name ++ List.replicate maxNameLen 0).take maxNameLen ++ [0]

/-- The capability byte of a long frame with a short name. -/
def frameModeFlags (e : Engine) : UInt8 :=
  if e.nameString.length ≤ 5 ∧ e.rxMsgSize > 12 then e.rx 8 else 0

def parseName (e : Engine) (mode : UInt8) : Int × Engine :=
  -- The checksum, which has been checked, makes room for the terminator.
  let e := { e with rxMsg := e.rxMsg.set (e.rxMsgSize - 1) 0 }
  if e.rx 2 < 0x41 ∨ e.rx 2 > 0x7a then (-EBADMSG, e)
  else
    let info := e.info.setMode mode fun m =>
      { m with name := nameField e.nameString, modeFlags := e.frameModeFlags }
    (OK, { e with
      infoFlags := e.infoFlags ||| ifInfoName, newMode := mode
      info := { info with capabilityFlags := e.info.capabilityFlags ||| e.frameModeFlags } })

def parseRange (e : Engine) (mode : UInt8) (set : UInt32 × UInt32 → ModeInfo → ModeInfo) :
    Int × Engine :=
  if e.rxMsgSize ≥ 11 ∧ mode < maxModes then
    (OK, { e with info := e.info.setMode mode (set (e.rx32 2, e.rx32 6)) })
  else (OK, e)

def parseUnits (e : Engine) (mode : UInt8) : Int × Engine :=
  let copy := min (e.rxMsgSize - 3) maxUnitsLen
  (OK, { e with info := e.info.setMode mode fun m =>
    { m with units := (m.units.overlay 0 ((e.rxMsg.drop 2).take copy)).set copy 0 } })

def parseMapping (e : Engine) (mode : UInt8) : Int × Engine :=
  if e.rxMsgSize ≥ 5 then
    (OK, { e with info := e.info.setMode mode fun m =>
      { m with writable := if e.rx 3 ≠ 0 then 1 else 0 } })
  else (OK, e)

def parseFormat (e : Engine) (mode : UInt8) : Int × Engine :=
  if e.newMode ≠ mode then (-EILSEQ, e)
  else if e.rxMsgSize < 7 then (-EILSEQ, e)
  else if e.infoFlags &&& ifRequired ≠ ifRequired &&& ~~~ifInfoFormat then (-EILSEQ, e)
  else
    let e := { e with
      infoFlags := e.infoFlags ||| ifInfoFormat
      info := e.info.setMode mode fun m => { m with numValues := e.rx 2, dataType := e.rx 3 } }
    if e.newMode > 0 then
      -- The next mode has to send its name and format again.
      (OK, { e with
        newMode := e.newMode - 1, infoFlags := e.infoFlags &&& ~~~(ifInfoName ||| ifInfoFormat) })
    else (OK, e)

def parseInfo (e : Engine) (mode cmd2 : UInt8) : Int × Engine :=
  if cmd2 = infoName then e.parseName mode
  else if cmd2 = infoRaw then e.parseRange mode fun r m => { m with raw := r }
  else if cmd2 = infoPct then e.parseRange mode fun r m => { m with pct := r }
  else if cmd2 = infoSi then e.parseRange mode fun r m => { m with si := r }
  else if cmd2 = infoUnits then e.parseUnits mode
  else if cmd2 = infoMapping then e.parseMapping mode
  else if cmd2 = infoFormat then e.parseFormat mode
  else (OK, e)

/-! #### DATA -/

/-- The payload bytes of a DATA frame in `rx_msg`. -/
def dataPayload (e : Engine) : List UInt8 := (e.rxMsg.drop 1).take (payloadSize (e.rx 0))

/-- The frame that a DATA frame of `mode` puts into the ring. -/
def dataFrame (e : Engine) (mode : UInt8) : DataFrame :=
  ⟨mode, UInt8.ofNat (payloadSize (e.rx 0)), (List.replicate maxPayload 0).overlay 0 e.dataPayload⟩

/-- Deliver the DATA frame as one of `mode`. -/
def deliver (e : Engine) (mode : UInt8) : Engine × List Call :=
  ({ e with
      info := { e.info with currentMode := mode, flags := e.info.flags ||| flagDataOk }
      dq := (e.dq.push (e.dataFrame mode)).2 },
    .push (e.dataFrame mode) :: if e.onData then [.onData mode e.dataPayload] else [])

def parseData (e : Engine) : Engine × List Call :=
  if msgCmd (e.rx 0) + e.extMode ≥ maxModes then (e, [])
  else if payloadSize (e.rx 0) > maxPayload then (e, [])
  else e.deliver (msgCmd (e.rx 0) + e.extMode)

end Engine

structure Parsed where
  ret : Int
  engine : Engine
  calls : List Call
  deriving DecidableEq

def Parsed.quiet (r : Int × Engine) : Parsed := ⟨r.1, r.2, []⟩

/-- `lump_parse_msg`. -/
def parseMsg (e : Engine) : Parsed :=
  if e.rxMsgSize = 0 then ⟨-EBADMSG, e, []⟩
  else
    let mode := e.prologue.1
    let cmd2 := e.prologue.2
    -- Dropped, whatever the type.
    if mode ≥ maxModes then ⟨OK, e, []⟩
    else
      match msgType (e.rx 0) with
      | .sys => .quiet e.parseSys
      | .cmd => .quiet e.parseCmd
      | .info => .quiet (e.parseInfo mode cmd2)
      | .data => ⟨OK, e.parseData.1, e.parseData.2⟩

/-!
## Receiving a frame (`lump_recv_msg`)

The port thread reads one byte at a time, and each read may fail. `recvMsg` is the framing alone:
what is stored in `rx_msg`, whether the frame arrived whole, and which reads are left. A frame it
accepts is a `Frame`, which has the length its header announces and a checksum that holds; from here
on the engine is run on these.
-/

open List

/-! ### Reads -/

def Errno : Type := { code : Int // code < 0 }

instance : DecidableEq Errno := inferInstanceAs (DecidableEq { code : Int // code < 0 })

/-- What `lump_uart_read_byte` returns. -/
inductive Read where
  | byte (b : UInt8)
  | fail (code : Errno)
  deriving DecidableEq

/-- Up to `n` bytes, until a read fails. `none`: the reads ran out, so the thread still waits. -/
def readBytes : Nat → List Read → Option (List UInt8 × Int × List Read)
  | 0, reads => some ([], OK, reads)
  | _ + 1, [] => none
  | _ + 1, .fail code :: reads => some ([], code.val, reads)
  | n + 1, .byte b :: reads =>
    match readBytes n reads with
    | none => none
    | some (bytes, ret, rest) => some (b :: bytes, ret, rest)

/-- What a call of `lump_recv_msg` leaves: the bytes stored from `rx_msg[0]` on, and whether they
are a whole frame, whose size is then stored as well. -/
structure Recv where
  ret : Int
  stored : List UInt8
  whole : Bool
  rest : List Read
  deriving DecidableEq

/-- The checksum of a whole frame. `SYS` frames have none. -/
def checksumHolds (bytes : List UInt8) : Prop :=
  bytes.length > 1 → xorChecksum (bytes.take (bytes.length - 1)) = bytes.getD (bytes.length - 1) 0

instance (bytes : List UInt8) : Decidable (checksumHolds bytes) :=
  inferInstanceAs (Decidable (_ → _))

/-- `lump_recv_msg`. -/
def recvMsg : List Read → Option Recv
  | [] => none
  | .fail code :: reads => some ⟨code.val, [], false, reads⟩
  | .byte header :: reads =>
    if totalSize header > rxMsgBytes then some ⟨-EBADMSG, [header], false, reads⟩
    else
      match readBytes (totalSize header - 1) reads with
      | none => none
      | some (bytes, ret, rest) =>
        -- The bytes before the failed read are stored, the size is not.
        if ret < 0 then some ⟨ret, header :: bytes, false, rest⟩
        else if ¬ checksumHolds (header :: bytes) then some ⟨-EILSEQ, header :: bytes, true, rest⟩
        else some ⟨OK, header :: bytes, true, rest⟩

/-- The engine after `lump_recv_msg`. -/
def Engine.store (e : Engine) (r : Recv) : Engine :=
  { e with
    rxMsg := e.rxMsg.overlay 0 r.stored
    rxMsgSize := if r.whole then r.stored.length else e.rxMsgSize }

/-- What the DATA loop makes of a call: a whole frame is parsed. -/
def Engine.listen (e : Engine) (reads : List Read) : Engine :=
  match recvMsg reads with
  | none => e
  | some r => if r.ret = OK then (parseMsg (e.store r)).engine else e.store r

/-! ### Frames -/

/-- A frame that `lump_recv_msg` accepts. -/
structure Frame where
  bytes : List UInt8
  length_eq : bytes.length = totalSize (bytes.headD 0)
  fits : bytes.length ≤ rxMsgBytes
  checksum : checksumHolds bytes
  deriving DecidableEq

namespace Frame

def header (f : Frame) : UInt8 := f.bytes.headD 0

def cmd (f : Frame) : UInt8 := msgCmd f.header

def type (f : Frame) : MsgType := msgType f.header

def payload (f : Frame) : List UInt8 := (f.bytes.drop 1).take (payloadSize f.header)

end Frame

/-- The engine that has received a frame. -/
def Engine.receive (e : Engine) (f : Frame) : Engine :=
  { e with rxMsg := e.rxMsg.overlay 0 f.bytes, rxMsgSize := f.bytes.length }

theorem one_le_totalSize (header : UInt8) : 1 ≤ totalSize header := by
  unfold totalSize
  split <;> omega

theorem Frame.length_pos (f : Frame) : 0 < f.bytes.length := by
  rw [f.length_eq]
  exact one_le_totalSize _

theorem Frame.length_cmd (f : Frame) (h : f.type = .cmd) :
    f.bytes.length = 1 + payloadSize f.header + 1 := by
  rw [f.length_eq, totalSize, show msgType (f.bytes.headD 0) = .cmd from h]
  rfl

theorem Frame.length_data (f : Frame) (h : f.type = .data) :
    f.bytes.length = 1 + payloadSize f.header + 1 := by
  rw [f.length_eq, totalSize, show msgType (f.bytes.headD 0) = .data from h]
  rfl

theorem Frame.payloadSize_le (f : Frame) (h : f.type = .data) :
    payloadSize f.header ≤ maxPayload := by
  have hfits : payloadSize f.header ≤ 33 := by
    have hlen := f.length_data h
    have hle : f.bytes.length ≤ 35 := f.fits
    omega
  unfold payloadSize at hfits ⊢
  rw [Nat.one_shiftLeft] at hfits ⊢
  generalize ((f.header &&& 0x38) >>> 3).toNat = k at hfits
  have hk : k ≤ 5 := by
    by_contra hbig
    have := Nat.pow_le_pow_right Nat.zero_lt_two (show 6 ≤ k by omega)
    omega
  exact Nat.pow_le_pow_right Nat.zero_lt_two hk

theorem readBytes_spec {n : Nat} {reads rest : List Read} {bytes : List UInt8} {ret : Int}
    (h : readBytes n reads = some (bytes, ret, rest)) :
    bytes.length ≤ n ∧ rest.length ≤ reads.length ∧ (¬ ret < 0 → bytes.length = n) := by
  fun_induction readBytes n reads generalizing bytes with
  | case1 reads =>
    cases h
    exact ⟨le_refl _, le_refl _, fun _ => rfl⟩
  | case2 n => cases h
  | case3 n code reads =>
    cases h
    exact ⟨Nat.zero_le _, Nat.le_succ _, fun hret => absurd code.property hret⟩
  | case4 n b reads hnone => cases h
  | case5 n b reads bytes' ret' rest' hsome ih =>
    cases h
    obtain ⟨hle, hrest, hwhole⟩ := ih hsome
    exact ⟨Nat.succ_le_succ hle, Nat.le_succ_of_le hrest,
      fun hret => congrArg (· + 1) (hwhole hret)⟩

/-- **What is accepted is a frame.** -/
theorem recvMsg_cases {reads : List Read} {r : Recv} (h : recvMsg reads = some r) :
    r.ret < 0 ∨ r.ret = OK ∧ ∃ f : Frame, r.stored = f.bytes ∧ r.whole = true := by
  unfold recvMsg at h
  split at h
  · cases h
  next code reads =>
    cases h
    exact .inl code.property
  next header reads =>
    split at h
    · cases h
      exact .inl (show -EBADMSG < 0 by decide)
    next hfits =>
      split at h
      · cases h
      next bytes ret rest hread =>
        split at h
        next hneg =>
          cases h
          exact .inl hneg
        next hret =>
          split at h
          · cases h
            exact .inl eilseq_neg
          next hsum =>
            cases h
            have hlen : (header :: bytes).length = totalSize header := by
              rw [length_cons, (readBytes_spec hread).2.2 hret]
              have := one_le_totalSize header
              omega
            have hle : (header :: bytes).length ≤ rxMsgBytes := by omega
            exact .inr ⟨rfl, ⟨header :: bytes, hlen, hle, not_not.mp hsum⟩, rfl, rfl⟩

theorem Engine.store_eq_receive (e : Engine) {r : Recv} {f : Frame} (hstored : r.stored = f.bytes)
    (hwhole : r.whole = true) : e.store r = e.receive f := by
  rw [store, hstored, hwhole]
  rfl

/-! ### A received frame in the receive buffer -/

namespace Engine

variable (e : Engine) (f : Frame)

theorem rx_receive {i : Nat} (h : i < f.bytes.length) : (e.receive f).rx i = f.bytes.getD i 0 := by
  show ((e.rxMsg.overlay 0 f.bytes).getD i 0) = _
  rw [List.overlay, take_zero, nil_append, getD_append _ _ _ _ h]

@[simp] theorem rx_receive_zero : (e.receive f).rx 0 = f.header := by
  rw [rx_receive e f f.length_pos, Frame.header]
  cases f.bytes <;> rfl

@[simp] theorem rxMsgSize_receive : (e.receive f).rxMsgSize = f.bytes.length := rfl
@[simp] theorem extMode_receive : (e.receive f).extMode = e.extMode := rfl
@[simp] theorem onData_receive : (e.receive f).onData = e.onData := rfl

theorem payload_receive (h : f.type = .data) : (e.receive f).dataPayload = f.payload := by
  have hlen := f.length_data h
  have hdrop : (f.bytes ++ e.rxMsg.drop (0 + f.bytes.length)).drop 1
      = f.bytes.drop 1 ++ e.rxMsg.drop (0 + f.bytes.length) :=
    drop_append_of_le_length f.length_pos
  rw [dataPayload, rx_receive_zero, Frame.payload]
  show ((e.rxMsg.overlay 0 f.bytes).drop 1).take _ = _
  rw [List.overlay, take_zero, nil_append, hdrop,
    take_append_of_le_length (by rw [length_drop]; omega)]

theorem prologue_receive (h : f.type ≠ .info) :
    (e.receive f).prologue.1 = f.cmd + e.extMode := by
  rw [prologue_of_ne_info (by rw [rx_receive_zero]; exact h), rx_receive_zero]
  rfl

end Engine

theorem parseMsg_receive (e : Engine) (f : Frame) :
    parseMsg (e.receive f)
      = if (e.receive f).prologue.1 ≥ maxModes then ⟨OK, e.receive f, []⟩
        else match f.type with
          | .sys => .quiet (e.receive f).parseSys
          | .cmd => .quiet (e.receive f).parseCmd
          | .info => .quiet
            ((e.receive f).parseInfo (e.receive f).prologue.1 (e.receive f).prologue.2)
          | .data => ⟨OK, (e.receive f).parseData.1, (e.receive f).parseData.2⟩ := by
  have hsize : ¬ (e.receive f).rxMsgSize = 0 := Nat.pos_iff_ne_zero.mp f.length_pos
  rw [parseMsg, if_neg hsize, Engine.rx_receive_zero]
  rfl

end Brickwright.Lump
