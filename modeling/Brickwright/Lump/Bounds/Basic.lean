import Brickwright.Bits.Checked
import Brickwright.Lump.Sync.Verified

/-!
# The receiver and the parser, access by access

`lump_recv_msg`, `lump_parse_msg` and the loops around them once more, with every read and write of
an array as an access that has no value behind the end of the array: the receive buffer, the modes,
a mode's name and units, and the payload of a delivered frame. A call that still waits for a read
has the value `none`, which is not the absence of one.

A round of a loop takes a read from the list, so a loop is given as many rounds as there are reads.
-/

namespace Brickwright.Lump.Bounded

open Checked

/-! ## Receiving -/

/-- Bytes into `rx_msg[i]` and behind. -/
def readInto : Nat → Nat → List UInt8 → List Read → Option (Option (Int × List UInt8 × List Read))
  | 0, _, rx, reads => some (some (OK, rx, reads))
  | _ + 1, _, _, [] => some none
  | _ + 1, _, rx, .fail code :: reads => some (some (code.val, rx, reads))
  | n + 1, i, rx, .byte b :: reads => do readInto n (i + 1) (← store rx i b) reads

/-- `lump_xor_checksum`. -/
def checksum (rx : List UInt8) (len : Nat) : Option UInt8 := do
  some (xorChecksum (← span rx 0 len))

/-- The checksum of a frame, which `SYS` frames do not have. -/
def checkFrame (rx : List UInt8) (total : Nat) : Option Int :=
  if total > 1 then do
    let cs ← checksum rx (total - 1)
    if cs ≠ (← load rx (total - 1)) then some (-EILSEQ) else some OK
  else some OK

/-- `lump_recv_msg`. -/
def recvMsg (e : Engine) : List Read → Option (Option (Int × Engine × List Read))
  | [] => some none
  | .fail code :: reads => some (some (code.val, e, reads))
  | .byte b :: reads => do
    let rx ← store e.rxMsg 0 b
    let total := totalSize (← load rx 0)
    if total > rxMsgBytes then some (some (-EBADMSG, { e with rxMsg := rx }, reads))
    else
      match ← readInto (total - 1) 1 rx reads with
      | none => some none
      | some (ret, rx, reads) =>
        if ret < 0 then some (some (ret, { e with rxMsg := rx }, reads))
        else
          some (some (← checkFrame rx total, { e with rxMsg := rx, rxMsgSize := total }, reads))

/-! ## Parsing -/

/-- `lump_get_u32_le` at `rx_msg[i]`. -/
def getU32Le (rx : List UInt8) (i : Nat) : Option UInt32 := do
  some ((← load rx i).toUInt32 ||| (← load rx (i + 1)).toUInt32 <<< 8
    ||| (← load rx (i + 2)).toUInt32 <<< 16 ||| (← load rx (i + 3)).toUInt32 <<< 24)

/-- An update of `modes[mode]`. -/
def updateMode (info : DeviceInfo) (mode : UInt8) (f : ModeInfo → Option ModeInfo) :
    Option DeviceInfo := do
  let m ← f (← load info.modes mode.toNat)
  some { info with modes := ← store info.modes mode.toNat m }

def parseSys (e : Engine) (header : UInt8) : Option (Int × Engine) :=
  if msgCmd header = sysAck then
    if e.infoFlags &&& ifRequired ≠ ifRequired then some (-EILSEQ, e)
    else some (OK, { e with info := { e.info with currentMode := e.newMode } })
  else some (OK, e)

def parseType (e : Engine) : Option (Int × Engine) := do
  let typeId ← load e.rxMsg 1
  if typeId < typeIdMin ∨ typeId > typeIdMax then some (-EBADMSG, e)
  else
    some (OK, { e with
      infoFlags := e.infoFlags ||| ifCmdType, info := { e.info with typeId } })

def announcedModes (e : Engine) (cmd2 : UInt8) : Option UInt8 :=
  if e.rxMsgSize > 5 then do some ((← load e.rxMsg 3) + 1) else some (cmd2 + 1)

def parseModes (e : Engine) (cmd2 : UInt8) : Option (Int × Engine) := do
  if e.infoFlags &&& ifCmdModes ≠ 0 then some (-EILSEQ, e)
  else if cmd2 > 7 then some (-EILSEQ, e)
  else
    let announced ← announcedModes e cmd2
    let numModes := if announced > maxModes then maxModes else announced
    some (OK, { e with
      infoFlags := e.infoFlags ||| ifCmdModes, newMode := numModes - 1
      info := { e.info with numModes } })

def parseSpeed (e : Engine) : Option (Int × Engine) := do
  if e.infoFlags &&& ifCmdSpeed ≠ 0 then some (-EILSEQ, e)
  else
    let speed ← getU32Le e.rxMsg 1
    if speed < baudFallback ∨ speed > baudMax then some (-EILSEQ, e)
    else some (OK, { e with infoFlags := e.infoFlags ||| ifCmdSpeed, newBaudRate := speed })

def parseVersion (e : Engine) : Option (Int × Engine) := do
  if e.infoFlags &&& ifCmdVersion ≠ 0 then some (-EILSEQ, e)
  else
    let fwVersion ← getU32Le e.rxMsg 1
    let hwVersion ← getU32Le e.rxMsg 5
    some (OK, { e with
      infoFlags := e.infoFlags ||| ifCmdVersion, info := { e.info with fwVersion, hwVersion } })

def parseCmd (e : Engine) (header cmd2 : UInt8) : Option (Int × Engine) :=
  let cmd := msgCmd header
  if cmd = cmdType then parseType e
  else if cmd = cmdModes then parseModes e cmd2
  else if cmd = cmdSpeed then parseSpeed e
  else if cmd = cmdVersion then parseVersion e
  else if cmd = cmdExtMode then do some (OK, { e with extMode := ← load e.rxMsg 1 })
  else if cmd = cmdWrite then some (OK, e)
  else some (-EBADMSG, e)

/-- A C string in memory that ends with these bytes: it must end before them. -/
def cString : List UInt8 → Option (List UInt8)
  | [] => none
  | b :: bs => if b = 0 then some [] else do some (b :: (← cString bs))

/-- `strncpy` of a name, which fills what the string leaves with zeros, and the flags. -/
def setName (name : List UInt8) (modeFlags : UInt8) (m : ModeInfo) : Option ModeInfo := do
  let field ← copy m.name 0 ((name ++ List.replicate maxNameLen 0).take maxNameLen)
  some { m with name := ← store field maxNameLen 0, modeFlags }

def frameModeFlags (e : Engine) (name : List UInt8) : Option UInt8 :=
  if name.length ≤ 5 ∧ e.rxMsgSize > 12 then load e.rxMsg 8 else some 0

/-- The handler of a name whose checksum has become its terminator. -/
def parseTerminated (e : Engine) (mode : UInt8) : Option (Int × Engine) := do
  let first ← load e.rxMsg 2
  if first < 0x41 ∨ first > 0x7a then some (-EBADMSG, e)
  else
    let name ← cString (e.rxMsg.drop 2)
    let modeFlags ← frameModeFlags e name
    let info ← updateMode e.info mode (setName name modeFlags)
    some (OK, { e with
      infoFlags := e.infoFlags ||| ifInfoName, newMode := mode
      info := { info with capabilityFlags := e.info.capabilityFlags ||| modeFlags } })

def parseName (e : Engine) (mode : UInt8) : Option (Int × Engine) := do
  parseTerminated { e with rxMsg := ← store e.rxMsg (e.rxMsgSize - 1) 0 } mode

def parseRange (e : Engine) (mode : UInt8) (set : UInt32 × UInt32 → ModeInfo → ModeInfo) :
    Option (Int × Engine) :=
  if e.rxMsgSize ≥ 11 ∧ mode < maxModes then do
    let a ← getU32Le e.rxMsg 2
    let b ← getU32Le e.rxMsg 6
    some (OK, { e with info := ← updateMode e.info mode fun m => some (set (a, b) m) })
  else some (OK, e)

def setUnits (bytes : List UInt8) (n : Nat) (m : ModeInfo) : Option ModeInfo := do
  some { m with units := ← store (← copy m.units 0 bytes) n 0 }

def parseUnits (e : Engine) (mode : UInt8) : Option (Int × Engine) := do
  let n := min (e.rxMsgSize - 3) maxUnitsLen
  let bytes ← span e.rxMsg 2 n
  some (OK, { e with info := ← updateMode e.info mode (setUnits bytes n) })

def parseMapping (e : Engine) (mode : UInt8) : Option (Int × Engine) :=
  if e.rxMsgSize ≥ 5 then do
    let flag ← load e.rxMsg 3
    let info ← updateMode e.info mode fun m => some { m with writable := if flag ≠ 0 then 1 else 0 }
    some (OK, { e with info })
  else some (OK, e)

def parseFormat (e : Engine) (mode : UInt8) : Option (Int × Engine) := do
  if e.newMode ≠ mode then some (-EILSEQ, e)
  else if e.rxMsgSize < 7 then some (-EILSEQ, e)
  else if e.infoFlags &&& ifRequired ≠ ifRequired &&& ~~~ifInfoFormat then some (-EILSEQ, e)
  else
    let numValues ← load e.rxMsg 2
    let dataType ← load e.rxMsg 3
    let info ← updateMode e.info mode fun m => some { m with numValues, dataType }
    let e := { e with infoFlags := e.infoFlags ||| ifInfoFormat, info }
    if e.newMode > 0 then
      some (OK, { e with
        newMode := e.newMode - 1, infoFlags := e.infoFlags &&& ~~~(ifInfoName ||| ifInfoFormat) })
    else some (OK, e)

def parseInfo (e : Engine) (mode cmd2 : UInt8) : Option (Int × Engine) :=
  if cmd2 = infoName then parseName e mode
  else if cmd2 = infoRaw then parseRange e mode fun r m => { m with raw := r }
  else if cmd2 = infoPct then parseRange e mode fun r m => { m with pct := r }
  else if cmd2 = infoSi then parseRange e mode fun r m => { m with si := r }
  else if cmd2 = infoUnits then parseUnits e mode
  else if cmd2 = infoMapping then parseMapping e mode
  else if cmd2 = infoFormat then parseFormat e mode
  else some (OK, e)

def parseData (e : Engine) (header : UInt8) : Option Parsed :=
  let mode := msgCmd header + e.extMode
  if mode ≥ maxModes then some ⟨OK, e, []⟩
  else if payloadSize header > maxPayload then some ⟨OK, e, []⟩
  else do
    let payload ← span e.rxMsg 1 (payloadSize header)
    let data ← copy (List.replicate maxPayload 0) 0 payload
    let frame := ⟨mode, UInt8.ofNat (payloadSize header), data⟩
    some ⟨OK, { e with
        info := { e.info with currentMode := mode, flags := e.info.flags ||| flagDataOk }
        dq := (e.dq.push frame).2 },
      .push frame :: if e.onData then [.onData mode payload] else []⟩

def cmd2 (e : Engine) : Option UInt8 := if e.rxMsgSize ≥ 2 then load e.rxMsg 1 else some 0

/-- The mode of a frame, and its second byte without the bit that is part of the mode. -/
def prologue (e : Engine) (header cmd2 : UInt8) : UInt8 × UInt8 :=
  if msgType header = .info ∧ cmd2 &&& infoModePlus8 ≠ 0 then
    (msgCmd header + 8, cmd2 &&& ~~~infoModePlus8)
  else (msgCmd header + e.extMode, cmd2)

/-- `lump_parse_msg`. -/
def parseMsg (e : Engine) : Option Parsed := do
  if e.rxMsgSize = 0 then some ⟨-EBADMSG, e, []⟩
  else
    let header ← load e.rxMsg 0
    let (mode, cmd2) := prologue e header (← cmd2 e)
    if mode ≥ maxModes then some ⟨OK, e, []⟩
    else
      match msgType header with
      | .sys => do some (.quiet (← parseSys e header))
      | .cmd => do some (.quiet (← parseCmd e header cmd2))
      | .info => do some (.quiet (← parseInfo e mode cmd2))
      | .data => parseData e header

/-! ## The loops around them -/

/-- One attempt of the resynchronization: the header, then the type and the checksum. -/
def receiveType (e : Engine) (reads : List Read) : Option (Option (Int × Engine × List Read)) :=
  match searchType reads with
  | none => some none
  | some (ret, reads) =>
    if ret < 0 then some (some (ret, e, reads))
    else do
      match ← readInto 2 1 (← store e.rxMsg 0 typeHeader) reads with
      | none => some none
      | some (ret, rx, rest) =>
        if ret < 0 then some (some (ret, { e with rxMsg := rx }, rest))
        else some (some (ret, { e with rxMsg := rx, rxMsgSize := 3 }, rest))

/-- `bad_id || bad_cs`. -/
def badType (rx : List UInt8) : Option Bool := do
  let typeId ← load rx 1
  let cs ← checksum rx 2
  some ((typeId < typeIdMin ∨ typeId > typeIdMax) ∨ cs ≠ (← load rx 2))

def resync : Nat → Engine → List Read → Option (Option (Int × Engine × List Read))
  | 0, _, _ => some none
  | n + 1, e, reads => do
    match ← receiveType e reads with
    | none => some none
    | some (ret, e, rest) =>
      if ret < 0 then some (some (ret, e, rest))
      else if ← badType e.rxMsg then
        if e.errCount + 1 > 10 then
          some (some (-EILSEQ, { e with errCount := e.errCount + 1 }, rest))
        else resync n { e with errCount := e.errCount + 1 } rest
      else some (some (OK, e, rest))

/-- Frames until the `SYS ACK` or an error. -/
def infoLoop : Nat → Engine → List Read → Option (Option Outcome)
  | 0, _, _ => some none
  | n + 1, e, reads => do
    match ← recvMsg e reads with
    | none => some none
    | some (ret, e, rest) =>
      if ret = -EBADMSG ∨ ret = -EILSEQ then infoLoop n e rest
      else if ret < 0 then some (some ⟨ret, e, [], rest⟩)
      else if (← load e.rxMsg 0) = sysAck then
        if e.infoFlags &&& ifRequired ≠ ifRequired then some (some ⟨-EILSEQ, e, [], rest⟩)
        else some (some ⟨OK, e, [], rest⟩)
      else
        let p ← parseMsg e
        if p.ret = -EILSEQ then some (some ⟨p.ret, p.engine, p.calls, rest⟩)
        else
          match ← infoLoop n p.engine rest with
          | none => some none
          | some o => some (some { o with calls := p.calls ++ o.calls })

def syncFrames (io : SyncIo) (reads : List Read) (e : Engine) : Option (Option Outcome) := do
  match ← resync reads.length { e with errCount := 0 } reads with
  | none => some none
  | some (ret, e, rest) =>
    if ret < 0 then some (some ⟨ret, e, [], rest⟩)
    else
      let p ← parseMsg e
      if p.ret < 0 then some (some ⟨p.ret, p.engine, p.calls, rest⟩)
      else
        match ← infoLoop rest.length { p.engine with state := .info } rest with
        | none => some none
        | some o =>
          if o.ret < 0 then some (some { o with calls := p.calls ++ o.calls })
          else some (some (finishSync io o.engine (p.calls ++ o.calls) o.rest))

def lumpSync (io : SyncIo) (reads : List Read) (e : Engine) : Option (Option Outcome) :=
  let e := { e with state := .syncing }
  if io.speed < 0 then some (some ⟨io.speed, e, [], reads⟩)
  else
    match reads with
    | [] => some none
    | probe :: reads =>
      if probe.isSlow then
        if io.fallback < 0 then some (some ⟨io.fallback, e, [], reads⟩)
        else syncFrames io reads e
      else
        match probe with
        | .fail code => some (some ⟨code.val, e, [], reads⟩)
        | .byte _ => syncFrames io reads e

def listen (e : Engine) (reads : List Read) : Option Engine := do
  match ← recvMsg e reads with
  | none => some e
  | some (ret, e, _) => if ret = OK then some (← parseMsg e).engine else some e

/-- What happens to a port. Only the port thread receives and parses. -/
def port (e : Engine) : PortEvent → Option Engine
  | .attempt io reads => do
    match ← lumpSync io reads e.resetSession with
    | none => some e
    | some o => some o.engine
  | .receive reads => listen e reads
  | event => some (Lump.port.step e event).1

end Brickwright.Lump.Bounded
