import Brickwright.Lump.Engine
import Mathlib.Data.List.TakeWhile

/-!
# What a parse reads

`rx_msg` still holds the bytes of earlier frames behind the current one. A handler that reads only
the frame does the same whatever they are: each of them is shown to, under the least size at which
it does. Two handlers have no size check of their own, and `CMD SPEED` and `CMD VERSION` of a short
payload read what an earlier frame has left.
-/

namespace Brickwright.Lump

open List

namespace Engine

/-- The same engine with other bytes in its receive buffer. -/
def holding (e : Engine) (rxMsg : List UInt8) : Engine := { e with rxMsg := rxMsg }

@[simp] theorem rxMsgSize_holding (e : Engine) (m : List UInt8) :
    (e.holding m).rxMsgSize = e.rxMsgSize := rfl

@[simp] theorem infoFlags_holding (e : Engine) (m : List UInt8) :
    (e.holding m).infoFlags = e.infoFlags := rfl

@[simp] theorem newMode_holding (e : Engine) (m : List UInt8) :
    (e.holding m).newMode = e.newMode := rfl

@[simp] theorem extMode_holding (e : Engine) (m : List UInt8) :
    (e.holding m).extMode = e.extMode := rfl

def Alike (p q : Int × Engine) : Prop := q.1 = p.1 ∧ ∃ m, q.2 = p.2.holding m

section frame

variable {e : Engine} {m : List UInt8} (h : m.take e.rxMsgSize = e.rxMsg.take e.rxMsgSize)

include h

theorem rx_holding {i : Nat} (hi : i < e.rxMsgSize) : (e.holding m).rx i = e.rx i := by
  have hget := congrArg (fun l : List UInt8 => l[i]?) h
  simp only [List.getElem?_take_of_lt hi] at hget
  show m.getD i 0 = e.rxMsg.getD i 0
  rw [getD_eq_getElem?_getD, getD_eq_getElem?_getD, hget]

theorem rx32_holding {i : Nat} (hi : i + 3 < e.rxMsgSize) : (e.holding m).rx32 i = e.rx32 i := by
  rw [rx32, rx32, rx_holding h (by omega), rx_holding h (by omega), rx_holding h (by omega),
    rx_holding h hi]

theorem cmd2_holding : (e.holding m).cmd2 = e.cmd2 := by
  unfold cmd2
  by_cases hsize : e.rxMsgSize ≥ 2
  · rw [if_pos hsize, rxMsgSize_holding, if_pos hsize, rx_holding h hsize]
  · rw [if_neg hsize, rxMsgSize_holding, if_neg hsize]

theorem prologue_holding (hsize : 0 < e.rxMsgSize) : (e.holding m).prologue = e.prologue := by
  rw [prologue, rx_holding h hsize, cmd2_holding h]
  rfl

theorem stretch_holding {i n : Nat} (hn : i + n ≤ e.rxMsgSize) :
    (m.drop i).take n = (e.rxMsg.drop i).take n := by
  have hcut := congrArg (fun l : List UInt8 => (l.drop i).take n) h
  simp only [drop_take, take_take] at hcut
  rwa [Nat.min_eq_left (by omega)] at hcut

/-! ### SYS and CMD -/

theorem parseSys_holding (hsize : 0 < e.rxMsgSize) : Alike e.parseSys (e.holding m).parseSys := by
  rw [parseSys, parseSys, rx_holding h hsize, infoFlags_holding]
  split
  · split
    · exact ⟨rfl, m, rfl⟩
    · exact ⟨rfl, m, rfl⟩
  · exact ⟨rfl, m, rfl⟩

theorem parseType_holding (hsize : 2 ≤ e.rxMsgSize) :
    Alike e.parseType (e.holding m).parseType := by
  rw [parseType, parseType, rx_holding h hsize]
  split
  · exact ⟨rfl, m, rfl⟩
  · exact ⟨rfl, m, rfl⟩

theorem numModes_holding : (e.holding m).numModes = e.numModes := by
  have hannounced : (e.holding m).announcedModes = e.announcedModes := by
    rw [announcedModes, announcedModes, cmd2_holding h]
    by_cases hsize : e.rxMsgSize > 5
    · rw [if_pos hsize, rxMsgSize_holding, if_pos hsize, rx_holding h (by omega)]
    · rw [if_neg hsize, rxMsgSize_holding, if_neg hsize]
  rw [numModes, numModes, hannounced]

theorem parseModes_holding : Alike e.parseModes (e.holding m).parseModes := by
  rw [parseModes, parseModes, cmd2_holding h, numModes_holding h,
    infoFlags_holding]
  split
  · exact ⟨rfl, m, rfl⟩
  · split
    · exact ⟨rfl, m, rfl⟩
    · exact ⟨rfl, m, rfl⟩

theorem parseSpeed_holding (hsize : 5 ≤ e.rxMsgSize) :
    Alike e.parseSpeed (e.holding m).parseSpeed := by
  rw [parseSpeed, parseSpeed, rx32_holding h hsize,
    infoFlags_holding]
  split
  · exact ⟨rfl, m, rfl⟩
  · split
    · exact ⟨rfl, m, rfl⟩
    · exact ⟨rfl, m, rfl⟩

theorem parseVersion_holding (hsize : 9 ≤ e.rxMsgSize) :
    Alike e.parseVersion (e.holding m).parseVersion := by
  rw [parseVersion, parseVersion, rx32_holding h (by omega), rx32_holding h (by omega),
    infoFlags_holding]
  split
  · exact ⟨rfl, m, rfl⟩
  · exact ⟨rfl, m, rfl⟩

/-! ### INFO -/

theorem nameString_holding (hsize : 3 ≤ e.rxMsgSize) (hroom : e.rxMsgSize ≤ e.rxMsg.length)
    (hnul : e.rx (e.rxMsgSize - 1) = 0) : (e.holding m).nameString = e.nameString := by
  have hmem : (0 : UInt8) ∈ (e.rxMsg.take e.rxMsgSize).drop 2 := by
    rw [← hnul, mem_iff_getElem?]
    refine ⟨e.rxMsgSize - 1 - 2, ?_⟩
    rw [List.getElem?_drop, show 2 + (e.rxMsgSize - 1 - 2) = e.rxMsgSize - 1 by omega,
      List.getElem?_take_of_lt (by omega), rx, getD_eq_getElem?_getD,
      List.getElem?_eq_getElem (by omega)]
    rfl
  have hcut : ∀ l : List UInt8, l.take e.rxMsgSize = e.rxMsg.take e.rxMsgSize →
      (l.drop 2).takeWhile (· ≠ 0) = ((e.rxMsg.take e.rxMsgSize).drop 2).takeWhile (· ≠ 0) := by
    intro l hl
    have hsplit : l.drop 2 = (e.rxMsg.take e.rxMsgSize).drop 2 ++ l.drop e.rxMsgSize := by
      rw [← drop_append_of_le_length (by rw [length_take]; omega), ← hl,
        take_append_drop]
    rw [hsplit, takeWhile_append, if_neg]
    intro hall
    have hself := (List.takeWhile_prefix _).eq_of_length hall
    exact absurd (mem_takeWhile_imp (hself ▸ hmem)) (by decide)
  exact (hcut m h).trans (hcut e.rxMsg rfl).symm

theorem frameModeFlags_holding (hname : (e.holding m).nameString = e.nameString) :
    (e.holding m).frameModeFlags = e.frameModeFlags := by
  rw [frameModeFlags, frameModeFlags, hname]
  by_cases hlong : e.nameString.length ≤ 5 ∧ e.rxMsgSize > 12
  · rw [if_pos hlong, rxMsgSize_holding, if_pos hlong, rx_holding h (by omega)]
  · rw [if_neg hlong, rxMsgSize_holding, if_neg hlong]

theorem parseName_holding (mode : UInt8) (hsize : 3 ≤ e.rxMsgSize)
    (hroom : e.rxMsgSize ≤ e.rxMsg.length) :
    Alike (e.parseName mode) ((e.holding m).parseName mode) := by
  -- The frame with the checksum overwritten, in either buffer.
  let cut : Engine := e.holding (e.rxMsg.set (e.rxMsgSize - 1) 0)
  let m' := m.set (e.rxMsgSize - 1) 0
  have hcut : m'.take cut.rxMsgSize = cut.rxMsg.take cut.rxMsgSize := by
    show (m.set _ 0).take e.rxMsgSize = (e.rxMsg.set _ 0).take e.rxMsgSize
    rw [take_set, take_set, h]
  have hnul : cut.rx (cut.rxMsgSize - 1) = 0 := by
    show (e.rxMsg.set (e.rxMsgSize - 1) 0).getD (e.rxMsgSize - 1) 0 = 0
    rw [getD_eq_getElem?_getD, List.getElem?_set_self (by omega)]
    rfl
  have hlen : cut.rxMsgSize ≤ cut.rxMsg.length := by
    show e.rxMsgSize ≤ (e.rxMsg.set _ 0).length
    rw [length_set]
    exact hroom
  have hname := nameString_holding hcut hsize hlen hnul
  have hflags := frameModeFlags_holding hcut hname
  show Alike (if cut.rx 2 < 0x41 ∨ cut.rx 2 > 0x7a then _ else _)
    (if (cut.holding m').rx 2 < 0x41 ∨ (cut.holding m').rx 2 > 0x7a then _ else _)
  rw [rx_holding hcut (show 2 < cut.rxMsgSize from hsize)]
  split
  · exact ⟨rfl, m', rfl⟩
  · show Alike _ (OK, ({ cut.holding m' with
      infoFlags := _, newMode := _
      info := { DeviceInfo.setMode e.info mode fun mi =>
          { mi with
            name := nameField (cut.holding m').nameString
            modeFlags := (cut.holding m').frameModeFlags } with
        capabilityFlags := _ ||| (cut.holding m').frameModeFlags } } : Engine))
    rw [hname, hflags]
    exact ⟨rfl, m', rfl⟩

theorem parseRange_holding (mode : UInt8) (set : UInt32 × UInt32 → ModeInfo → ModeInfo) :
    Alike (e.parseRange mode set) ((e.holding m).parseRange mode set) := by
  rw [parseRange, parseRange, rxMsgSize_holding]
  split
  · next hlong =>
    rw [rx32_holding h (by omega), rx32_holding h (by omega)]
    exact ⟨rfl, m, rfl⟩
  · exact ⟨rfl, m, rfl⟩

theorem parseUnits_holding (mode : UInt8) (hsize : 3 ≤ e.rxMsgSize) :
    Alike (e.parseUnits mode) ((e.holding m).parseUnits mode) := by
  have hcopy : (m.drop 2).take (min (e.rxMsgSize - 3) maxUnitsLen) =
      (e.rxMsg.drop 2).take (min (e.rxMsgSize - 3) maxUnitsLen) :=
    stretch_holding h (by omega)
  unfold parseUnits
  dsimp only [holding]
  rw [hcopy]
  exact ⟨rfl, m, rfl⟩

theorem parseMapping_holding (mode : UInt8) :
    Alike (e.parseMapping mode) ((e.holding m).parseMapping mode) := by
  rw [parseMapping, parseMapping, rxMsgSize_holding]
  split
  · next hlong =>
    rw [rx_holding h (by omega)]
    exact ⟨rfl, m, rfl⟩
  · exact ⟨rfl, m, rfl⟩

theorem parseFormat_holding (mode : UInt8) :
    Alike (e.parseFormat mode) ((e.holding m).parseFormat mode) := by
  rw [parseFormat, parseFormat, rxMsgSize_holding, newMode_holding, infoFlags_holding]
  split
  · exact ⟨rfl, m, rfl⟩
  split
  · exact ⟨rfl, m, rfl⟩
  next hlong =>
    split
    · exact ⟨rfl, m, rfl⟩
    rw [rx_holding h (by omega), rx_holding h (by omega)]
    dsimp only [holding]
    split
    · exact ⟨rfl, m, rfl⟩
    · exact ⟨rfl, m, rfl⟩

theorem parseInfo_holding (mode cmd2 : UInt8) (hsize : 3 ≤ e.rxMsgSize)
    (hroom : e.rxMsgSize ≤ e.rxMsg.length) :
    Alike (e.parseInfo mode cmd2) ((e.holding m).parseInfo mode cmd2) := by
  unfold parseInfo
  split
  · exact parseName_holding h mode hsize hroom
  split
  · exact parseRange_holding h mode _
  split
  · exact parseRange_holding h mode _
  split
  · exact parseRange_holding h mode _
  split
  · exact parseUnits_holding h mode hsize
  split
  · exact parseMapping_holding h mode
  split
  · exact parseFormat_holding h mode
  · exact ⟨rfl, m, rfl⟩

/-! ### DATA -/

theorem parseData_holding (hsize : 1 + payloadSize (e.rx 0) ≤ e.rxMsgSize) :
    (e.holding m).parseData = (e.parseData.1.holding m, e.parseData.2) := by
  have hheader : (e.holding m).rx 0 = e.rx 0 := rx_holding h (by omega)
  have hpayload : (e.holding m).dataPayload = e.dataPayload := by
    rw [dataPayload, dataPayload, hheader]
    exact stretch_holding h hsize
  have hdeliver : ∀ mode, (e.holding m).deliver mode =
      ((e.deliver mode).1.holding m, (e.deliver mode).2) := by
    intro mode
    rw [deliver, deliver, dataFrame, dataFrame, hheader, hpayload]
    rfl
  rw [parseData, parseData, hheader, extMode_holding, hdeliver]
  split
  · rfl
  · split
    · rfl
    · rfl

/-! ### The whole parse -/

theorem parseCmd_holding (hsize : 2 ≤ e.rxMsgSize)
    (hspeed : msgCmd (e.rx 0) = cmdSpeed → Alike e.parseSpeed (e.holding m).parseSpeed)
    (hversion : msgCmd (e.rx 0) = cmdVersion → Alike e.parseVersion (e.holding m).parseVersion) :
    Alike e.parseCmd (e.holding m).parseCmd := by
  rw [parseCmd, parseCmd, rx_holding h (by omega), rx_holding h hsize]
  split
  · exact parseType_holding h hsize
  split
  · exact parseModes_holding h
  split
  · next hcmd => exact hspeed hcmd
  split
  · next hcmd => exact hversion hcmd
  split
  · exact ⟨rfl, m, rfl⟩
  split
  · exact ⟨rfl, m, rfl⟩
  · exact ⟨rfl, m, rfl⟩

end frame

end Engine

def Parsed.Alike (p q : Parsed) : Prop :=
  q.ret = p.ret ∧ q.calls = p.calls ∧ ∃ m, q.engine = p.engine.holding m

theorem Parsed.alike_quiet {p q : Int × Engine} (h : Engine.Alike p q) :
    Alike (.quiet p) (.quiet q) :=
  ⟨h.1, rfl, h.2⟩

/-- Whatever earlier frames have left behind it, the frame is parsed alike. -/
def FrameLocal (e : Engine) (f : Frame) : Prop :=
  ∀ left right : List UInt8, left.length = rxMsgBytes → right.length = rxMsgBytes →
    Parsed.Alike (parseMsg ((e.holding left).receive f)) (parseMsg ((e.holding right).receive f))

/-- The first three bytes behind the header. -/
def Frame.speed24 (f : Frame) : Nat :=
  (f.bytes.getD 1 0).toNat + 256 * (f.bytes.getD 2 0).toNat + 65536 * (f.bytes.getD 3 0).toNat

/-- A `CMD SPEED` that takes its top bytes from an earlier frame. With a payload of two bytes only
the last is missing, and any but 0 is refused. -/
def Frame.ShortSpeed (e : Engine) (f : Frame) : Prop :=
  f.cmd = cmdSpeed ∧ e.infoFlags &&& ifCmdSpeed = 0 ∧
    (payloadSize f.header = 1 ∨
      payloadSize f.header = 2 ∧ baudFallback.toNat ≤ f.speed24 ∧ f.speed24 ≤ baudMax.toNat)

/-- A `CMD VERSION` without the second version. -/
def Frame.ShortVersion (e : Engine) (f : Frame) : Prop :=
  f.cmd = cmdVersion ∧ e.infoFlags &&& ifCmdVersion = 0 ∧ payloadSize f.header < 8

/-- A frame that is not dropped and whose handler reads behind it. -/
def Frame.ReadsBehind (e : Engine) (f : Frame) : Prop :=
  f.type = .cmd ∧ f.cmd + e.extMode < maxModes ∧ (f.ShortSpeed e ∨ f.ShortVersion e)

/-! ## Sizes -/

theorem payloadSize_cases (header : UInt8) :
    payloadSize header = 1 ∨ payloadSize header = 2 ∨ payloadSize header = 4 ∨
      8 ≤ payloadSize header := by
  unfold payloadSize
  rw [Nat.one_shiftLeft]
  match ((header &&& 0x38) >>> 3).toNat with
  | 0 => exact .inl rfl
  | 1 => exact .inr (.inl rfl)
  | 2 => exact .inr (.inr (.inl rfl))
  | k + 3 =>
    have hpow := Nat.one_le_two_pow (n := k)
    exact .inr (.inr (.inr (by rw [Nat.pow_add]; omega)))

theorem Frame.three_le (f : Frame) (h : f.type ≠ .sys) : 3 ≤ f.bytes.length := by
  have hpayload : 1 ≤ payloadSize f.header := by
    have := payloadSize_cases f.header
    omega
  rw [f.length_eq]
  show 3 ≤ totalSize f.header
  unfold totalSize
  split
  · next hsys => exact absurd hsys h
  · omega
  · omega
  · omega

namespace Engine

/-! ## The same frame in two buffers -/

theorem take_receive (e : Engine) (f : Frame) :
    (e.receive f).rxMsg.take f.bytes.length = f.bytes := by
  show (e.rxMsg.overlay 0 f.bytes).take _ = _
  rw [List.overlay, take_zero, nil_append, take_left]

theorem length_receive_le (e : Engine) (f : Frame) :
    (e.receive f).rxMsgSize ≤ (e.receive f).rxMsg.length := by
  show f.bytes.length ≤ (e.rxMsg.overlay 0 f.bytes).length
  rw [List.overlay, take_zero, nil_append, length_append]
  omega

theorem rx_behind (e : Engine) (f : Frame) (left : List UInt8) {i : Nat}
    (hi : f.bytes.length ≤ i) : ((e.holding left).receive f).rx i = left.getD i 0 := by
  show (left.overlay 0 f.bytes).getD i 0 = _
  rw [List.overlay, take_zero, nil_append, getD_append_right _ _ _ _ hi,
    getD_eq_getElem?_getD, List.getElem?_drop, getD_eq_getElem?_getD,
    show 0 + f.bytes.length + (i - f.bytes.length) = i by omega]

theorem toNat_rx32 (e : Engine) (i : Nat) :
    (e.rx32 i).toNat = (e.rx i).toNat + 256 * (e.rx (i + 1)).toNat
      + 65536 * (e.rx (i + 2)).toNat + 16777216 * (e.rx (i + 3)).toNat := by
  have h0 := (e.rx i).toNat_lt
  have h1 := (e.rx (i + 1)).toNat_lt
  have h2 := (e.rx (i + 2)).toNat_lt
  have h3 := (e.rx (i + 3)).toNat_lt
  have hshift : ∀ b k : Nat, k ≤ 24 → b < 2 ^ 8 → b <<< k % 2 ^ 32 = b <<< k := by
    intro b k hk hb
    apply Nat.mod_eq_of_lt
    rw [Nat.shiftLeft_eq]
    calc b * 2 ^ k < 2 ^ 8 * 2 ^ k := Nat.mul_lt_mul_of_pos_right hb (Nat.two_pow_pos k)
      _ = 2 ^ (8 + k) := (Nat.pow_add 2 8 k).symm
      _ ≤ 2 ^ 32 := Nat.pow_le_pow_right Nat.zero_lt_two (by omega)
  rw [rx32]
  simp only [UInt32.toNat_or, UInt32.toNat_shiftLeft, UInt8.toNat_toUInt32]
  rw [show (8 : UInt32).toNat % 32 = 8 from rfl, show (16 : UInt32).toNat % 32 = 16 from rfl,
    show (24 : UInt32).toNat % 32 = 24 from rfl, hshift _ 8 (by omega) h1,
    hshift _ 16 (by omega) h2, hshift _ 24 (by omega) h3]
  rw [Bytes.or_shiftLeft_eq_add (i := 8) h0, Bytes.or_shiftLeft_eq_add (i := 16) (by omega),
    Bytes.or_shiftLeft_eq_add (i := 24) (by omega)]
  omega

end Engine

/-! ## The two handlers that read on -/

section short

open Engine

variable {e : Engine} {f : Frame}

theorem quiet_parseCmd (htype : f.type = .cmd) (hmode : f.cmd + e.extMode < maxModes)
    (left : List UInt8) :
    parseMsg ((e.holding left).receive f) = .quiet ((e.holding left).receive f).parseCmd := by
  rw [parseMsg_receive, prologue_receive _ f (by rw [htype]; decide), htype]
  exact if_neg (UInt8.not_le.mpr hmode)

theorem length_short (htype : f.type = .cmd) : f.bytes.length = payloadSize f.header + 2 := by
  rw [f.length_cmd htype]
  omega

theorem rx32_short (left : List UInt8) (hlen : f.bytes.length = 4) :
    (((e.holding left).receive f).rx32 1).toNat =
      f.speed24 + 16777216 * (left.getD 4 0).toNat := by
  rw [toNat_rx32, rx_receive _ f (by omega), rx_receive _ f (by omega), rx_receive _ f (by omega),
    rx_behind e f left (by omega)]
  rfl

theorem rx32_shorter (left : List UInt8) (hlen : f.bytes.length = 3) :
    (((e.holding left).receive f).rx32 1).toNat =
      (f.bytes.getD 1 0).toNat + 256 * (f.bytes.getD 2 0).toNat +
        65536 * (left.getD 3 0).toNat + 16777216 * (left.getD 4 0).toNat := by
  rw [toNat_rx32, rx_receive _ f (by omega), rx_receive _ f (by omega),
    rx_behind e f left (by omega), rx_behind e f left (by omega)]

theorem parseSpeed_accepts (hflag : e.infoFlags &&& ifCmdSpeed = 0)
    (hmin : baudFallback.toNat ≤ (e.rx32 1).toNat) (hmax : (e.rx32 1).toNat ≤ baudMax.toNat) :
    e.parseSpeed =
      (OK, { e with infoFlags := e.infoFlags ||| ifCmdSpeed, newBaudRate := e.rx32 1 }) := by
  rw [parseSpeed, if_neg (not_not.mpr hflag), if_neg]
  rintro (h | h)
  · exact absurd (UInt32.lt_iff_toNat_lt.mp h) (Nat.not_lt.mpr hmin)
  · exact absurd (UInt32.lt_iff_toNat_lt.mp h) (Nat.not_lt.mpr hmax)

theorem parseSpeed_refuses
    (h : (e.rx32 1).toNat < baudFallback.toNat ∨ baudMax.toNat < (e.rx32 1).toNat) :
    e.parseSpeed = (-EILSEQ, e) := by
  rw [parseSpeed]
  split
  · rfl
  · exact if_pos (h.imp UInt32.lt_iff_toNat_lt.mpr UInt32.lt_iff_toNat_lt.mpr)

theorem parseCmd_speed (hcmd : f.cmd = cmdSpeed) (left : List UInt8) :
    ((e.holding left).receive f).parseCmd = ((e.holding left).receive f).parseSpeed := by
  rw [parseCmd, rx_receive_zero, show msgCmd f.header = cmdSpeed from hcmd]
  rfl

theorem parseCmd_version (hcmd : f.cmd = cmdVersion) (left : List UInt8) :
    ((e.holding left).receive f).parseCmd = ((e.holding left).receive f).parseVersion := by
  rw [parseCmd, rx_receive_zero, show msgCmd f.header = cmdVersion from hcmd]
  rfl

/-- What an earlier frame may have left: zeros, and one byte. -/
def leftover (i : Nat) (byte : UInt8) : List UInt8 := (List.replicate rxMsgBytes 0).set i byte

theorem length_leftover (i : Nat) (byte : UInt8) : (leftover i byte).length = rxMsgBytes := by
  rw [leftover, length_set, length_replicate]

theorem take_overlay (e : Engine) (f : Frame) (left right : List UInt8) :
    (right.overlay 0 f.bytes).take ((e.holding left).receive f).rxMsgSize =
      ((e.holding left).receive f).rxMsg.take ((e.holding left).receive f).rxMsgSize :=
  ((e.holding right).take_receive f).trans ((e.holding left).take_receive f).symm

theorem parseSpeed_alike (htype : f.type = .cmd) (hcmd : f.cmd = cmdSpeed)
    (left right : List UInt8) (hshort : ¬ f.ShortSpeed e) :
    Alike ((e.holding left).receive f).parseSpeed ((e.holding right).receive f).parseSpeed := by
  have hlen := length_short htype
  by_cases hflag : e.infoFlags &&& ifCmdSpeed = 0
  · rcases payloadSize_cases f.header with hone | htwo | hfour
    · exact absurd ⟨hcmd, hflag, .inl hone⟩ hshort
    · have hrange : f.speed24 < baudFallback.toNat ∨ baudMax.toNat < f.speed24 := by
        by_contra hin
        push Not at hin
        exact hshort ⟨hcmd, hflag, .inr ⟨htwo, hin⟩⟩
      have hrefused : ∀ m, ((e.holding m).receive f).parseSpeed =
          (-EILSEQ, (e.holding m).receive f) := by
        intro m
        apply parseSpeed_refuses
        rw [rx32_short m (by omega)]
        show _ < 2400 ∨ 460800 < _
        have hlow : baudFallback.toNat = 2400 := rfl
        have hhigh : baudMax.toNat = 460800 := rfl
        omega
      rw [hrefused, hrefused]
      exact ⟨rfl, _, rfl⟩
    · exact parseSpeed_holding (take_overlay e f left right) (by
        show 5 ≤ f.bytes.length
        omega)
  · have hrefused : ∀ m, ((e.holding m).receive f).parseSpeed =
        (-EILSEQ, (e.holding m).receive f) := fun m => if_pos hflag
    rw [hrefused, hrefused]
    exact ⟨rfl, _, rfl⟩

theorem parseVersion_alike (htype : f.type = .cmd) (hcmd : f.cmd = cmdVersion)
    (left right : List UInt8) (hshort : ¬ f.ShortVersion e) :
    Alike ((e.holding left).receive f).parseVersion
      ((e.holding right).receive f).parseVersion := by
  have hlen := length_short htype
  by_cases hflag : e.infoFlags &&& ifCmdVersion = 0
  · have height : ¬ payloadSize f.header < 8 := fun hlt => hshort ⟨hcmd, hflag, hlt⟩
    exact parseVersion_holding (take_overlay e f left right) (by
      show 9 ≤ f.bytes.length
      omega)
  · have hrefused : ∀ m, ((e.holding m).receive f).parseVersion =
        (-EILSEQ, (e.holding m).receive f) := fun m => if_pos hflag
    rw [hrefused, hrefused]
    exact ⟨rfl, _, rfl⟩

theorem not_frameLocal_of_shortSpeed (htype : f.type = .cmd)
    (hmode : f.cmd + e.extMode < maxModes) (h : f.ShortSpeed e) : ¬ FrameLocal e f := by
  obtain ⟨hcmd, hflag, hshort⟩ := h
  have hlen := length_short htype
  have hparse : ∀ left, parseMsg ((e.holding left).receive f) =
      .quiet ((e.holding left).receive f).parseSpeed := by
    intro left
    rw [quiet_parseCmd htype hmode, parseCmd_speed hcmd]
  intro hlocal
  rcases hshort with hone | ⟨htwo, hmin, hmax⟩
  · -- The upper half is that of an earlier frame, and any of 1 to 6 is accepted.
    have hspeed : ∀ byte : UInt8, 1 ≤ byte.toNat → byte.toNat ≤ 2 →
        ((e.holding (leftover 3 byte)).receive f).parseSpeed.2.newBaudRate.toNat =
          (f.bytes.getD 1 0).toNat + 256 * (f.bytes.getD 2 0).toNat + 65536 * byte.toNat := by
      intro byte hlo hhi
      have hval : (((e.holding (leftover 3 byte)).receive f).rx32 1).toNat =
          (f.bytes.getD 1 0).toNat + 256 * (f.bytes.getD 2 0).toNat + 65536 * byte.toNat :=
        rx32_shorter (leftover 3 byte) (by omega)
      have h1 := (f.bytes.getD 1 0).toNat_lt
      have h2 := (f.bytes.getD 2 0).toNat_lt
      rw [parseSpeed_accepts (e := (e.holding (leftover 3 byte)).receive f) hflag
        (by show 2400 ≤ _; omega) (by show _ ≤ 460800; omega)]
      exact hval
    obtain ⟨-, -, m, hengine⟩ :=
      hlocal (leftover 3 1) (leftover 3 2) (length_leftover 3 1) (length_leftover 3 2)
    rw [hparse, hparse] at hengine
    have hbaud := congrArg (fun e : Engine => e.newBaudRate.toNat) hengine
    have hleft := hspeed 1 (by decide) (by decide)
    have hright := hspeed 2 (by decide) (by decide)
    have hsame : ((e.holding (leftover 3 2)).receive f).parseSpeed.2.newBaudRate.toNat =
        ((e.holding (leftover 3 1)).receive f).parseSpeed.2.newBaudRate.toNat := hbaud
    have h1 : (1 : UInt8).toNat = 1 := rfl
    have h2 : (2 : UInt8).toNat = 2 := rfl
    omega
  · -- With the last byte 0 the speed is accepted, with any other it is too high.
    have hval : ∀ byte : UInt8,
        (((e.holding (leftover 4 byte)).receive f).rx32 1).toNat =
          f.speed24 + 16777216 * byte.toNat :=
      fun byte => rx32_short (leftover 4 byte) (by omega)
    obtain ⟨hret, -, -⟩ :=
      hlocal (leftover 4 0) (leftover 4 1) (length_leftover 4 0) (length_leftover 4 1)
    rw [hparse, hparse,
      parseSpeed_accepts (e := (e.holding (leftover 4 0)).receive f) hflag
        (by rw [hval]; exact hmin) (by rw [hval]; exact hmax),
      parseSpeed_refuses (e := (e.holding (leftover 4 1)).receive f)
        (.inr (by rw [hval]; show 460800 < _ + 16777216 * 1; omega))] at hret
    exact absurd (show -EILSEQ = OK from hret) (by decide)

theorem not_frameLocal_of_shortVersion (htype : f.type = .cmd)
    (hmode : f.cmd + e.extMode < maxModes) (h : f.ShortVersion e) : ¬ FrameLocal e f := by
  obtain ⟨hcmd, hflag, hshort⟩ := h
  have hlen := length_short htype
  have hsizes := payloadSize_cases f.header
  have hversion : ∀ byte : UInt8,
      (((parseMsg ((e.holding (leftover 8 byte)).receive f)).engine.info.hwVersion).toNat) /
          16777216 =
        byte.toNat := by
    intro byte
    rw [quiet_parseCmd htype hmode, parseCmd_version hcmd]
    show (parseVersion _).2.info.hwVersion.toNat / _ = _
    have hfirst : ¬ ((e.holding (leftover 8 byte)).receive f).infoFlags &&& ifCmdVersion ≠ 0 :=
      not_not.mpr hflag
    rw [parseVersion, if_neg hfirst]
    show (((e.holding (leftover 8 byte)).receive f).rx32 5).toNat / 16777216 = byte.toNat
    have h5 := (((e.holding (leftover 8 byte)).receive f).rx 5).toNat_lt
    have h6 := (((e.holding (leftover 8 byte)).receive f).rx (5 + 1)).toNat_lt
    have h7 := (((e.holding (leftover 8 byte)).receive f).rx (5 + 2)).toNat_lt
    have h8 : ((e.holding (leftover 8 byte)).receive f).rx (5 + 3) = byte :=
      rx_behind e f (leftover 8 byte) (by omega)
    rw [toNat_rx32, h8]
    omega
  intro hlocal
  obtain ⟨-, -, m, hengine⟩ :=
    hlocal (leftover 8 0) (leftover 8 1) (length_leftover 8 0) (length_leftover 8 1)
  have hleft := hversion 0
  have hright := hversion 1
  rw [hengine] at hright
  exact absurd (hleft.symm.trans hright) (by decide)

end short

/-! ## Every frame -/

/-- **A frame is parsed alike whatever is left behind it, exactly if it is no short `CMD SPEED` or
`CMD VERSION`.** -/
theorem frameLocal_iff (e : Engine) (f : Frame) : FrameLocal e f ↔ ¬ f.ReadsBehind e := by
  constructor
  · rintro hlocal ⟨htype, hmode, hspeed | hversion⟩
    · exact not_frameLocal_of_shortSpeed htype hmode hspeed hlocal
    · exact not_frameLocal_of_shortVersion htype hmode hversion hlocal
  · intro hbehind left right _ _
    let l := (e.holding left).receive f
    let r := (e.holding right).receive f
    have hsame : (right.overlay 0 f.bytes).take l.rxMsgSize = l.rxMsg.take l.rxMsgSize :=
      take_overlay e f left right
    have hpos : 0 < l.rxMsgSize := f.length_pos
    have hheader : l.rx 0 = f.header := (e.holding left).rx_receive_zero f
    have hprologue : r.prologue = l.prologue := Engine.prologue_holding hsame hpos
    rw [parseMsg_receive, parseMsg_receive, show ((e.holding right).receive f).prologue = _ from
      hprologue]
    by_cases hmode : l.prologue.1 ≥ maxModes
    · rw [if_pos hmode, if_pos hmode]
      exact ⟨rfl, rfl, _, rfl⟩
    rw [if_neg hmode, if_neg hmode]
    cases htype : f.type with
    | sys => exact Parsed.alike_quiet (Engine.parseSys_holding hsame hpos)
    | cmd =>
      have hthree : 3 ≤ l.rxMsgSize := f.three_le (by rw [htype]; decide)
      have hwindow : f.cmd + e.extMode < maxModes := by
        rw [Engine.prologue_receive _ f (by rw [htype]; decide)] at hmode
        exact UInt8.not_le.mp hmode
      apply Parsed.alike_quiet
      apply Engine.parseCmd_holding hsame (by omega)
      · intro hcmd
        rw [Engine.rx_receive_zero] at hcmd
        exact parseSpeed_alike htype hcmd left right
          fun hshort => hbehind ⟨htype, hwindow, .inl hshort⟩
      · intro hcmd
        rw [Engine.rx_receive_zero] at hcmd
        exact parseVersion_alike htype hcmd left right
          fun hshort => hbehind ⟨htype, hwindow, .inr hshort⟩
    | info =>
      have hthree : 3 ≤ l.rxMsgSize := f.three_le (by rw [htype]; decide)
      exact Parsed.alike_quiet (Engine.parseInfo_holding hsame _ _ hthree
        ((e.holding left).length_receive_le f))
    | data =>
      have hlen : 1 + payloadSize (l.rx 0) ≤ l.rxMsgSize := by
        have hbytes := f.length_data htype
        rw [hheader]
        show _ ≤ f.bytes.length
        omega
      have hdata : r.parseData = _ := Engine.parseData_holding hsame hlen
      rw [show ((e.holding right).receive f).parseData = _ from hdata]
      exact ⟨rfl, rfl, _, rfl⟩

/-- A `CMD SPEED` of one byte, at a port that has just been booted. -/
theorem not_frameLocal_speed :
    ¬ ∀ (e : Engine) (f : Frame), FrameLocal e f := by
  intro h
  exact not_frameLocal_of_shortSpeed (e := Engine.boot true true)
    (f := ⟨[0x42, 0x00, 0xbd], by decide, by decide, by decide⟩) (by decide) (by decide)
    ⟨by decide, by decide, by decide⟩ (h _ _)

end Brickwright.Lump
