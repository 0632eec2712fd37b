import Brickwright.Lump.Requests.Basic

/-!
# What is sent is received

The sender picks a size class for a payload, pads it, and adds a checksum; the receiver reads the
length of a frame off its header. `recvMsg_sendMsg` is where the two meet: a message whose payload
has the size its header announces is received whole, and the reads behind it are left. `sizeClass`
announces the least power of two that holds the payload, so every packet that passes the check of
the send path is such a message, and so is every command with the header of `lump_cmd_header`.
-/

namespace Brickwright.Lump

open List

/-- `lump_cmd_header`: the header, and the length the payload is to be padded to. -/
def cmdHeader (cmd : UInt8) (payloadLen : Nat) : UInt8 × Nat :=
  ((0x40 : UInt8) ||| ((sizeClass payloadLen).1 <<< 3 &&& 0x38) ||| (cmd &&& 0x07),
    (sizeClass payloadLen).2)

/-- What a device that reads these bytes and then more is read. -/
def wire (bytes : List UInt8) (rest : List Read) : List Read := bytes.map .byte ++ rest

/-! ## Size classes -/

def PowerOfTwo (n : Nat) : Prop := ∃ k, n = 2 ^ k

theorem sizeClass_eq (len : Nat) : ∃ k : Fin 6, sizeClass len = (UInt8.ofNat k, 2 ^ k.val) := by
  unfold sizeClass
  split
  · exact ⟨0, rfl⟩
  split
  · exact ⟨1, rfl⟩
  split
  · exact ⟨2, rfl⟩
  split
  · exact ⟨3, rfl⟩
  split
  · exact ⟨4, rfl⟩
  · exact ⟨5, rfl⟩

/-- **The class is the least** power of two that holds the payload. -/
theorem sizeClass_isLeast {len : Nat} (hlen : len ≤ maxPayload) :
    IsLeast {n | PowerOfTwo n ∧ len ≤ n} (sizeClass len).2 := by
  constructor
  · obtain ⟨k, hk⟩ := sizeClass_eq len
    refine ⟨⟨k, by rw [hk]⟩, ?_⟩
    unfold maxPayload at hlen
    unfold sizeClass
    grind
  · rintro n ⟨⟨k, rfl⟩, hn⟩
    have hk : ∀ j, 2 ^ j < len → 2 ^ (j + 1) ≤ 2 ^ k := by
      intro j hj
      have hlt : 2 ^ j < 2 ^ k := Nat.lt_of_lt_of_le hj hn
      have hjk : j < k := (Nat.pow_lt_pow_iff_right Nat.one_lt_two).mp hlt
      exact Nat.pow_le_pow_right Nat.zero_lt_two hjk
    have h1 := hk 1
    have h2 := hk 2
    have h3 := hk 3
    have h4 := hk 4
    unfold sizeClass
    grind

/-! ## Headers -/

theorem exists_low_bits (c : UInt8) : ∃ k : Fin 8, c &&& 0x07 = UInt8.ofNat k := by
  have hlt : (c &&& 0x07).toNat < 8 := by
    exact Nat.lt_succ_of_le Nat.and_le_right
  exact ⟨⟨(c &&& 0x07).toNat, hlt⟩, (UInt8.ofNat_toNat).symm⟩

theorem cmd_header_fields : ∀ (code : Fin 6) (k : Fin 8),
    let header := (0x40 : UInt8) ||| (UInt8.ofNat code <<< 3 &&& 0x38) ||| UInt8.ofNat k
    msgType header = .cmd ∧ payloadSize header = 2 ^ code.val ∧ msgCmd header = UInt8.ofNat k := by
  decide

theorem data_header_fields : ∀ (code : Fin 6) (k : Fin 8),
    let header := (0xc0 : UInt8) ||| (UInt8.ofNat code <<< 3 &&& 0x38) ||| UInt8.ofNat k
    msgType header = .data ∧ payloadSize header = 2 ^ code.val ∧ msgCmd header = UInt8.ofNat k := by
  decide

theorem cmdHeader_fields (cmd : UInt8) (len : Nat) :
    msgType (cmdHeader cmd len).1 = .cmd ∧
      payloadSize (cmdHeader cmd len).1 = (sizeClass len).2 ∧
      msgCmd (cmdHeader cmd len).1 = cmd &&& 0x07 := by
  obtain ⟨code, hcode⟩ := sizeClass_eq len
  obtain ⟨k, hk⟩ := exists_low_bits cmd
  rw [cmdHeader, hcode, hk]
  exact cmd_header_fields code k

theorem dataHeader_fields (mode : UInt8) (len : Nat) :
    let header := (0xc0 : UInt8) ||| ((sizeClass len).1 <<< 3 &&& 0x38) ||| (mode &&& 0x07)
    msgType header = .data ∧ payloadSize header = (sizeClass len).2 ∧
      msgCmd header = mode &&& 0x07 := by
  obtain ⟨code, hcode⟩ := sizeClass_eq len
  obtain ⟨k, hk⟩ := exists_low_bits mode
  rw [hcode, hk]
  exact data_header_fields code k

/-! ## Receiving a message -/

theorem readBytes_wire (bytes : List UInt8) (rest : List Read) :
    readBytes bytes.length (wire bytes rest) = some (bytes, OK, rest) := by
  induction bytes with
  | nil =>
    cases rest
    · rfl
    · rfl
  | cons b bytes ih =>
    rw [wire, map_cons, cons_append, length_cons, readBytes]
    rw [wire] at ih
    rw [ih]

theorem checksumHolds_sendMsg (header : UInt8) (payload : List UInt8) :
    checksumHolds (sendMsg header payload) := by
  intro _
  have hlen : (sendMsg header payload).length - 1 = (header :: payload).length := by
    rw [sendMsg, length_append, length_singleton]
    rfl
  rw [hlen, sendMsg, take_left, getD_append_right _ _ _ _ (Nat.le_refl _), Nat.sub_self]
  rfl

/-- A message whose payload has the size its header announces is received, and nothing behind it. -/
theorem recvMsg_sendMsg {header : UInt8} {payload : List UInt8}
    (htype : msgType header = .cmd ∨ msgType header = .data)
    (hlen : payload.length = payloadSize header) (hfits : payload.length ≤ maxPayload)
    (rest : List Read) :
    ∃ f : Frame, f.bytes = sendMsg header payload ∧ f.header = header ∧ f.payload = payload ∧
      recvMsg (wire (sendMsg header payload) rest) = some ⟨OK, f.bytes, true, rest⟩ := by
  have htotal : totalSize header = payload.length + 2 := by
    unfold totalSize
    rcases htype with htype | htype
    · rw [htype]
      show 1 + payloadSize header + 1 = _
      omega
    · rw [htype]
      show 1 + payloadSize header + 1 = _
      omega
  have hsize : (sendMsg header payload).length = totalSize header := by
    rw [htotal, sendMsg, length_append, length_singleton, length_cons]
  have hroom : ¬ totalSize header > rxMsgBytes := by
    unfold maxPayload at hfits
    unfold rxMsgBytes
    omega
  have hsum := checksumHolds_sendMsg header payload
  refine ⟨⟨sendMsg header payload, hsize, by omega, hsum⟩, rfl, rfl, ?_, ?_⟩
  · show (payload ++ [_]).take (payloadSize header) = payload
    rw [← hlen, take_left]
  · have hread := readBytes_wire (payload ++ [xorChecksum (header :: payload)]) rest
    rw [length_append, length_singleton] at hread
    show recvMsg (.byte header :: wire (payload ++ [xorChecksum (header :: payload)]) rest) = _
    rw [recvMsg, if_neg hroom, show totalSize header - 1 = payload.length + 1 by omega, hread]
    have hsum' : ¬ ¬ checksumHolds (header :: (payload ++ [xorChecksum (header :: payload)])) :=
      not_not.mpr hsum
    show (if OK < 0 then _ else if ¬ checksumHolds _ then _ else _) = _
    rw [if_neg (by decide), if_neg hsum']
    rfl

/-! ## Packets -/

/-- The adder the receiver of an `EXT_MODE` adds to the modes of the headers behind it. -/
def modeAdder (mode : UInt8) : UInt8 := if mode > 7 then 8 else 0

theorem low_add_modeAdder {mode : UInt8} (h : mode < 16) :
    (mode &&& 0x07) + modeAdder mode = mode := by
  have hall : ∀ k : Fin 16,
      (UInt8.ofNat k &&& 0x07) + modeAdder (UInt8.ofNat k) = UInt8.ofNat k := by
    decide
  have hk := hall ⟨mode.toNat, UInt8.lt_iff_toNat_lt.mp h⟩
  rwa [UInt8.ofNat_toNat] at hk

/-- The frame a packet is received as. A DATA frame is about the mode that its header and the adder
before it give, and has the payload padded with zeros. -/
def Packet.Received (f : Frame) : Packet → Prop
  | .extMode mode => f.type = .cmd ∧ f.cmd = cmdExtMode ∧ f.payload = [modeAdder mode]
  | .select mode => f.type = .cmd ∧ f.cmd = cmdSelect ∧ f.payload = [mode &&& 0x07]
  | .data mode buf => f.type = .data ∧ f.cmd = mode &&& 0x07 ∧
    (mode < 16 → f.cmd + modeAdder mode = mode) ∧
    ∃ n, IsLeast {n | PowerOfTwo n ∧ buf.length ≤ n} n ∧
      f.payload = buf ++ List.replicate (n - buf.length) 0

theorem recvMsg_packet {p : Packet} (hp : p.sendable = true) (rest : List Read) :
    ∃ f : Frame, recvMsg (wire p.bytes rest) = some ⟨OK, f.bytes, true, rest⟩ ∧
      f.bytes = p.bytes ∧ p.Received f := by
  cases p with
  | extMode mode =>
    obtain ⟨f, hbytes, hheader, hpayload, hrecv⟩ :=
      recvMsg_sendMsg (show msgType (0x40 ||| cmdExtMode) = .cmd ∨ _ by decide)
        (show [modeAdder mode].length = payloadSize (0x40 ||| cmdExtMode) from rfl)
        (show 1 ≤ maxPayload by decide) rest
    refine ⟨f, hrecv, hbytes, ?_, ?_, hpayload⟩
    · rw [Frame.type, hheader]
      rfl
    · rw [Frame.cmd, hheader]
      rfl
  | select mode =>
    obtain ⟨f, hbytes, hheader, hpayload, hrecv⟩ :=
      recvMsg_sendMsg (show msgType (0x40 ||| cmdSelect) = .cmd ∨ _ by decide)
        (show [mode &&& 0x07].length = payloadSize (0x40 ||| cmdSelect) from rfl)
        (show 1 ≤ maxPayload by decide) rest
    refine ⟨f, hrecv, hbytes, ?_, ?_, hpayload⟩
    · rw [Frame.type, hheader]
      rfl
    · rw [Frame.cmd, hheader]
      rfl
  | data mode buf =>
    have hlen : buf.length ≤ maxPayload := (of_decide_eq_true hp).2
    have hleast := sizeClass_isLeast hlen
    obtain ⟨htype, hsize, hcmd⟩ := dataHeader_fields mode buf.length
    have hmax : (sizeClass buf.length).2 ≤ maxPayload :=
      hleast.2 ⟨⟨5, rfl⟩, hlen⟩
    have hpadded : (buf ++ List.replicate ((sizeClass buf.length).2 - buf.length) 0).length =
        (sizeClass buf.length).2 := by
      rw [length_append, length_replicate]
      exact Nat.add_sub_cancel' hleast.1.2
    obtain ⟨f, hbytes, hheader, hpayload, hrecv⟩ :=
      recvMsg_sendMsg (.inr htype) (hpadded.trans hsize.symm) (hpadded.trans_le hmax) rest
    have hlow : f.cmd = mode &&& 0x07 := by
      rw [Frame.cmd, hheader]
      exact hcmd
    refine ⟨f, hrecv, hbytes, ?_, hlow, ?_, (sizeClass buf.length).2, hleast, hpayload⟩
    · rw [Frame.type, hheader]
      exact htype
    · intro hmode
      rw [hlow]
      exact low_add_modeAdder hmode

theorem recvMsg_command {cmd : UInt8} {len : Nat} {payload : List UInt8}
    (hlen : payload.length = (cmdHeader cmd len).2) (rest : List Read) :
    ∃ f : Frame,
      recvMsg (wire (sendMsg (cmdHeader cmd len).1 payload) rest) =
        some ⟨OK, f.bytes, true, rest⟩ ∧
      f.bytes = sendMsg (cmdHeader cmd len).1 payload ∧
      f.type = .cmd ∧ f.cmd = cmd &&& 0x07 ∧ f.payload = payload := by
  obtain ⟨htype, hsize, hcmd⟩ := cmdHeader_fields cmd len
  have hmax : payload.length ≤ maxPayload := by
    obtain ⟨k, hk⟩ := sizeClass_eq len
    rw [hlen, cmdHeader, hk]
    exact Nat.pow_le_pow_right Nat.zero_lt_two (Nat.le_of_lt_succ k.isLt)
  obtain ⟨f, hbytes, hheader, hpayload, hrecv⟩ :=
    recvMsg_sendMsg (.inl htype) (hlen.trans hsize.symm) hmax rest
  refine ⟨f, hrecv, hbytes, ?_, ?_, hpayload⟩
  · rw [Frame.type, hheader]
    exact htype
  · rw [Frame.cmd, hheader]
    exact hcmd

/-! ## All that is written -/

/-- Calls of `lump_recv_msg`, one after the other, that are to be answered with these frames; what
is left to be read behind them. -/
def Accepts : List Read → List Frame → List Read → Prop
  | reads, [], rest => reads = rest
  | reads, f :: fs, rest =>
    ∃ more, recvMsg reads = some ⟨OK, f.bytes, true, more⟩ ∧ Accepts more fs rest

theorem wire_append (bytes bytes' : List UInt8) (rest : List Read) :
    wire (bytes ++ bytes') rest = wire bytes (wire bytes' rest) := by
  rw [wire, map_append, append_assoc]
  rfl

theorem accepts_packets {ps : List Packet} (hps : ∀ p ∈ ps, p.sendable = true) (rest : List Read) :
    ∃ fs, Accepts (wire (ps.flatMap Packet.bytes) rest) fs rest ∧
      List.Forall₂ (fun p f => f.bytes = p.bytes ∧ p.Received f) ps fs := by
  induction ps with
  | nil => exact ⟨[], rfl, List.Forall₂.nil⟩
  | cons p ps ih =>
    obtain ⟨fs, haccepts, hreceived⟩ := ih fun q hq => hps q (mem_cons_of_mem p hq)
    obtain ⟨f, hrecv, hf⟩ :=
      recvMsg_packet (hps p mem_cons_self) (wire (ps.flatMap Packet.bytes) rest)
    refine ⟨f :: fs, ⟨_, ?_, haccepts⟩, List.Forall₂.cons hf hreceived⟩
    rw [flatMap_cons, wire_append]
    exact hrecv

theorem low_bits_of_lt {cmd : UInt8} (h : cmd < 8) : cmd &&& 0x07 = cmd := by
  have hall : ∀ k : Fin 8, UInt8.ofNat k &&& 0x07 = UInt8.ofNat k := by decide
  have hk := hall ⟨cmd.toNat, UInt8.lt_iff_toNat_lt.mp h⟩
  rwa [UInt8.ofNat_toNat] at hk

/-- **Transmitting and receiving are inverse.** What the port thread writes for the requests it has
taken is received as just these frames, if the payload is one the send path takes. So is a command
with the header of `lump_cmd_header`, for every payload of the length it asks for. -/
theorem received_as_sent (e : Engine) (hsend : e.pendingSend = true →
      0 < e.pendingSendBuf.length ∧ e.pendingSendBuf.length ≤ maxPayload)
    {cmd : UInt8} (hcmd : cmd < 8) {len : Nat} {payload : List UInt8}
    (hlen : payload.length = (cmdHeader cmd len).2) (rest : List Read) :
    (∃ fs, Accepts (wire (e.taken.flatMap Packet.bytes) rest) fs rest ∧
      List.Forall₂ (fun p f => f.bytes = p.bytes ∧ p.Received f) e.taken fs) ∧
    ∃ f : Frame, Accepts (wire (sendMsg (cmdHeader cmd len).1 payload) rest) [f] rest ∧
      f.type = .cmd ∧ f.cmd = cmd ∧ f.payload = payload := by
  constructor
  · apply accepts_packets
    intro p hp
    rcases mem_append.mp hp with hp | hp
    · split at hp
      · rcases mem_cons.mp hp with rfl | hp
        · rfl
        · rw [mem_singleton.mp hp]
          rfl
      · cases hp
    · split at hp
      next hpending =>
        rcases mem_cons.mp hp with rfl | hp
        · rfl
        · rw [mem_singleton.mp hp]
          exact decide_eq_true (hsend hpending)
      · cases hp
  · obtain ⟨f, hrecv, -, htype, hf, hpayload⟩ := recvMsg_command hlen rest
    exact ⟨f, ⟨rest, hrecv, rfl⟩, htype, hf.trans (low_bits_of_lt hcmd), hpayload⟩

/-- A request for mode 9 and the command that starts a session. -/
theorem received_as_sent_speed :
    ∃ fs f, Accepts (wire ([.extMode 9, .data 9 [1, 2, 3]].flatMap Packet.bytes) []) fs [] ∧
      Accepts (wire (sendMsg (cmdHeader cmdSpeed 4).1 [0, 0xc2, 1, 0]) []) [f] [] ∧
      f.payload = [0, 0xc2, 1, 0] := by
  obtain ⟨⟨fs, haccepts, -⟩, f, hf, -, -, hpayload⟩ :=
    received_as_sent
      { Engine.boot false false with
        pendingSend := true, pendingSendMode := 9, pendingSendBuf := [1, 2, 3] }
      (fun _ => by decide) (show cmdSpeed < 8 by decide)
      (show [0, 0xc2, 1, 0].length = (cmdHeader cmdSpeed 4).2 from rfl) []
  exact ⟨fs, f, haccepts, hf, hpayload⟩

end Brickwright.Lump
