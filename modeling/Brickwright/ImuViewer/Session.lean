import Brickwright.Bytes.Buffers
import Brickwright.Machine.Room
import Brickwright.Text.Decimal

/-!
# The host's frame parsers (`host/ImuViewer/src/ImuViewer.Core/Wire`)

`BundleFrameParser` and `ImuCapFrameParser` read one complete frame from the front of a byte span. A
check that fails gives `null`. The checks keep every later read inside the span, so a read outside,
which here would give zeros, does not occur.
-/

namespace Brickwright.ImuViewer

open Bytes

namespace WireConstants

def magic : UInt16 := 0xb66b
def bundleFrameType : UInt8 := 0x02
def imuCapFrameType : UInt8 := 0x03
def bundleEnvelopeSize : Nat := 5
def bundleHeaderSize : Nat := 16
def imuSampleSize : Nat := 16
def tlvHeaderSize : Nat := 10
def maxTlvPayload : Nat := 32
def tlvCount : Nat := 6
def maxImuSamplesPerBundle : Nat := 8
def imuCapPayloadSize : Nat := 22
def imuCapFrameSize : Nat := bundleEnvelopeSize + imuCapPayloadSize

def maxBundleFrameSize : Nat :=
  bundleEnvelopeSize + bundleHeaderSize + imuSampleSize * maxImuSamplesPerBundle +
    (tlvHeaderSize + maxTlvPayload) * tlvCount

end WireConstants

open WireConstants

structure BundleFrameHeader where
  seq : UInt16
  tickTsUs : UInt32
  imuSectionLen : UInt16
  imuSampleCount : UInt8
  tlvCount : UInt8
  imuSampleRateHz : UInt16
  imuAccelFsrG : UInt8
  imuGyroFsrDps : UInt16
  flags : UInt8
  deriving DecidableEq

structure ImuSample where
  rawAx : Int16
  rawAy : Int16
  rawAz : Int16
  rawGx : Int16
  rawGy : Int16
  rawGz : Int16
  timestampDeltaUs : UInt32
  deriving DecidableEq

/-- The enumerations are bytes: a cast keeps a byte that no member names. -/
structure LegoTlv where
  classId : UInt8
  portId : UInt8
  modeId : UInt8
  dataType : UInt8
  numValues : UInt8
  flags : UInt8
  age10ms : UInt8
  seq : UInt16
  payload : List UInt8
  deriving DecidableEq

structure BundleFrame where
  header : BundleFrameHeader
  imuSamples : List ImuSample
  tlvs : List LegoTlv
  deriving DecidableEq

structure ImuCapFrame where
  timestampUs : UInt32
  ax : Int16
  ay : Int16
  az : Int16
  gx : Int16
  gy : Int16
  gz : Int16
  temperatureRaw : Int16
  fsrXlIdx : UInt8
  fsrGyIdx : UInt8
  seq : UInt16
  deriving DecidableEq

/-! ## `BinaryPrimitives` -/

def readUInt16LittleEndian (bs : List UInt8) : UInt16 := UInt16.ofNat (leNat bs)
def readUInt32LittleEndian (bs : List UInt8) : UInt32 := UInt32.ofNat (leNat bs)
def readInt16LittleEndian (bs : List UInt8) : Int16 := (readUInt16LittleEndian bs).toInt16

/-! ## `BundleFrameParser` -/

namespace BundleFrameParser

def readHeader (hdr : List UInt8) : BundleFrameHeader where
  seq := readUInt16LittleEndian (hdr.window 0 2)
  tickTsUs := readUInt32LittleEndian (hdr.window 2 4)
  imuSectionLen := readUInt16LittleEndian (hdr.window 6 2)
  imuSampleCount := hdr.getD 8 0
  tlvCount := hdr.getD 9 0
  imuSampleRateHz := readUInt16LittleEndian (hdr.window 10 2)
  imuAccelFsrG := hdr.getD 12 0
  imuGyroFsrDps := readUInt16LittleEndian (hdr.window 13 2)
  flags := hdr.getD 15 0

def readImuSample (bytes : List UInt8) : ImuSample where
  rawAx := readInt16LittleEndian (bytes.window 0 2)
  rawAy := readInt16LittleEndian (bytes.window 2 2)
  rawAz := readInt16LittleEndian (bytes.window 4 2)
  rawGx := readInt16LittleEndian (bytes.window 6 2)
  rawGy := readInt16LittleEndian (bytes.window 8 2)
  rawGz := readInt16LittleEndian (bytes.window 10 2)
  timestampDeltaUs := readUInt32LittleEndian (bytes.window 12 4)

def readTlv (tlvHdr payload : List UInt8) : LegoTlv where
  classId := tlvHdr.getD 0 0
  portId := tlvHdr.getD 1 0
  modeId := tlvHdr.getD 2 0
  dataType := tlvHdr.getD 3 0
  numValues := tlvHdr.getD 4 0
  flags := tlvHdr.getD 6 0
  age10ms := tlvHdr.getD 7 0
  seq := readUInt16LittleEndian (tlvHdr.window 8 2)
  payload := payload

/-- The loop over the `n` entries from `tlvOff` on: the entries, and the offset after the last. -/
def readTlvs (bytes : List UInt8) (frameLen : Nat) : Nat → Nat → Option (List LegoTlv × Nat)
  | 0, tlvOff => some ([], tlvOff)
  | n + 1, tlvOff =>
    if tlvOff + tlvHeaderSize > frameLen then none
    else
      let tlvHdr := bytes.window tlvOff tlvHeaderSize
      let payloadLen := (tlvHdr.getD 5 0).toNat
      if payloadLen > maxTlvPayload then none
      else
        let payloadOff := tlvOff + tlvHeaderSize
        let payloadEnd := payloadOff + payloadLen
        if payloadEnd > frameLen then none
        else
          match readTlvs bytes frameLen n payloadEnd with
          | none => none
          | some (tlvs, off) =>
             some (readTlv tlvHdr (bytes.window payloadOff payloadLen) :: tlvs, off)

/-- `BundleFrameParser.TryDecode`. -/
def tryDecode (bytes : List UInt8) : Option BundleFrame :=
  if bytes.length < bundleEnvelopeSize + bundleHeaderSize then none
  else if readUInt16LittleEndian (bytes.window 0 2) ≠ magic then none
  else if bytes.getD 2 0 ≠ bundleFrameType then none
  else
    let frameLen := (readUInt16LittleEndian (bytes.window 3 2)).toNat
    if frameLen > bytes.length ∨ frameLen < bundleEnvelopeSize + bundleHeaderSize then none
    else
      let header := readHeader (bytes.window bundleEnvelopeSize bundleHeaderSize)
      if header.imuSampleCount.toNat > maxImuSamplesPerBundle then none
      else if header.tlvCount.toNat ≠ tlvCount then none
      else
        let imuSectionLen := header.imuSampleCount.toNat * imuSampleSize
        if header.imuSectionLen.toNat ≠ imuSectionLen then none
        else
          let imuStart := bundleEnvelopeSize + bundleHeaderSize
          let tlvStart := imuStart + imuSectionLen
          if tlvStart > frameLen then none
          else
            let samples := (List.range header.imuSampleCount.toNat).map fun i =>
              readImuSample (bytes.window (imuStart + i * imuSampleSize) imuSampleSize)
            match readTlvs bytes frameLen header.tlvCount.toNat tlvStart with
            | none => none
            | some (tlvs, tlvOff) =>
              if tlvOff ≠ frameLen then none
              else some ⟨header, samples, tlvs⟩

end BundleFrameParser

/-- `ImuCapFrameParser.TryDecode`. -/
def ImuCapFrameParser.tryDecode (bytes : List UInt8) : Option ImuCapFrame :=
  if bytes.length < imuCapFrameSize then none
  else if readUInt16LittleEndian (bytes.window 0 2) ≠ magic then none
  else if bytes.getD 2 0 ≠ imuCapFrameType then none
  else if (readUInt16LittleEndian (bytes.window 3 2)).toNat ≠ imuCapFrameSize then none
  else
    let p := bytes.window bundleEnvelopeSize imuCapPayloadSize
    some
      { timestampUs := readUInt32LittleEndian (p.window 0 4)
        ax := readInt16LittleEndian (p.window 4 2)
        ay := readInt16LittleEndian (p.window 6 2)
        az := readInt16LittleEndian (p.window 8 2)
        gx := readInt16LittleEndian (p.window 10 2)
        gy := readInt16LittleEndian (p.window 12 2)
        gz := readInt16LittleEndian (p.window 14 2)
        temperatureRaw := readInt16LittleEndian (p.window 16 2)
        fsrXlIdx := p.getD 18 0
        fsrGyIdx := p.getD 19 0
        seq := readUInt16LittleEndian (p.window 20 2) }

/-!
## What the frame parsers accept

`BundleFrameParser.Decodes` lists what a span must hold to be read as a frame; `tryDecode_eq_some`
says that the parser's checks come to just that. An accepted frame is as long as it declares, and
never longer than the longest bundle.
-/

/-- The length that the envelope declares. -/
def declaredLen (bytes : List UInt8) : Nat := (readUInt16LittleEndian (bytes.window 3 2)).toNat

namespace BundleFrameParser

/-- The span starts with a well-formed frame, which holds `frame`. -/
structure Decodes (bytes : List UInt8) (frame : BundleFrame) : Prop where
  least : bundleEnvelopeSize + bundleHeaderSize ≤ bytes.length
  magic : readUInt16LittleEndian (bytes.window 0 2) = magic
  type : bytes.getD 2 0 = bundleFrameType
  fits : declaredLen bytes ≤ bytes.length
  header : readHeader (bytes.window bundleEnvelopeSize bundleHeaderSize) = frame.header
  few : frame.header.imuSampleCount.toNat ≤ maxImuSamplesPerBundle
  tlvCount : frame.header.tlvCount.toNat = tlvCount
  imuSection : frame.header.imuSectionLen.toNat = frame.header.imuSampleCount.toNat * imuSampleSize
  inside : bundleEnvelopeSize + bundleHeaderSize + frame.header.imuSampleCount.toNat *
    imuSampleSize ≤
    declaredLen bytes
  samples : ((List.range frame.header.imuSampleCount.toNat).map fun i => readImuSample (bytes.window
    (bundleEnvelopeSize + bundleHeaderSize + i * imuSampleSize) imuSampleSize)) = frame.imuSamples
  tlvs : readTlvs bytes (declaredLen bytes) frame.header.tlvCount.toNat
    (bundleEnvelopeSize + bundleHeaderSize + frame.header.imuSampleCount.toNat * imuSampleSize) =
      some (frame.tlvs, declaredLen bytes)

variable {bytes : List UInt8} {frame : BundleFrame}

theorem tryDecode_of_decodes (h : Decodes bytes frame) :
    tryDecode bytes = some frame := by
  have hfits := h.fits
  have hinside := h.inside
  have hfew := h.few
  have hlen : ¬ (declaredLen bytes > bytes.length ∨
      declaredLen bytes < bundleEnvelopeSize + bundleHeaderSize) := by omega
  have hdeclared : (readUInt16LittleEndian (bytes.window 3 2)).toNat = declaredLen bytes := rfl
  unfold tryDecode
  rw [if_neg (by omega), if_neg (not_not_intro h.magic), if_neg (not_not_intro h.type)]
  rw [hdeclared, if_neg hlen, h.header, if_neg (by omega), if_neg (not_not_intro h.tlvCount),
    if_neg (not_not_intro h.imuSection), if_neg (Nat.not_lt.mpr hinside), h.samples, h.tlvs]
  exact if_neg (not_not_intro rfl)

theorem decodes_of_tryDecode (h : tryDecode bytes = some frame) : Decodes bytes frame := by
  unfold tryDecode at h
  dsimp only at h
  split at h
  · cases h
  next hleast =>
  split at h
  · cases h
  next hmagic =>
  split at h
  · cases h
  next htype =>
  split at h
  · cases h
  next hlen =>
  split at h
  · cases h
  next hfew =>
  split at h
  · cases h
  next hcount =>
  split at h
  · cases h
  next hsection =>
  split at h
  · cases h
  next hinside =>
  split at h
  · cases h
  next tlvs tlvOff htlvs =>
  split at h
  · cases h
  next hend =>
  cases h
  have hoff : tlvOff = declaredLen bytes := Decidable.of_not_not hend
  rw [hoff] at htlvs
  exact ⟨Nat.le_of_not_lt hleast, Decidable.of_not_not hmagic, Decidable.of_not_not htype,
    Nat.le_of_not_lt fun hlt => hlen (.inl hlt), rfl, Nat.le_of_not_lt hfew,
    Decidable.of_not_not hcount, Decidable.of_not_not hsection,
      Nat.le_of_not_lt hinside, rfl, htlvs⟩

theorem readTlvs_le {frameLen n tlvOff off : Nat} {tlvs : List LegoTlv}
    (h : readTlvs bytes frameLen n tlvOff = some (tlvs, off)) :
    off ≤ tlvOff + (tlvHeaderSize + maxTlvPayload) * n := by
  induction n generalizing tlvOff tlvs with
  | zero =>
    cases h
    exact Nat.le_refl _
  | succ n ih =>
    unfold readTlvs at h
    dsimp only at h
    split at h
    · cases h
    split at h
    · cases h
    next hpayload =>
    split at h
    · cases h
    split at h
    · cases h
    next hrest =>
    cases h
    have hle := ih hrest
    rw [Nat.mul_succ]
    omega

theorem Decodes.declaredLen_le (h : Decodes bytes frame) :
    declaredLen bytes ≤ maxBundleFrameSize := by
  have hle := readTlvs_le h.tlvs
  rw [h.tlvCount] at hle
  have himu : frame.header.imuSampleCount.toNat * imuSampleSize ≤
      maxImuSamplesPerBundle * imuSampleSize := Nat.mul_le_mul_right _ h.few
  have hmax : maxBundleFrameSize = bundleEnvelopeSize + bundleHeaderSize +
    maxImuSamplesPerBundle * imuSampleSize +
      (tlvHeaderSize + maxTlvPayload) * WireConstants.tlvCount := rfl
  omega

end BundleFrameParser

/-!
## The host's session (`host/ImuViewer/src/ImuViewer.Core/Btsensor/BtsensorSession.cs`)

Frames and reply lines share one byte stream. Each read is appended to a buffer, and `DrainBuffer`
takes from the front what is complete: a frame after its magic, a line up to its newline, else a
byte that belongs to neither. It stops where more bytes are needed.

What a subscriber throws is swallowed, so an event that is raised is all there is to it. The array
that holds the buffer grows by doubling, in 32-bit arithmetic.
-/

open List

inductive Event where
  | bundleReceived (frame : BundleFrame)
  | imuCapFrameReceived (frame : ImuCapFrame)
  | replyLineReceived (line : String)
  deriving DecidableEq

namespace BtsensorSession

/-- `TryConsumeImuCap`, on the bytes from `start` on, with the event it raises. -/
def tryConsumeImuCap (bytes : List UInt8) (frameLen : Nat) : Int × Option Event :=
  if frameLen ≠ imuCapFrameSize then (-1, none)
  else if bytes.length < frameLen then (0, none)
  else
    match ImuCapFrameParser.tryDecode (bytes.take frameLen) with
    | none => (-1, none)
    | some frame => (frameLen, some (.imuCapFrameReceived frame))

/-- `TryConsumeFrame`, on the bytes from `start` on: how many bytes were consumed, 0 to wait for
more, -1 for a bad header. -/
def tryConsumeFrame (bytes : List UInt8) : Int × Option Event :=
  if bytes.length < bundleEnvelopeSize then (0, none)
  else
    let type := bytes.getD 2 0
    let frameLen := ((bytes.getD 3 0).toUInt16 ||| (bytes.getD 4 0).toUInt16 <<< 8).toNat
    if type = imuCapFrameType then tryConsumeImuCap bytes frameLen
    else if type ≠ bundleFrameType then (-1, none)
    else if frameLen < bundleEnvelopeSize + bundleHeaderSize ∨ frameLen > maxBundleFrameSize then
      (-1, none)
    else if bytes.length < frameLen then (0, none)
    else
      match BundleFrameParser.tryDecode (bytes.take frameLen) with
      | none => (-1, none)
      | some frame => (frameLen, some (.bundleReceived frame))

def isLineByte (b : UInt8) : Bool := b = 0x0d || b = 0x0a || (0x20 ≤ b && b ≤ 0x7e)

/-- `IndexOfNewline`, from the front of the bytes. -/
def indexOfNewline (bytes : List UInt8) : Option Nat := bytes.findIdx? (· = 0x0a)

/-- `Encoding.ASCII.GetString`: a question mark for what is not ASCII. -/
def asciiGetString (bytes : List UInt8) : String :=
  String.ofList (bytes.map fun b => if b < 0x80 then Char.ofNat b.toNat else '?')

/-- `EmitLine`, on the bytes up to the newline. -/
def emitLine (bytes : List UInt8) : Event :=
  let bytes := if bytes.getLast? = some 0x0d then bytes.dropLast else bytes
  .replyLineReceived (asciiGetString bytes)

/-- The body of the loop of `DrainBuffer`, on the bytes from `idx` on: `none` to break, else how far
`idx` moves and the event raised. -/
def drainStep : List UInt8 → Option (Nat × Option Event)
  | [] => none
  | b :: rest =>
    if b = 0x6b ∧ rest.head? = some 0xb6 then
      let (frameSize, event) := tryConsumeFrame (b :: rest)
      if frameSize = 0 then none
      else if frameSize < 0 then some (1, event)
      else some (frameSize.toNat, event)
    else if isLineByte b then
      match indexOfNewline (b :: rest) with
      | none => none
      | some nl => some (nl + 1, some (emitLine ((b :: rest).take nl)))
    else some (1, none)

/-! ### Looking ahead

`drainStep` looks for a whole frame or for a newline before it decides, and what it decided stands.
-/

theorem frameLen_eq (a b : UInt8) :
    (a.toUInt16 ||| b.toUInt16 <<< 8).toNat = Bytes.leNat [a, b] := by
  have ha := a.toNat_lt
  have hb := b.toNat_lt
  have hshift : b.toNat <<< 8 % 2 ^ 16 = b.toNat <<< 8 := by
    omega
  show a.toNat ||| b.toNat <<< 8 % 2 ^ 16 = _
  rw [hshift, Bytes.or_shiftLeft_eq_add (i := 8) ha]
  simp

theorem frameLen_eq_declaredLen {bytes : List UInt8} (h : bundleEnvelopeSize ≤ bytes.length) :
    ((bytes.getD 3 0).toUInt16 ||| (bytes.getD 4 0).toUInt16 <<< 8).toNat = declaredLen bytes := by
  match bytes, h with
  | _ :: _ :: _ :: a :: b :: rest, _ =>
    have hlt := (a.toUInt16 ||| b.toUInt16 <<< 8).toNat_lt
    rw [frameLen_eq] at hlt
    show (a.toUInt16 ||| b.toUInt16 <<< 8).toNat = (UInt16.ofNat (Bytes.leNat [a, b])).toNat
    rw [frameLen_eq, UInt16.toNat_ofNat_of_lt' hlt]

variable {bytes : List UInt8}

theorem getD_append {i : Nat} (h : i < bytes.length) (more : List UInt8) :
    (bytes ++ more).getD i 0 = bytes.getD i 0 := by
  rw [getD_eq_getElem?_getD, getD_eq_getElem?_getD, List.getElem?_append_left h]

theorem tryConsumeImuCap_append {frameLen : Nat} (h : (tryConsumeImuCap bytes frameLen).1 ≠ 0)
    (more : List UInt8) :
    tryConsumeImuCap (bytes ++ more) frameLen = tryConsumeImuCap bytes frameLen := by
  unfold tryConsumeImuCap at h ⊢
  by_cases hsize : frameLen ≠ imuCapFrameSize
  · rw [if_pos hsize, if_pos hsize]
  · rw [if_neg hsize] at h ⊢
    by_cases hshort : bytes.length < frameLen
    · rw [if_pos hshort] at h
      exact absurd rfl h
    · have hle := Nat.le_of_not_lt hshort
      have hlong : ¬ (bytes ++ more).length < frameLen := by
        rw [length_append]
        omega
      rw [if_neg hsize, if_neg hshort, if_neg hlong, take_append_of_le_length hle]

theorem tryConsumeFrame_append (h : (tryConsumeFrame bytes).1 ≠ 0) (more : List UInt8) :
    tryConsumeFrame (bytes ++ more) = tryConsumeFrame bytes := by
  unfold tryConsumeFrame at h ⊢
  by_cases hshort : bytes.length < bundleEnvelopeSize
  · rw [if_pos hshort] at h
    exact absurd rfl h
  · rw [if_neg hshort] at h ⊢
    have hlong : ¬ (bytes ++ more).length < bundleEnvelopeSize := by
      rw [length_append]
      omega
    have hfive : 5 ≤ bytes.length := Nat.le_of_not_lt hshort
    rw [if_neg hlong, getD_append (by omega), getD_append (by omega), getD_append (by omega)]
    dsimp only at h ⊢
    rw [frameLen_eq_declaredLen hfive] at h ⊢
    split
    · next htype =>
      rw [if_pos htype] at h
      exact tryConsumeImuCap_append h more
    next htype =>
    rw [if_neg htype] at h
    split
    · rfl
    next hbundle =>
    rw [if_neg hbundle] at h
    split
    · rfl
    next hrange =>
    rw [if_neg hrange] at h
    by_cases hbody : bytes.length < declaredLen bytes
    · rw [if_pos hbody] at h
      exact absurd rfl h
    · have hle := Nat.le_of_not_lt hbody
      rw [if_neg hbody, if_neg (by rw [length_append]; omega),
        take_append_of_le_length hle]

theorem tryConsumeImuCap_le {frameLen : Nat} :
    (tryConsumeImuCap bytes frameLen).1 ≤ bytes.length := by
  unfold tryConsumeImuCap
  split
  · show (-1 : Int) ≤ _
    omega
  split
  · exact Int.natCast_nonneg _
  split
  · show (-1 : Int) ≤ _
    omega
  · show (frameLen : Int) ≤ _
    omega

theorem tryConsumeFrame_le : (tryConsumeFrame bytes).1 ≤ bytes.length := by
  have hbad : (-1 : Int) ≤ bytes.length := by omega
  unfold tryConsumeFrame
  split
  · exact Int.natCast_nonneg _
  dsimp only
  split
  · exact tryConsumeImuCap_le
  split
  · exact hbad
  split
  · exact hbad
  split
  · exact Int.natCast_nonneg _
  next hlong =>
  split
  · exact hbad
  · exact Int.ofNat_le.mpr (Nat.le_of_not_lt hlong)

theorem drainStep_progress {n : Nat} {event : Option Event}
    (h : drainStep bytes = some (n, event)) :
    0 < n ∧ n ≤ bytes.length := by
  unfold drainStep at h
  split at h
  · cases h
  next b rest =>
  dsimp only at h
  have hone : 0 < 1 ∧ 1 ≤ (b :: rest).length := ⟨Nat.one_pos, Nat.succ_le_succ (Nat.zero_le _)⟩
  split at h
  · have hle : (tryConsumeFrame (b :: rest)).1 ≤ (b :: rest).length := tryConsumeFrame_le
    split at h
    · cases h
    next hzero =>
    split at h
    · cases h
      exact hone
    · cases h
      omega
  split at h
  · split at h
    · cases h
    · next nl hnl =>
      cases h
      obtain ⟨hlt, -⟩ := List.findIdx?_eq_some_iff_getElem.mp hnl
      exact ⟨Nat.succ_pos nl, hlt⟩
  · cases h
    exact hone

theorem drainStep_stable {r : Nat × Option Event} (h : drainStep bytes = some r)
    (more : List UInt8) :
    drainStep (bytes ++ more) = some r := by
  unfold drainStep at h
  split at h
  · cases h
  next b rest =>
  by_cases hmagic : b = 0x6b ∧ rest.head? = some 0xb6
  · have hmagic' : b = 0x6b ∧ (rest ++ more).head? = some 0xb6 :=
      ⟨hmagic.1, by rw [List.head?_append, hmagic.2]; rfl⟩
    rw [if_pos hmagic] at h
    have hne : (tryConsumeFrame (b :: rest)).1 ≠ 0 := by
      intro hzero
      dsimp only at h
      rw [if_pos hzero] at h
      cases h
    rw [cons_append, drainStep, if_pos hmagic', ← cons_append, tryConsumeFrame_append hne]
    exact h
  rw [if_neg hmagic] at h
  by_cases hline : isLineByte b
  · rw [if_pos hline] at h
    split at h
    · cases h
    next nl hnl =>
    -- a magic that a read cut in two has no newline after it
    have hmagic' : ¬ (b = 0x6b ∧ (rest ++ more).head? = some 0xb6) := by
      rintro ⟨rfl, hhead⟩
      cases rest with
      | nil => cases hnl
      | cons c rest => exact hmagic ⟨rfl, hhead⟩
    have hnl' : indexOfNewline (b :: (rest ++ more)) = some nl := by
      rw [indexOfNewline] at hnl ⊢
      rw [← cons_append, List.findIdx?_append, hnl]
      rfl
    obtain ⟨hlt, -⟩ := List.findIdx?_eq_some_iff_getElem.mp hnl
    rw [cons_append, drainStep, if_neg hmagic', if_pos hline, hnl']
    dsimp only
    rw [← cons_append, take_append_of_le_length (Nat.le_of_lt hlt)]
    exact h
  · have hmagic' : ¬ (b = 0x6b ∧ (rest ++ more).head? = some 0xb6) := by
      rintro ⟨rfl, -⟩
      exact hline rfl
    rw [if_neg hline] at h
    rw [cons_append, drainStep, if_neg hmagic', if_neg hline]
    exact h

/-- `DrainBuffer` goes through the buffer step by step. -/
def scanner : Scanner UInt8 Event where
  next := drainStep
  progress := drainStep_progress
  stable := drainStep_stable

/-- `DrainBuffer`: the events it raises, and the buffer it leaves. -/
def drainBuffer (buffer : List UInt8) : List Event × List UInt8 := scanner.scan buffer

/-! ### The reader -/

def initialBufferCapacity : Nat := 4096
def readBufferSize : Nat := 1024

/-- What one call of `ReadAsync` has put into `readBuffer`. -/
structure Read where
  bytes : List UInt8
  nonempty : bytes ≠ []
  fits : bytes.length ≤ readBufferSize

/-- `capacity` is the length of `_buffer`, and `buffer` its first `_bufferLength` bytes. -/
structure Session where
  capacity : Int := initialBufferCapacity
  buffer : List UInt8 := []

namespace Session

/-- `none`: the loop never ends. -/
def ensureCapacity (s : Session) (required : Int) : Option Session :=
  (grown s.capacity required).map fun newSize => { s with capacity := newSize }

def append (s : Session) (bytes : List UInt8) : Option Session :=
  (s.ensureCapacity (s.buffer.length + bytes.length)).map fun s =>
    { s with buffer := s.buffer ++ bytes }

/-- The loop of `RunReaderAsync`, up to the end of the stream: the events, and the session if
`EnsureCapacity` has always returned. -/
def runReader (s : Session) : List Read → List Event × Option Session
  | [] => ([], some s)
  | read :: reads =>
    match s.append read.bytes with
    | none => ([], none)
    | some s =>
      let drained := drainBuffer s.buffer
      let rest := runReader { s with buffer := drained.2 } reads
      (drained.1 ++ rest.1, rest.2)

/-- The array has a power of two as its length. -/
def Sized (s : Session) : Prop := ∃ k ≤ 30, s.capacity = 2 ^ k

/-- **The session is the scanner with room for 2^30 bytes.** -/
theorem runReader_eq {s : Session} (hs : s.Sized) (reads : List Read) :
    (s.runReader reads).1 =
        (scanner.feedWithin (2 ^ 30) s.buffer (reads.map Read.bytes)).1 ∧
      (s.runReader reads).2.map Session.buffer =
        (scanner.feedWithin (2 ^ 30) s.buffer (reads.map Read.bytes)).2 := by
  induction reads generalizing s with
  | nil => exact ⟨rfl, rfl⟩
  | cons read reads ih =>
    rw [map_cons, runReader, append, ensureCapacity]
    rcases Nat.lt_or_ge (2 ^ 30) (s.buffer.length + read.bytes.length) with hfull | hfits
    · rw [grown_of_lt hs (by omega), Scanner.feedWithin_of_lt hfull]
      exact ⟨rfl, rfl⟩
    · obtain ⟨newSize, hgrown, -, hpower⟩ := grown_of_le hs
        (by omega : (s.buffer.length + read.bytes.length : Int) ≤ 2 ^ 30)
      obtain ⟨hevents, hleft⟩ :=
        ih (s := ⟨newSize, (drainBuffer (s.buffer ++ read.bytes)).2⟩) hpower
      rw [hgrown, Scanner.feedWithin_of_le hfits]
      exact ⟨congrArg _ hevents, hleft⟩

end Session

end BtsensorSession

end Brickwright.ImuViewer
