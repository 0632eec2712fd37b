import Mathlib.Data.List.SplitBy
import Brickwright.Btsensor.Bundle.Basic
import Brickwright.ImuViewer.Session

/-!
# The BUNDLE wire format, from the hub to the host

The hub's encoder and the host's parser are written apart. `bundle_round_trip` says that they agree:
whatever a tick drains and whatever the sampler shows, the host reads each frame back as what the
hub put into it, header, samples and entries, and the length a frame declares is its own, at most
`BTSENSOR_BUNDLE_FRAME_MAX`.

The buffer comes first (`written_build`: the frame as a concatenation, whatever the buffer held
before), then the fields, the two sections, and the whole.
-/

namespace Brickwright.Btsensor.Bundle

open Bytes ImuViewer ImuViewer.WireConstants

/-! ## What the host should see -/

def SensorImu.received (tickTsUs : UInt32) (s : SensorImu) : ImuSample where
  rawAx := s.ax
  rawAy := s.ay
  rawAz := s.az
  rawGx := s.gx
  rawGy := s.gy
  rawGz := s.gz
  timestampDeltaUs := s.timestamp - tickTsUs

/-- The payload goes along only when it is fresh, and no more of it than there is. -/
def SensorClassState.received (classId : UInt8) (state : SensorClassState) : LegoTlv where
  classId := classId
  portId := state.portId
  modeId := state.modeId
  dataType := state.dataType
  numValues := state.numValues
  flags := state.flags
  age10ms := state.age10ms
  seq := state.seq
  payload := if state.flags &&& tlvFlagFresh ≠ 0 then state.payload.toList.take
    state.payloadLen.toNat
    else []

def Header.received (h : Header) : BundleFrameHeader where
  seq := h.seq
  tickTsUs := h.tickTsUs
  imuSectionLen := h.imuSectionLen
  imuSampleCount := h.imuSampleCount
  tlvCount := h.tlvCount
  imuSampleRateHz := h.odrHz
  imuAccelFsrG := h.xlG
  imuGyroFsrDps := h.gyDps
  flags := h.flags

/-- What was put into a frame, in the host's terms. -/
def Emitter.Emission.content (m : Emitter.Emission) : BundleFrame where
  header := (m.emitter.header m.sight m.imuSamples).received
  imuSamples := m.imuSamples.map (SensorImu.received (Emitter.tickTsUs m.sight m.imuSamples))
  tlvs := (List.finRange Bundle.tlvCount).map fun cls =>
    (m.sight.snapshot cls).received (UInt8.ofNat cls)

/-! ## Fields -/

theorem and_255 (n : Nat) : n &&& 255 = n % 256 := Nat.and_two_pow_sub_one_eq_mod n 8

theorem putU16le_eq (v : UInt16) : putU16le v = leBytes 2 v.toNat := by
  have hlow : (v &&& 0xff).toUInt8 = UInt8.ofNat v.toNat := by
    apply UInt8.toNat_inj.mp
    simp [and_255]
  have hhigh : (v >>> 8 &&& 0xff).toUInt8 = UInt8.ofNat (v.toNat / 256) := by
    apply UInt8.toNat_inj.mp
    simp [and_255, Nat.shiftRight_eq_div_pow]
  rw [putU16le, hlow, hhigh]
  rfl

theorem putU32le_eq (v : UInt32) : putU32le v = leBytes 4 v.toNat := by
  have hlow : (v &&& 0xff).toUInt8 = UInt8.ofNat v.toNat := by
    apply UInt8.toNat_inj.mp
    simp [and_255]
  have hsecond : (v >>> 8 &&& 0xff).toUInt8 = UInt8.ofNat (v.toNat / 256) := by
    apply UInt8.toNat_inj.mp
    simp [and_255, Nat.shiftRight_eq_div_pow]
  have hthird : (v >>> 16 &&& 0xff).toUInt8 = UInt8.ofNat (v.toNat / 256 / 256) := by
    apply UInt8.toNat_inj.mp
    simp [and_255, Nat.shiftRight_eq_div_pow, Nat.div_div_eq_div_mul]
  have hfourth : (v >>> 24 &&& 0xff).toUInt8 = UInt8.ofNat (v.toNat / 256 / 256 / 256) := by
    apply UInt8.toNat_inj.mp
    simp [and_255, Nat.shiftRight_eq_div_pow, Nat.div_div_eq_div_mul]
  rw [putU32le, hlow, hsecond, hthird, hfourth]
  rfl

@[simp] theorem length_putU16le (v : UInt16) : (putU16le v).length = 2 := rfl

@[simp] theorem readUInt16_putU16le (v : UInt16) : readUInt16LittleEndian (putU16le v) = v := by
  rw [readUInt16LittleEndian, putU16le_eq, leNat_leBytes]
  apply UInt16.toNat_inj.mp
  simp

@[simp] theorem readUInt32_putU32le (v : UInt32) : readUInt32LittleEndian (putU32le v) = v := by
  rw [readUInt32LittleEndian, putU32le_eq, leNat_leBytes]
  apply UInt32.toNat_inj.mp
  simp

@[simp] theorem readInt16_putU16le (v : Int16) :
    readInt16LittleEndian (putU16le v.toUInt16) = v := by
  rw [readInt16LittleEndian, readUInt16_putU16le]
  rfl

/-! ## The sections -/

theorem length_encodeImuSample (s : SensorImu) (tsDeltaUs : UInt32) :
    (encodeImuSample s tsDeltaUs).length = imuSampleSize := rfl

theorem readImuSample_encode (tickTsUs : UInt32) (s : SensorImu) :
    BundleFrameParser.readImuSample (encodeImuSample s (s.timestamp - tickTsUs)) =
      s.received tickTsUs := by
  have hread (v : Int16) : readInt16LittleEndian (putU16le v.toUInt16) = v := readInt16_putU16le v
  show (⟨_, _, _, _, _, _, _⟩ : ImuSample) = ⟨_, _, _, _, _, _, _⟩
  congr 1
  · exact hread s.ax
  · exact hread s.ay
  · exact hread s.az
  · exact hread s.gx
  · exact hread s.gy
  · exact hread s.gz
  · exact readUInt32_putU32le _

def imuSection (tickTsUs : UInt32) (imuSamples : List SensorImu) : List UInt8 :=
  imuSamples.flatMap fun s => encodeImuSample s (s.timestamp - tickTsUs)

theorem length_imuSection (tickTsUs : UInt32) (imuSamples : List SensorImu) :
    (imuSection tickTsUs imuSamples).length = imuSampleSize * imuSamples.length := by
  induction imuSamples with
  | nil => rfl
  | cons s rest ih =>
    rw [imuSection, List.flatMap_cons, List.length_append, length_encodeImuSample]
    rw [imuSection] at ih
    rw [ih, List.length_cons, Nat.mul_succ, Nat.add_comm]

/-- The host's loop over the samples of a section that stands anywhere in a span. -/
theorem readImuSamples_section (tickTsUs : UInt32) (imuSamples : List SensorImu)
    (pre post : List UInt8) :
    ((List.range imuSamples.length).map fun i => BundleFrameParser.readImuSample
      ((pre ++ (imuSection tickTsUs imuSamples ++ post)).window (pre.length + i * imuSampleSize)
        imuSampleSize)) = imuSamples.map (SensorImu.received tickTsUs) := by
  induction imuSamples generalizing pre with
  | nil => rfl
  | cons s rest ih =>
    have hsplit : pre ++ (imuSection tickTsUs (s :: rest) ++ post) =
        pre ++ (encodeImuSample s (s.timestamp - tickTsUs) ++
          (imuSection tickTsUs rest ++ post)) := by
      rfl
    have hfirst : (pre ++ (encodeImuSample s (s.timestamp - tickTsUs) ++
        (imuSection tickTsUs rest ++ post))).window pre.length imuSampleSize =
        encodeImuSample s (s.timestamp - tickTsUs) := List.window_append _ _ _
    rw [List.length_cons, List.range_succ_eq_map, List.map_cons, List.map_map, hsplit, Nat.zero_mul,
      Nat.add_zero, hfirst, readImuSample_encode, List.map_cons, ← ih (pre ++ encodeImuSample s _)]
    congr 1
    refine List.map_congr_left fun i _ => ?_
    rw [Function.comp_apply, List.append_assoc, List.length_append, length_encodeImuSample]
    congr 2
    rw [Nat.succ_mul]
    omega

namespace SensorClassState

variable (state : SensorClassState)

theorem encodedLen_le : state.encodedLen.toNat ≤ tlvPayloadMax.toNat := by
  obtain ⟨payloadLen, heq⟩ : ∃ payloadLen, state.encodedLen =
      if payloadLen > tlvPayloadMax then tlvPayloadMax else payloadLen := ⟨_, rfl⟩
  rw [heq]
  split
  · exact Nat.le_refl _
  · next h => exact UInt8.le_iff_toNat_le.mp (UInt8.not_lt.mp h)

theorem take_encodedLen (classId : UInt8) :
    state.payload.toList.take state.encodedLen.toNat = (state.received classId).payload := by
  have hlen : state.payload.toList.length = tlvPayloadMax.toNat := Vector.length_toList
  rw [received, encodedLen]
  by_cases hfresh : state.flags &&& tlvFlagFresh ≠ 0
  · simp only [if_pos hfresh]
    split
    · next hlong =>
      have hle : tlvPayloadMax.toNat ≤ state.payloadLen.toNat := Nat.le_of_lt hlong
      rw [List.take_of_length_le (Nat.le_of_eq hlen), List.take_of_length_le (hlen.trans_le hle)]
    · rfl
  · simp only [if_neg hfresh]
    rfl

end SensorClassState

def tlvHeader (classId : UInt8) (state : SensorClassState) : List UInt8 :=
  [classId, state.portId, state.modeId, state.dataType, state.numValues, state.encodedLen,
    state.flags, state.age10ms] ++ putU16le state.seq

theorem length_encodeTlv (classId : UInt8) (state : SensorClassState) :
    (encodeTlv classId state).length = Bundle.tlvHeaderSize + state.encodedLen.toNat := by
  have hlen : state.payload.toList.length = tlvPayloadMax.toNat := Vector.length_toList
  have hle : state.encodedLen.toNat ≤ state.payload.toList.length := by
    rw [hlen]
    exact state.encodedLen_le
  rw [encodeTlv, List.length_append, List.length_take_of_le hle]
  rfl

theorem readTlv_encode (classId : UInt8) (state : SensorClassState) :
    BundleFrameParser.readTlv (tlvHeader classId state)
      (state.payload.toList.take state.encodedLen.toNat) = state.received classId := by
  have hseq : readUInt16LittleEndian ((tlvHeader classId state).window 8 2) = state.seq :=
    readUInt16_putU16le state.seq
  rw [BundleFrameParser.readTlv, hseq, state.take_encodedLen classId]
  rfl

def tlvSection (snapshot : Snapshot) (classes : List (Fin Bundle.tlvCount)) : List UInt8 :=
  classes.flatMap fun cls : Fin _ => encodeTlv (UInt8.ofNat cls) (snapshot cls)

theorem length_tlvSection_le (snapshot : Snapshot) (classes : List (Fin Bundle.tlvCount)) :
    (tlvSection snapshot classes).length ≤
      (Bundle.tlvHeaderSize + tlvPayloadMax.toNat) * classes.length := by
  induction classes with
  | nil => exact Nat.le_refl 0
  | cons cls rest ih =>
    have hle := (snapshot cls).encodedLen_le
    have hentry := length_encodeTlv (UInt8.ofNat cls) (snapshot cls)
    rw [tlvSection] at ih ⊢
    rw [List.flatMap_cons, List.length_append, List.length_cons, Nat.mul_succ]
    omega

theorem readTlvs_section (snapshot : Snapshot) (classes : List (Fin Bundle.tlvCount))
    (pre post : List UInt8) (frameLen : Nat)
    (h : pre.length + (tlvSection snapshot classes).length ≤ frameLen) :
    BundleFrameParser.readTlvs (pre ++ (tlvSection snapshot classes ++ post)) frameLen
      classes.length
        pre.length =
      some (classes.map fun cls => (snapshot cls).received (UInt8.ofNat cls),
        pre.length + (tlvSection snapshot classes).length) := by
  induction classes generalizing pre with
  | nil => rfl
  | cons cls rest ih =>
    let state := snapshot cls
    let payload := state.payload.toList.take state.encodedLen.toNat
    let entry := encodeTlv (UInt8.ofNat cls) state
    have hentry : entry.length = Bundle.tlvHeaderSize + state.encodedLen.toNat :=
      length_encodeTlv _ _
    have hpayload : payload.length = state.encodedLen.toNat := by
      have hsum : entry.length = Bundle.tlvHeaderSize + payload.length := List.length_append
      omega
    have hsection : tlvSection snapshot (cls :: rest) = entry ++ tlvSection snapshot rest :=
      List.flatMap_cons
    have hsplit : pre ++ (entry ++ (tlvSection snapshot rest ++ post)) =
        pre ++ (tlvHeader (UInt8.ofNat cls) state ++
          (payload ++ (tlvSection snapshot rest ++ post))) := rfl
    have hbytes : pre ++ (tlvSection snapshot (cls :: rest) ++ post) =
        pre ++ (tlvHeader (UInt8.ofNat cls) state ++
          (payload ++ (tlvSection snapshot rest ++ post))) := by
      rw [← hsplit, hsection, List.append_assoc]
    rw [hsection, List.length_append] at h
    have hheader : (pre ++ (tlvHeader (UInt8.ofNat cls) state ++ (payload ++
        (tlvSection snapshot rest ++ post)))).window pre.length WireConstants.tlvHeaderSize =
        tlvHeader (UInt8.ofNat cls) state := List.window_append _ _ _
    have hbody : (pre ++ (tlvHeader (UInt8.ofNat cls) state ++ (payload ++
        (tlvSection snapshot rest ++ post)))).window (pre.length + WireConstants.tlvHeaderSize)
          state.encodedLen.toNat = payload := by
      rw [List.window_append_add, ← hpayload]
      exact List.window_append _ _ _
    have hrest := ih (pre ++ entry) (by rw [List.length_append]; omega)
    rw [List.append_assoc, List.length_append] at hrest
    have hsize : Bundle.tlvHeaderSize = WireConstants.tlvHeaderSize := rfl
    have hmax : state.encodedLen.toNat ≤ WireConstants.maxTlvPayload := state.encodedLen_le
    have hlen : ((tlvHeader (UInt8.ofNat cls) state).getD 5 0).toNat = state.encodedLen.toNat := rfl
    rw [List.length_cons, BundleFrameParser.readTlvs, if_neg (by omega), hbytes, hheader]
    simp only [hlen]
    rw [if_neg (by omega), if_neg (by omega), hbody]
    have hnext : pre.length + WireConstants.tlvHeaderSize + state.encodedLen.toNat =
        pre.length + entry.length := by omega
    rw [hnext, ← hsplit, hrest, readTlv_encode, hsection, List.length_append, List.map_cons,
      Nat.add_assoc]

/-! ## The frame -/

def wireFrame (h : Header) (imu tlvs : List UInt8) : List UInt8 :=
  putU16le frameMagic ++ [frameTypeBundle] ++
    putU16le (UInt16.ofNat (21 + imu.length + tlvs.length)) ++ (h.encode ++ (imu ++ tlvs))

theorem length_wireFrame (h : Header) (imu tlvs : List UInt8) :
    (wireFrame h imu tlvs).length = 21 + imu.length + tlvs.length := by
  have hhdr : h.encode.length = 16 := rfl
  simp only [wireFrame, List.length_append, length_putU16le, List.length_singleton, hhdr]
  omega

theorem readHeader_encode (h : Header) : BundleFrameParser.readHeader h.encode = h.received := by
  have hread (v : UInt16) : readUInt16LittleEndian (putU16le v) = v := readUInt16_putU16le v
  show (⟨_, _, _, _, _, _, _, _, _⟩ : BundleFrameHeader) = ⟨_, _, _, _, _, _, _, _, _⟩
  congr 1
  · exact hread h.seq
  · exact readUInt32_putU32le _
  · exact hread h.imuSectionLen
  · exact hread h.odrHz
  · exact hread h.gyDps

namespace Emitter

variable (e : Emitter) (sight : Sight)

/-- The three parts of the frame that `build` makes. -/
def wire (imuSamples : List SensorImu) : List UInt8 :=
  wireFrame (e.header sight imuSamples) (imuSection (tickTsUs sight imuSamples) imuSamples)
    (tlvSection sight.snapshot (List.finRange Bundle.tlvCount))

variable {imuSamples : List SensorImu}

theorem length_wire_le (h : imuSamples.length ≤ imuSamplesMax) :
    (e.wire sight imuSamples).length ≤ bundleFrameMax := by
  have htlvs := length_tlvSection_le sight.snapshot (List.finRange Bundle.tlvCount)
  rw [List.length_finRange] at htlvs
  rw [wire, length_wireFrame, length_imuSection]
  have himu : imuSampleSize * imuSamples.length ≤ imuSampleSize * imuSamplesMax :=
    Nat.mul_le_mul_left _ h
  have hmax : bundleFrameMax = 21 + imuSampleSize * imuSamplesMax +
    (Bundle.tlvHeaderSize + tlvPayloadMax.toNat) * Bundle.tlvCount := rfl
  omega

/-- **The buffer holds the frame**, whatever an earlier tick left in it. -/
theorem written_build (h : imuSamples.length ≤ imuSamplesMax) :
    (e.build sight imuSamples).written = e.wire sight imuSamples := by
  have hsize := e.length_wire_le sight h
  rw [wire, length_wireFrame] at hsize
  have hmax : Tx.frameMaxSize = 1408 := rfl
  have hframe : bundleFrameMax = 401 := rfl
  let imu := imuSection (tickTsUs sight imuSamples) imuSamples
  let tlvs := tlvSection sight.snapshot (List.finRange Bundle.tlvCount)
  let hdr := (e.header sight imuSamples).encode
  have htotal : 21 + imu.length + tlvs.length ≤ bundleFrameMax := hsize
  -- the envelope, with room for the length
  let w₁ := (e.buf.rewind.put (putU16le frameMagic)).put [frameTypeBundle]
  have hwritten₁ : w₁.written = putU16le frameMagic ++ [frameTypeBundle] := by
    rw [Writer.written_put (by show 3 ≤ _; omega), Writer.written_put (by show 2 ≤ _; omega),
      Writer.written_rewind, List.nil_append]
  obtain ⟨stale, hstale, hskip⟩ := w₁.written_skip (k := 2) (by show 5 ≤ _; omega)
  -- the three parts
  let w₂ := (w₁.skip 2).put hdr
  have hwritten₂ : w₂.written = w₁.written ++ stale ++ hdr := by
    rw [Writer.written_put (by show 21 ≤ _; omega), hskip]
  let w₃ := imuSamples.foldl
    (fun w s => w.put (encodeImuSample s (s.timestamp - tickTsUs sight imuSamples))) w₂
  have hoff₃ : w₃.off = 21 + imu.length := Writer.off_foldl_put _ _ _
  have hwritten₃ : w₃.written = w₂.written ++ imu :=
    Writer.written_foldl_put _ _ _ (by show 21 + imu.length ≤ _; omega)
  let w₄ := (List.finRange Bundle.tlvCount).foldl
    (fun w (cls : Fin _) => w.put (encodeTlv (UInt8.ofNat cls) (sight.snapshot cls))) w₃
  have hoff₄ : w₄.off = 21 + imu.length + tlvs.length := by
    rw [← hoff₃]
    exact Writer.off_foldl_put _ _ _
  have hwritten₄ : w₄.written = w₃.written ++ tlvs :=
    Writer.written_foldl_put _ _ _ (by show w₃.off + tlvs.length ≤ _; omega)
  -- the length
  show (w₄.patch 3 (putU16le (UInt16.ofNat w₄.off))).written = _
  rw [Writer.written_patch (by rw [length_putU16le]; omega) (by omega), hwritten₄, hwritten₃,
    hwritten₂, hwritten₁, hoff₄]
  match stale, hstale with
  | [a, b], _ =>
    rfl

theorem declaredLen_wire (h : imuSamples.length ≤ imuSamplesMax) (rest : List UInt8) :
    declaredLen (e.wire sight imuSamples ++ rest) = (e.wire sight imuSamples).length := by
  have hsize := e.length_wire_le sight h
  have hmax : bundleFrameMax = 401 := rfl
  have hread : readUInt16LittleEndian ((e.wire sight imuSamples ++ rest).window 3 2) =
      UInt16.ofNat (21 + (imuSection (tickTsUs sight imuSamples) imuSamples).length +
        (tlvSection sight.snapshot (List.finRange Bundle.tlvCount)).length) := readUInt16_putU16le _
  rw [declaredLen, hread, ← length_wireFrame (e.header sight imuSamples), ← wire]
  exact UInt16.toNat_ofNat_of_lt' (by show _ < 65536; omega)

/-- **The host reads the frame back**, whatever comes after it. -/
theorem decodes_wire (h : imuSamples.length ≤ imuSamplesMax)
    (rest : List UInt8) : BundleFrameParser.Decodes (e.wire sight imuSamples ++ rest)
      { header := (e.header sight imuSamples).received
        imuSamples := imuSamples.map (SensorImu.received (tickTsUs sight imuSamples))
        tlvs := (List.finRange Bundle.tlvCount).map fun cls : Fin _ =>
          (sight.snapshot cls).received (UInt8.ofNat cls) } := by
  let imu := imuSection (tickTsUs sight imuSamples) imuSamples
  let tlvs := tlvSection sight.snapshot (List.finRange Bundle.tlvCount)
  let hdr := e.header sight imuSamples
  have hlen : (e.wire sight imuSamples).length = 21 + imu.length + tlvs.length :=
    length_wireFrame _ _ _
  have himu : imu.length = imuSampleSize * imuSamples.length := length_imuSection _ _
  have hcount : hdr.received.imuSampleCount.toNat = imuSamples.length :=
    UInt8.toNat_ofNat_of_lt' (Nat.lt_of_le_of_lt h (by decide))
  -- the span, up to where a section begins
  let envelope := putU16le frameMagic ++ [frameTypeBundle] ++
    putU16le (UInt16.ofNat (21 + imu.length + tlvs.length))
  have himuAt : e.wire sight imuSamples ++ rest =
      (envelope ++ hdr.encode) ++ (imu ++ (tlvs ++ rest)) := by
    simp only [wire, wireFrame, envelope, hdr, imu, tlvs, List.append_assoc]
  have htlvsAt : e.wire sight imuSamples ++ rest =
      (envelope ++ hdr.encode ++ imu) ++ (tlvs ++ rest) := by
    rw [himuAt]
    exact (List.append_assoc _ _ _).symm
  have hpre : (envelope ++ hdr.encode ++ imu).length = 21 + imuSamples.length * imuSampleSize := by
    rw [List.length_append, himu, Nat.mul_comm]
    rfl
  have htlvs := readTlvs_section sight.snapshot (List.finRange Bundle.tlvCount)
    (envelope ++ hdr.encode ++ imu) rest (e.wire sight imuSamples).length
    (by rw [hlen, List.length_append]; exact Nat.le_refl _)
  refine ⟨?_, readUInt16_putU16le _, rfl, ?_, readHeader_encode hdr, ?_, rfl, ?_, ?_, ?_, ?_⟩
  · rw [List.length_append, hlen]
    show 21 ≤ _
    omega
  · rw [declaredLen_wire e sight h, List.length_append]
    omega
  · rw [hcount]
    exact h
  · rw [hcount, Nat.mul_comm]
    exact UInt16.toNat_ofNat_of_lt' (Nat.lt_of_le_of_lt (Nat.mul_le_mul_left _ h) (by decide))
  · rw [hcount, declaredLen_wire e sight h, hlen, himu, Nat.mul_comm]
    show 21 + Bundle.imuSampleSize * _ ≤ 21 + Bundle.imuSampleSize * _ + _
    omega
  · rw [hcount, himuAt]
    exact readImuSamples_section (tickTsUs sight imuSamples) imuSamples (envelope ++ hdr.encode)
      (tlvs ++ rest)
  · rw [hcount, declaredLen_wire e sight h, htlvsAt]
    show BundleFrameParser.readTlvs _ _ (List.finRange Bundle.tlvCount).length
      (21 + imuSamples.length * imuSampleSize) = _
    rw [← hpre, htlvs, List.length_append, hlen]
    rfl

/-! ## A tick -/

variable {e}

theorem emission_emitOneFrame (sight : Sight) (imuSamples : List SensorImu) :
    (e.emitOneFrame sight imuSamples).2.1 =
      ⟨e, sight, imuSamples, (e.build sight imuSamples).written⟩ := rfl

/-- The frames of a tick carry the samples it drained, in order, each in one frame. -/
theorem emitRuns_imuSamples (sights : Nat → Sight) (n : Nat) (firstRc : Int) (start : SensorImu)
    (run rest : List SensorImu) :
    (emitRuns sights e n firstRc start run rest).2.1.flatMap (·.imuSamples) = run ++ rest := by
  induction rest generalizing e n firstRc start run with
  | nil => rw [emitRuns, List.flatMap_singleton, emission_emitOneFrame, List.append_nil]
  | cons s rest ih =>
    rw [emitRuns]
    split
    · rw [ih, List.append_assoc, List.singleton_append]
    · rw [List.flatMap_cons, ih, List.singleton_append, emission_emitOneFrame]

theorem emitRuns_frame (sights : Nat → Sight) (n : Nat) (firstRc : Int) (start : SensorImu)
    (run rest : List SensorImu) : ∀ m ∈ (emitRuns sights e n firstRc start run rest).2.1,
      m.frame = (m.emitter.build m.sight m.imuSamples).written := by
  induction rest generalizing e n firstRc start run with
  | nil =>
    intro m hm
    rw [List.mem_singleton.mp hm]
  | cons s rest ih =>
    intro m hm
    rw [emitRuns] at hm
    split at hm
    · exact ih n firstRc start (run ++ [s]) m hm
    · rcases List.mem_cons.mp hm with heq | hm
      · rw [heq, emission_emitOneFrame]
      · exact ih _ _ _ _ m hm

/-- The calls of `emit_one_frame` see what there is at their time. -/
theorem emitRuns_sight (sights : Nat → Sight) (n : Nat) (firstRc : Int) (start : SensorImu)
    (run rest : List SensorImu) {i : Nat} {m : Emission}
    (h : (emitRuns sights e n firstRc start run rest).2.1[i]? = some m) :
    m.sight = sights (n + i) := by
  induction rest generalizing e n firstRc start run i with
  | nil =>
    cases i with
    | zero =>
      cases h
      rfl
    | succ i => cases h
  | cons s rest ih =>
    rw [emitRuns] at h
    split at h
    · exact ih _ _ _ _ h
    · cases i with
      | zero =>
        cases h
        rfl
      | succ i => exact (ih _ _ _ _ h).trans (congrArg sights (by omega))

theorem emitBundle_imuSamples (sights : Nat → Sight) (ring : List SensorImu) :
    (e.emitBundle sights ring).2.1.flatMap (·.imuSamples) =
      if e.imuOn then ring.take imuSamplesMax else [] := by
  rw [emitBundle]
  cases e.imuOn with
  | false => rfl
  | true =>
    rw [if_neg (by decide), if_pos rfl]
    split
    · next hring =>
      rw [hring]
      rfl
    · next hring =>
      rw [hring]
      exact emitRuns_imuSamples _ _ _ _ _ _

theorem emitBundle_frame (sights : Nat → Sight) (ring : List SensorImu) :
    ∀ m ∈ (e.emitBundle sights ring).2.1,
      m.frame = (m.emitter.build m.sight m.imuSamples).written := by
  intro m hm
  rw [emitBundle] at hm
  split at hm
  · rw [List.mem_singleton.mp hm, emission_emitOneFrame]
  · split at hm
    · rw [List.mem_singleton.mp hm, emission_emitOneFrame]
    · exact emitRuns_frame _ _ _ _ _ _ m hm

theorem emitBundle_sight (sights : Nat → Sight) (ring : List SensorImu) {i : Nat} {m : Emission}
    (h : (e.emitBundle sights ring).2.1[i]? = some m) : m.sight = sights i := by
  have hone : [(e.emitOneFrame (sights 0) []).2.1][i]? = some m → m.sight = sights i := by
    cases i with
    | zero =>
      rintro ⟨⟩
      rfl
    | succ i => exact nofun
  rw [emitBundle] at h
  split at h
  · exact hone h
  · split at h
    · exact hone h
    · exact (emitRuns_sight _ _ _ _ _ _ h).trans (congrArg sights (Nat.zero_add i))

theorem emitBundle_few (sights : Nat → Sight) (ring : List SensorImu) :
    ∀ m ∈ (e.emitBundle sights ring).2.1, m.imuSamples.length ≤ imuSamplesMax := by
  intro m hm
  have hsub : m.imuSamples.Sublist ((e.emitBundle sights ring).2.1.flatMap (·.imuSamples)) := by
    exact List.sublist_flatten_of_mem (List.mem_map_of_mem hm)
  rw [emitBundle_imuSamples] at hsub
  refine hsub.length_le.trans ?_
  split
  · exact List.length_take_le _ _
  · exact Nat.zero_le _

theorem emitBundle_decodes (sights : Nat → Sight) (ring : List SensorImu) (rest : List UInt8) :
    ∀ m ∈ (e.emitBundle sights ring).2.1,
      BundleFrameParser.tryDecode (m.frame ++ rest) = some m.content ∧
        declaredLen (m.frame ++ rest) = m.frame.length ∧ m.frame.length ≤ bundleFrameMax := by
  intro m hm
  have hfew := emitBundle_few sights ring m hm
  rw [emitBundle_frame sights ring m hm, written_build _ _ hfew]
  exact ⟨BundleFrameParser.tryDecode_of_decodes (decodes_wire _ _ hfew rest),
    declaredLen_wire _ _ hfew rest, length_wire_le _ _ hfew⟩

/-- **The wire format round trip.** In every tick, whatever the ring of the IMU sampler holds,
whatever each call of `emit_one_frame` sees and whatever follows the frame, the host reads each
frame back as what was put into it: together these are the samples drained, and of each call what it
sees. The length the frame declares is its own, and at most the declared maximum. -/
theorem bundle_round_trip (e : Emitter) (sights : Nat → Sight) (ring : List SensorImu)
    (rest : List UInt8) :
    (∀ m ∈ (e.emitBundle sights ring).2.1,
      BundleFrameParser.tryDecode (m.frame ++ rest) = some m.content ∧
        declaredLen (m.frame ++ rest) = m.frame.length ∧ m.frame.length ≤ bundleFrameMax) ∧
      ((e.emitBundle sights ring).2.1.flatMap (·.imuSamples) =
        if e.imuOn then ring.take imuSamplesMax else []) ∧
      ∀ i m, (e.emitBundle sights ring).2.1[i]? = some m → m.sight = sights i :=
  ⟨emitBundle_decodes sights ring rest, emitBundle_imuSamples sights ring,
    fun _ _ => emitBundle_sight sights ring⟩

/-- The payload of the first class is fresh, and no other. -/
def snapshotTwo : Snapshot := fun cls =>
  { portId := 1, modeId := 2, dataType := 0, numValues := 2, payloadLen := 2
    flags := if cls.val = 0 then 3 else 1, age10ms := 4, seq := 300, payload := .replicate _ 7 }

def sampling : Emitter where
  imuOn := true
  sensorOn := true
  seq := 0xffff
  lastOdrIdx := 0
  lastFsrXlIdx := 0
  lastFsrGyIdx := 0
  buf := ⟨List.replicate _ 0xaa, List.length_replicate, 0⟩

def sampleOne : SensorImu := ⟨70000, -1, 2, -3, 4, -5, 6, 4, 1, 6⟩

def sightOne : Sight := ⟨0, snapshotTwo, 0⟩

theorem bundle_round_trip_one :
    BundleFrameParser.tryDecode ((sampling.emitOneFrame sightOne [sampleOne]).2.1.frame ++ [0x6b]) =
        some (sampling.emitOneFrame sightOne [sampleOne]).2.1.content ∧
      declaredLen ((sampling.emitOneFrame sightOne [sampleOne]).2.1.frame ++ [0x6b]) =
        (sampling.emitOneFrame sightOne [sampleOne]).2.1.frame.length ∧
      (sampling.emitOneFrame sightOne [sampleOne]).2.1.frame.length ≤ bundleFrameMax :=
  (bundle_round_trip sampling (fun _ => sightOne) [sampleOne] [0x6b]).1 _
    (List.mem_singleton.mpr rfl)

end Emitter

/-!
## How a tick is split into frames

The frames of a tick carry the maximal runs of samples with one configuration: the samples of the
frames are `List.splitBy sameIdx` of the samples drained (`emitBundle_splitBy`), and what holds of a
split at every change holds of the tick (`emitBundle_splits`). On the wire, each sample keeps its
own time.
-/

/-! ### The configuration -/

/-- The header announces the configuration of the sample. -/
def Announces (h : BundleFrameHeader) (s : SensorImu) : Prop :=
  h.imuSampleRateHz = odrHzTable.getD s.odrIdx.toNat 0 ∧
    h.imuAccelFsrG = fsrXlGTable.getD s.fsrXlIdx.toNat 0 ∧
    h.imuGyroFsrDps = fsrGyDpsTable.getD s.fsrGyIdx.toNat 0

def SensorImu.idx (s : SensorImu) : UInt8 × UInt8 × UInt8 := (s.odrIdx, s.fsrXlIdx, s.fsrGyIdx)

namespace Emitter

theorem sameIdx_iff {s t : SensorImu} : sameIdx s t = true ↔ s.idx = t.idx := by
  simp [sameIdx, SensorImu.idx, and_assoc]

variable {e : Emitter}

variable {run : List SensorImu}

theorem idx_of_isChain {start : SensorImu}
    (h : (start :: run).IsChain fun s t => sameIdx s t = true) :
    ∀ s ∈ start :: run, s.idx = start.idx := by
  induction run generalizing start with
  | nil =>
    intro s hs
    rw [List.mem_singleton.mp hs]
  | cons t run ih =>
    obtain ⟨hfirst, hrest⟩ := List.isChain_cons_cons.mp h
    intro s hs
    rcases List.mem_cons.mp hs with rfl | hs
    · rfl
    · rw [ih hrest s hs]
      exact (sameIdx_iff.mp hfirst).symm

theorem isChain_of_idx {start : SensorImu}
    (h : ∀ s ∈ run, s.idx = start.idx) : run.IsChain fun s t => sameIdx s t = true := by
  apply List.Pairwise.isChain
  apply List.pairwise_of_forall_mem_list
  intro s hs t ht
  rw [sameIdx_iff, h s hs, h t ht]

/-! ### The runs of a tick -/

theorem emitRuns_splitBy (sights : Nat → Sight) (n : Nat) (firstRc : Int) (start : SensorImu)
    (hrun : run ≠ []) (hidx : ∀ s ∈ run, s.idx = start.idx) (rest : List SensorImu) :
    (emitRuns sights e n firstRc start run rest).2.1.map (·.imuSamples) =
      (run ++ rest).splitBy sameIdx := by
  induction rest generalizing e n firstRc start run with
  | nil =>
    rw [List.append_nil, List.splitBy_of_isChain hrun (isChain_of_idx hidx)]
    rfl
  | cons s rest ih =>
    rw [emitRuns]
    split
    · next hsame =>
      rw [ih _ _ _ (List.append_ne_nil_of_left_ne_nil hrun _), List.append_assoc]
      · rfl
      · exact List.forall_mem_append.mpr
          ⟨hidx, List.forall_mem_singleton.mpr (sameIdx_iff.mp hsame)⟩
    · next hother =>
      have hlast : ∀ t ∈ run.getLast?, sameIdx t s = false := by
        intro t ht
        have htidx := hidx t (List.mem_of_mem_getLast? ht)
        rw [Bool.eq_false_iff]
        intro hsame
        apply hother
        rw [sameIdx_iff, ← htidx, sameIdx_iff.mp hsame]
      rw [List.splitBy_append_cons rest hlast, List.splitBy_of_isChain hrun (isChain_of_idx hidx)]
      exact congrArg (run :: ·) (ih (n + 1) _ s (List.cons_ne_nil s [])
        (List.forall_mem_singleton.mpr rfl))

/-- What `emit_bundle` drains. -/
def drained (e : Emitter) (ring : List SensorImu) : List SensorImu :=
  if e.imuOn then ring.take imuSamplesMax else []

theorem emitBundle_splitBy (sights : Nat → Sight) {ring : List SensorImu}
    (h : e.drained ring ≠ []) :
    (e.emitBundle sights ring).2.1.map (·.imuSamples) = (e.drained ring).splitBy sameIdx := by
  rw [drained] at h ⊢
  cases himu : e.imuOn with
  | false =>
    rw [himu] at h
    exact absurd rfl h
  | true =>
    rw [himu, if_pos rfl] at h
    rw [emitBundle, himu, if_neg (by decide), if_pos rfl]
    split
    · next hring => exact absurd hring h
    · next s rest hring =>
      rw [hring]
      exact emitRuns_splitBy sights 0 0 s (List.cons_ne_nil s [])
        (List.forall_mem_singleton.mpr rfl) rest

/-- A tick that drained nothing still sends one frame. -/
theorem emitBundle_nothing (sights : Nat → Sight) {ring : List SensorImu}
    (h : e.drained ring = []) :
    (e.emitBundle sights ring).2.1.map (·.imuSamples) = [[]] := by
  rw [drained] at h
  rw [emitBundle]
  cases himu : e.imuOn with
  | false => rfl
  | true =>
    rw [himu, if_pos rfl] at h
    rw [if_neg (by decide), h]
    rfl

theorem emitBundle_ring (sights : Nat → Sight) (ring : List SensorImu) :
    ring = e.drained ring ++ (e.emitBundle sights ring).2.2.2 := by
  rw [drained, emitBundle]
  cases e.imuOn with
  | false => rfl
  | true =>
    rw [if_pos rfl, if_neg (by decide)]
    split
    · next hring =>
      rw [hring]
      rfl
    · next hring =>
      rw [hring]
      show ring = _ ++ ring.drop imuSamplesMax
      rw [← hring, List.take_append_drop]

/-! ### The sequence numbers -/

theorem seq_emitOneFrame (sight : Sight) (imuSamples : List SensorImu) :
    (e.emitOneFrame sight imuSamples).2.2.seq = e.seq + 1 := by
  cases imuSamples <;> rfl

theorem add_one_add_ofNat (seq : UInt16) (k : Nat) :
    seq + 1 + UInt16.ofNat k = seq + UInt16.ofNat (k + 1) := by
  rw [UInt16.ofNat_add, UInt16.add_assoc, UInt16.add_comm 1]
  rfl

/-- The frames of the loop are numbered one by one, and the next number is what is left. -/
theorem emitRuns_seq (sights : Nat → Sight) (n : Nat) (firstRc : Int) (start : SensorImu)
    (run rest : List SensorImu) :
    (∀ (k : Nat) (m : Emission),
      (emitRuns sights e n firstRc start run rest).2.1[k]? = some m →
        m.emitter.seq = e.seq + UInt16.ofNat k) ∧
      (emitRuns sights e n firstRc start run rest).2.2.seq =
        e.seq + UInt16.ofNat (emitRuns sights e n firstRc start run rest).2.1.length := by
  induction rest generalizing e n firstRc start run with
  | nil =>
    refine ⟨?_, seq_emitOneFrame _ _⟩
    intro k m hm
    rw [emitRuns, List.getElem?_singleton] at hm
    split at hm
    · next hk =>
      cases hm
      rw [hk]
      exact (UInt16.add_zero e.seq).symm
    · cases hm
  | cons s rest ih =>
    rw [emitRuns]
    split
    · exact ih n firstRc start (run ++ [s])
    · obtain ⟨hnumbered, hleft⟩ := ih (e := (e.emitOneFrame (sights n) run).2.2) (n + 1)
        (if (e.emitOneFrame (sights n) run).1 < 0 ∧ firstRc = 0
          then (e.emitOneFrame (sights n) run).1 else firstRc) s [s]
      rw [seq_emitOneFrame] at hnumbered hleft
      constructor
      · intro k m hm
        cases k with
        | zero =>
          cases hm
          exact (UInt16.add_zero e.seq).symm
        | succ k =>
          rw [← add_one_add_ofNat]
          exact hnumbered k m hm
      · rw [List.length_cons, ← add_one_add_ofNat]
        exact hleft

theorem emitBundle_seq (sights : Nat → Sight) (ring : List SensorImu) :
    (∀ (k : Nat) (m : Emission), (e.emitBundle sights ring).2.1[k]? = some m →
      m.emitter.seq = e.seq + UInt16.ofNat k) ∧
      (e.emitBundle sights ring).2.2.1.seq =
        e.seq + UInt16.ofNat (e.emitBundle sights ring).2.1.length := by
  have hempty : (∀ (k : Nat) (m : Emission),
      [(e.emitOneFrame (sights 0) []).2.1][k]? = some m → m.emitter.seq = e.seq + UInt16.ofNat k) ∧
      (e.emitOneFrame (sights 0) []).2.2.seq = e.seq + UInt16.ofNat 1 :=
    emitRuns_seq sights 0 0 sampleOne [] []
  rw [emitBundle]
  split
  · exact hempty
  · split
    · exact hempty
    · exact emitRuns_seq sights 0 0 _ _ _

/-! ### The tick -/

theorem emitBundle_idx (sights : Nat → Sight) (ring : List SensorImu) :
    ∀ m ∈ (e.emitBundle sights ring).2.1, ∀ s ∈ m.imuSamples, ∀ t ∈ m.imuSamples,
      s.idx = t.idx := by
  intro m hm s hs t ht
  have hmem := List.mem_map_of_mem (f := Emission.imuSamples) hm
  by_cases hdrained : e.drained ring = []
  · rw [emitBundle_nothing sights hdrained, List.mem_singleton] at hmem
    rw [hmem] at hs
    cases hs
  · rw [emitBundle_splitBy sights hdrained] at hmem
    have hchain := List.isChain_of_mem_splitBy hmem
    cases hsamples : m.imuSamples with
    | nil =>
      rw [hsamples] at hs
      cases hs
    | cons first run =>
      rw [hsamples] at hs ht hchain
      rw [idx_of_isChain hchain s hs, idx_of_isChain hchain t ht]

theorem emitBundle_isChain (sights : Nat → Sight) (ring : List SensorImu) :
    (e.emitBundle sights ring).2.1.IsChain fun m m' =>
      ∃ s ∈ m.imuSamples.getLast?, ∃ t ∈ m'.imuSamples.head?, s.idx ≠ t.idx := by
  apply (List.isChain_map Emission.imuSamples (R := fun run run' : List SensorImu =>
    ∃ s ∈ run.getLast?, ∃ t ∈ run'.head?, s.idx ≠ t.idx)).mp
  by_cases hdrained : e.drained ring = []
  · rw [emitBundle_nothing sights hdrained]
    exact List.isChain_singleton _
  · rw [emitBundle_splitBy sights hdrained]
    apply (List.isChain_getLast_head_splitBy sameIdx (e.drained ring)).imp
    rintro run run' ⟨hrun, hrun', hother⟩
    refine ⟨_, List.getLast_mem_getLast? hrun, _, List.head_mem_head? hrun', ?_⟩
    intro heq
    rw [sameIdx_iff.mpr heq] at hother
    cases hother

theorem announces_content {m : Emission}
    (h : ∀ s ∈ m.imuSamples, ∀ t ∈ m.imuSamples, s.idx = t.idx) :
    ∀ s ∈ m.imuSamples, Announces m.content.header s := by
  intro s hs
  cases hsamples : m.imuSamples with
  | nil =>
    rw [hsamples] at hs
    cases hs
  | cons first run =>
    have hfirst : s.idx = first.idx := h s hs first (by rw [hsamples]; exact List.mem_cons_self)
    obtain ⟨hodr, hrest⟩ := Prod.mk.inj hfirst
    obtain ⟨hxl, hgy⟩ := Prod.mk.inj hrest
    rw [Announces, hodr, hxl, hgy, Emission.content, hsamples]
    exact ⟨rfl, rfl, rfl⟩

theorem hostTime_content (m : Emission) :
    m.content.imuSamples.map (fun s => m.content.header.tickTsUs + s.timestampDeltaUs) =
      m.imuSamples.map (·.timestamp) := by
  rw [Emission.content, List.map_map]
  apply List.map_congr_left
  intro s _
  show tickTsUs m.sight m.imuSamples + (s.timestamp - tickTsUs m.sight m.imuSamples) = s.timestamp
  rw [UInt32.add_comm, UInt32.sub_add_cancel]

/-- **A tick is split at the changes of configuration.** The frames carry the samples that were
drained, in order; the host reads each frame with the samples it carries, all of the configuration
its header announces and at their own times; two frames in a row differ in their configuration;
and the frames take one number each, from the emitter's on. -/
theorem emitBundle_splits (e : Emitter) (sights : Nat → Sight) (ring : List SensorImu) :
    let tick := e.emitBundle sights ring
    let emissions := tick.2.1
    ring = emissions.flatMap (·.imuSamples) ++ tick.2.2.2 ∧
      emissions.flatMap (·.imuSamples) = e.drained ring ∧
      (∀ m ∈ emissions, ∃ frame, BundleFrameParser.tryDecode m.frame = some frame ∧
        frame.imuSamples = m.imuSamples.map (SensorImu.received frame.header.tickTsUs) ∧
        (frame.imuSamples.map fun s => frame.header.tickTsUs + s.timestampDeltaUs) =
          m.imuSamples.map (·.timestamp) ∧
        (∀ s ∈ m.imuSamples, Announces frame.header s) ∧
        (∀ s ∈ m.imuSamples, ∀ t ∈ m.imuSamples, s.idx = t.idx) ∧
        m.imuSamples.length ≤ imuSamplesMax) ∧
      (emissions.IsChain fun m m' =>
        ∃ s ∈ m.imuSamples.getLast?, ∃ t ∈ m'.imuSamples.head?, s.idx ≠ t.idx) ∧
      (∀ (k : Nat) (m : Emission), emissions[k]? = some m →
        ∃ frame, BundleFrameParser.tryDecode m.frame = some frame ∧
          frame.header.seq = e.seq + UInt16.ofNat k) ∧
      tick.2.2.1.seq = e.seq + UInt16.ofNat emissions.length := by
  intro tick emissions
  have hdecodes (m : Emission) (hm : m ∈ (e.emitBundle sights ring).2.1) :
      BundleFrameParser.tryDecode m.frame = some m.content := by
    have htrip := (emitBundle_decodes sights ring [] m hm).1
    rwa [List.append_nil] at htrip
  have hsamples : (e.emitBundle sights ring).2.1.flatMap (·.imuSamples) = e.drained ring :=
    emitBundle_imuSamples sights ring
  obtain ⟨hnumbered, hleft⟩ := emitBundle_seq (e := e) sights ring
  refine ⟨?_, hsamples, ?_, emitBundle_isChain sights ring, ?_, hleft⟩
  · show ring = tick.2.1.flatMap (·.imuSamples) ++ _
    rw [hsamples]
    exact emitBundle_ring sights ring
  · intro m hm
    have hidx := emitBundle_idx sights ring m hm
    exact ⟨m.content, hdecodes m hm, rfl, hostTime_content m, announces_content hidx, hidx,
      emitBundle_few sights ring m hm⟩
  · intro k m hm
    exact ⟨m.content, hdecodes m (List.mem_of_getElem? hm), hnumbered k m hm⟩

end Emitter

end Brickwright.Btsensor.Bundle
