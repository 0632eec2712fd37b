import Brickwright.Bytes.Buffers
import Brickwright.Btsensor.Tx.Basic

/-!
# The BUNDLE emitter (`apps/btsensor/bundle_emitter.c`)

A tick drains the IMU samples that came in and sends them, with a snapshot of the six sensor
classes, in frames of the layout of `btsensor_wire.h`: an envelope, a header, the samples, and one
entry for each class, whose payload is there only when it is fresh. The samples of a frame share one
configuration of the sensor, so a tick sends one frame for each run of equal configurations.

The frame is built in one buffer, which is reused from tick to tick. Its length is patched in last.
-/

namespace Brickwright.Btsensor.Bundle

open Bytes

def frameMagic : UInt16 := 0xb66b
def frameTypeBundle : UInt8 := 0x02
def imuSampleSize : Nat := 16
def tlvHeaderSize : Nat := 10
def tlvPayloadMax : UInt8 := 32
def tlvCount : Nat := 6
def imuSamplesMax : Nat := 8

/-- `BTSENSOR_BUNDLE_FRAME_MAX`. -/
def bundleFrameMax : Nat :=
  5 + 16 + imuSampleSize * imuSamplesMax + (tlvHeaderSize + tlvPayloadMax.toNat) * tlvCount

def flagImuOn : UInt8 := 0x01
def flagSensorOn : UInt8 := 0x02
def tlvFlagFresh : UInt8 := 0x02

/-- `struct sensor_imu`; nothing here reads its temperature. -/
structure SensorImu where
  timestamp : UInt32
  ax : Int16
  ay : Int16
  az : Int16
  gx : Int16
  gy : Int16
  gz : Int16
  odrIdx : UInt8
  fsrXlIdx : UInt8
  fsrGyIdx : UInt8
  deriving DecidableEq

/-- `struct sensor_class_state_s`. -/
structure SensorClassState where
  portId : UInt8
  modeId : UInt8
  dataType : UInt8
  numValues : UInt8
  payloadLen : UInt8
  flags : UInt8
  age10ms : UInt8
  seq : UInt16
  payload : Vector UInt8 tlvPayloadMax.toNat
  deriving DecidableEq

/-- What `sensor_sampler_snapshot` fills in, one entry for each class. -/
abbrev Snapshot := Fin tlvCount → SensorClassState

def odrHzTable : List UInt16 := [0, 13, 26, 52, 104, 208, 416, 833, 1660, 3330, 6660]
def fsrXlGTable : List UInt8 := [2, 16, 4, 8]
def fsrGyDpsTable : List UInt16 := [250, 125, 500, 0, 1000, 0, 2000]

/-- The file's statics. The timer is not here. -/
structure Emitter where
  imuOn : Bool
  sensorOn : Bool
  seq : UInt16
  lastOdrIdx : UInt8
  lastFsrXlIdx : UInt8
  lastFsrGyIdx : UInt8
  buf : Writer Tx.frameMaxSize
  deriving DecidableEq

/-- What one call of `emit_one_frame` gets from the rest of the firmware: the time, the snapshot,
and what the transmitter says to the frame. -/
structure Sight where
  nowUs : UInt32
  snapshot : Snapshot
  enqueueRc : Int

/-! ## The encoders -/

def putU16le (v : UInt16) : List UInt8 := [(v &&& 0xff).toUInt8, (v >>> 8 &&& 0xff).toUInt8]

def putU32le (v : UInt32) : List UInt8 :=
  [(v &&& 0xff).toUInt8, (v >>> 8 &&& 0xff).toUInt8, (v >>> 16 &&& 0xff).toUInt8,
    (v >>> 24 &&& 0xff).toUInt8]

/-- `encode_imu_sample`: the bytes it writes at `dst`. -/
def encodeImuSample (s : SensorImu) (tsDeltaUs : UInt32) : List UInt8 :=
  putU16le s.ax.toUInt16 ++ putU16le s.ay.toUInt16 ++ putU16le s.az.toUInt16 ++
    putU16le s.gx.toUInt16 ++ putU16le s.gy.toUInt16 ++ putU16le s.gz.toUInt16 ++
    putU32le tsDeltaUs

/-- The local `payload_len` of `encode_tlv`. -/
def SensorClassState.encodedLen (state : SensorClassState) : UInt8 :=
  let payloadLen := if state.flags &&& tlvFlagFresh ≠ 0 then state.payloadLen else 0
  if payloadLen > tlvPayloadMax then tlvPayloadMax else payloadLen

/-- `encode_tlv`: the bytes it writes at `dst`. -/
def encodeTlv (classId : UInt8) (state : SensorClassState) : List UInt8 :=
  [classId, state.portId, state.modeId, state.dataType, state.numValues, state.encodedLen,
    state.flags, state.age10ms] ++ putU16le state.seq ++
    state.payload.toList.take state.encodedLen.toNat

/-! ## One frame -/

/-- What `emit_one_frame` writes into the header. -/
structure Header where
  seq : UInt16
  tickTsUs : UInt32
  imuSectionLen : UInt16
  imuSampleCount : UInt8
  tlvCount : UInt8
  odrHz : UInt16
  xlG : UInt8
  gyDps : UInt16
  flags : UInt8
  deriving DecidableEq

def Header.encode (h : Header) : List UInt8 :=
  putU16le h.seq ++ putU32le h.tickTsUs ++ putU16le h.imuSectionLen ++
    [h.imuSampleCount, h.tlvCount] ++ putU16le h.odrHz ++ [h.xlG] ++ putU16le h.gyDps ++ [h.flags]

namespace Emitter

variable (e : Emitter)

/-- The locals `odr_idx`, `xl_idx` and `gy_idx`. -/
def indices : List SensorImu → UInt8 × UInt8 × UInt8
  | first :: _ => (first.odrIdx, first.fsrXlIdx, first.fsrGyIdx)
  | [] => if e.imuOn then (e.lastOdrIdx, e.lastFsrXlIdx, e.lastFsrGyIdx) else (0, 0, 0)

/-- The local `tick_ts_us`. -/
def tickTsUs (sight : Sight) : List SensorImu → UInt32
  | first :: _ => first.timestamp
  | [] => sight.nowUs

def header (sight : Sight) (imuSamples : List SensorImu) : Header :=
  let (odrIdx, xlIdx, gyIdx) := e.indices imuSamples
  { seq := e.seq
    tickTsUs := tickTsUs sight imuSamples
    imuSectionLen := UInt16.ofNat (imuSampleSize * imuSamples.length)
    imuSampleCount := UInt8.ofNat imuSamples.length
    tlvCount := UInt8.ofNat tlvCount
    odrHz := odrHzTable.getD odrIdx.toNat 0
    xlG := fsrXlGTable.getD xlIdx.toNat 0
    gyDps := fsrGyDpsTable.getD gyIdx.toNat 0
    flags := (if e.imuOn then flagImuOn else 0) ||| (if e.sensorOn then flagSensorOn else 0) }

/-- The buffer as `emit_one_frame` leaves it, with the length of the frame as its offset. -/
def build (sight : Sight) (imuSamples : List SensorImu) : Writer Tx.frameMaxSize :=
  let tick := tickTsUs sight imuSamples
  let w := (e.buf.rewind.put (putU16le frameMagic)).put [frameTypeBundle]
  -- the length is not known yet
  let w := w.skip 2
  let w := w.put (e.header sight imuSamples).encode
  let w := imuSamples.foldl (fun w s => w.put (encodeImuSample s (s.timestamp - tick))) w
  let w := (List.finRange tlvCount).foldl
    (fun w cls => w.put (encodeTlv (UInt8.ofNat cls) (sight.snapshot cls))) w
  w.patch 3 (putU16le (UInt16.ofNat w.off))

/-- A call of `emit_one_frame`, with what it saw and the frame it handed to the transmitter. -/
structure Emission where
  emitter : Emitter
  sight : Sight
  imuSamples : List SensorImu
  frame : List UInt8

def emitOneFrame (sight : Sight) (imuSamples : List SensorImu) : Int × Emission × Emitter :=
  let buf := e.build sight imuSamples
  let (odrIdx, xlIdx, gyIdx) := e.indices imuSamples
  (sight.enqueueRc, ⟨e, sight, imuSamples, buf.written⟩,
    if imuSamples.isEmpty then { e with seq := e.seq + 1, buf := buf }
    else { e with
      seq := e.seq + 1, buf := buf
      lastOdrIdx := odrIdx, lastFsrXlIdx := xlIdx, lastFsrGyIdx := gyIdx })

/-! ## One tick -/

def sameIdx (s start : SensorImu) : Bool :=
  s.odrIdx = start.odrIdx && s.fsrXlIdx = start.fsrXlIdx && s.fsrGyIdx = start.fsrGyIdx

/-- The loop of `emit_bundle`: `run` is `imu_buf[start..end)` and `rest` what comes after it. The
`n`-th call of `emit_one_frame` in this tick sees `sights n`. -/
def emitRuns (sights : Nat → Sight) (e : Emitter) (n : Nat) (firstRc : Int) (start : SensorImu)
    (run : List SensorImu) : List SensorImu → Int × List Emission × Emitter
  | [] =>
    let (rc, emission, e) := e.emitOneFrame (sights n) run
    (if rc < 0 ∧ firstRc = 0 then rc else firstRc, [emission], e)
  | s :: rest =>
    if sameIdx s start then emitRuns sights e n firstRc start (run ++ [s]) rest
    else
      let (rc, emission, e) := e.emitOneFrame (sights n) run
      let firstRc := if rc < 0 ∧ firstRc = 0 then rc else firstRc
      let (rc, emissions, e) := emitRuns sights e (n + 1) firstRc s [s] rest
      (rc, emission :: emissions, e)

/-- `emit_bundle`, with the samples that wait in the ring of the IMU sampler before and after. -/
def emitBundle (sights : Nat → Sight) (ring : List SensorImu) :
    Int × List Emission × Emitter × List SensorImu :=
  if !e.imuOn then
    let (rc, emission, e) := e.emitOneFrame (sights 0) []
    (rc, [emission], e, ring)
  else
    -- `imu_sampler_drain`
    match ring.take imuSamplesMax with
    | [] =>
      let (rc, emission, e) := e.emitOneFrame (sights 0) []
      (rc, [emission], e, ring)
    | s :: rest =>
      let (rc, emissions, e) := emitRuns sights e 0 0 s [s] rest
      (rc, emissions, e, ring.drop imuSamplesMax)

end Emitter

end Brickwright.Btsensor.Bundle
