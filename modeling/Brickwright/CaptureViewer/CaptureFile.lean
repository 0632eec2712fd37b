import Brickwright.Bytes.Buffers
import Brickwright.Machine.Scanner
import Brickwright.Text.Search

/-!
# Capture files (`host/CaptureViewer/src/CaptureViewer.Core/Capture/CaptureFile.cs`)

`CaptureFile.Parse` over a byte span, with the errors it throws. Its checks keep every read inside
the span.

A C# string is its UTF-16 units. Of the string library only what the two readers of a capture call
is needed, and nothing is assumed of it (`Strings`).
-/

namespace Brickwright.CaptureViewer

open Bytes

/-- `Encoding.UTF8.GetString` and `char.IsLetterOrDigit`. -/
structure Strings where
  getString : List UInt8 → List UInt16
  isLetterOrDigit : UInt16 → Bool

namespace CaptureProtocol

def btcs : List UInt8 := [0x42, 0x54, 0x43, 0x53]
def btce : List UInt8 := [0x42, 0x54, 0x43, 0x45]
def btab : List UInt8 := [0x42, 0x54, 0x41, 0x42]
def fileMagic : Nat := 0x42504143
def fileVersion : Nat := 1
def sessionMetaSize : Nat := 40
def fileHeaderSize : Nat := 64
def fieldDescriptorSize : Nat := 48
def schemaNameMax : Nat := 32
def fieldNameMax : Nat := 16
def fieldUnitMax : Nat := 16
def payloadSanityMaxBytes : Nat := 1024 * 1024

end CaptureProtocol

open CaptureProtocol

inductive CaptureTermination
  | clean
  | aborted
  | unknown
  deriving DecidableEq

/-- The type tag is a byte: a cast keeps a byte that no member of `FieldType` names. -/
structure FieldDescriptor where
  name : List UInt16
  type : UInt8
  offset : Nat
  size : Nat
  scaleLog10 : Int
  unit : List UInt16
  deriving DecidableEq

structure CaptureFile where
  magic : Nat
  version : Nat
  schemaMagic : UInt16
  startTimestampUs : Nat
  recordSize : Int
  recordCount : Int
  schemaName : List UInt16
  fields : List FieldDescriptor
  payload : List UInt8
  termination : CaptureTermination
  deriving DecidableEq

/-- The texts of `InvalidCaptureFileException`, with the values they are formatted from. -/
inductive InvalidCaptureFile
  | bufferTooSmall (length : Nat)
  | badMagic (magic : Nat)
  | unsupportedVersion (version : Nat)
  | implausibleRecordSize (recordSize : Int)
  | negativeRecordCount (recordCount : Int)
  | implausibleFieldCount (fieldCount : Nat)
  | truncatedCapture (length : Nat) (expectedSize : Int)
  | fieldPastRecordSize (name : List UInt16) (offset size : Nat) (recordSize : Int)
  deriving DecidableEq

variable (strings : Strings)

def readFixedString (raw : List UInt8) : List UInt16 :=
  strings.getString (raw.takeWhile (· != 0))

def readFieldDescriptor (b : List UInt8) : FieldDescriptor where
  name := readFixedString strings (b.take fieldNameMax)
  type := b.getD fieldNameMax 0
  offset := (b.getD (fieldNameMax + 1) 0).toNat
  size := (b.getD (fieldNameMax + 2) 0).toNat
  scaleLog10 := Int.bmod (b.getD (fieldNameMax + 3) 0).toNat 256
  unit := readFixedString strings (b.window (fieldNameMax + 4) fieldUnitMax)

namespace CaptureFile

/-- What the header says the file is long. -/
def sizeOf (fieldCount : Nat) (recordSize recordCount : Int) : Int :=
  fileHeaderSize + fieldCount * fieldDescriptorSize + recordSize * recordCount

def readFields (bytes : List UInt8) (fieldCount : Nat) : List FieldDescriptor :=
  (List.range fieldCount).map fun i =>
    readFieldDescriptor strings
      (bytes.window (fileHeaderSize + i * fieldDescriptorSize) fieldDescriptorSize)

def parse (bytes : List UInt8) (termination : CaptureTermination) :
    Except InvalidCaptureFile CaptureFile :=
  if bytes.length < fileHeaderSize then .error (.bufferTooSmall bytes.length)
  else
    let magic := leNat (bytes.take 4)
    if magic ≠ fileMagic then .error (.badMagic magic)
    else
      let version := leNat (bytes.window 4 2)
      if version ≠ fileVersion then .error (.unsupportedVersion version)
      else
        let recordSize := int32 (bytes.window 16 4)
        let recordCount := int32 (bytes.window 20 4)
        if recordSize ≤ 0 ∨ recordSize > 255 then .error (.implausibleRecordSize recordSize)
        else if recordCount < 0 then .error (.negativeRecordCount recordCount)
        else
          let fieldCount := (bytes.getD 56 0).toNat
          if fieldCount = 0 ∨ fieldCount > 32 then .error (.implausibleFieldCount fieldCount)
          else
            let expectedSize := sizeOf fieldCount recordSize recordCount
            if (bytes.length : Int) < expectedSize then
              .error (.truncatedCapture bytes.length expectedSize)
            else
              let fields := readFields strings bytes fieldCount
              match fields.find? fun f => f.offset + f.size > recordSize with
              | some f => .error (.fieldPastRecordSize f.name f.offset f.size recordSize)
              | none => .ok {
                  magic := magic
                  version := version
                  schemaMagic := UInt16.ofNat (leNat (bytes.window 6 2))
                  startTimestampUs := leNat (bytes.window 8 8)
                  recordSize := recordSize
                  recordCount := recordCount
                  schemaName := readFixedString strings (bytes.window 24 schemaNameMax)
                  fields := fields
                  payload := bytes.take expectedSize.toNat
                  termination := termination }

def size (file : CaptureFile) : Int := sizeOf file.fields.length file.recordSize file.recordCount

structure WellFormed (bytes : List UInt8) (termination : CaptureTermination) (file : CaptureFile) :
    Prop where
  recordSize : 0 < file.recordSize ∧ file.recordSize ≤ 255
  recordCount : 0 ≤ file.recordCount
  fields : 0 < file.fields.length ∧ file.fields.length ≤ 32
  inside : ∀ f ∈ file.fields, f.offset + f.size ≤ file.recordSize
  size_le : file.size ≤ bytes.length
  payload : file.payload = bytes.take file.size.toNat
  termination : file.termination = termination

variable {strings} {bytes : List UInt8} {termination : CaptureTermination} {file : CaptureFile}

/-- **What `Parse` accepts is well formed.** -/
theorem wellFormed_of_parse (h : parse strings bytes termination = .ok file) :
    WellFormed bytes termination file := by
  unfold parse at h
  dsimp only at h
  split at h
  · cases h
  split at h
  · cases h
  split at h
  · cases h
  split at h
  · cases h
  next hsize =>
  split at h
  · cases h
  next hcount =>
  split at h
  · cases h
  next hfields =>
  split at h
  · cases h
  next hlength =>
  split at h
  · cases h
  next hinside =>
  cases h
  have hlen : (readFields strings bytes (bytes.getD 56 0).toNat).length =
      (bytes.getD 56 0).toNat := by
    rw [readFields, List.length_map, List.length_range]
  refine ⟨?_, ?_, ?_, ?_, ?_, ?_, rfl⟩
  · dsimp only
    omega
  · dsimp only
    omega
  · dsimp only
    omega
  · intro f hf
    have hnot := List.find?_eq_none.mp hinside f hf
    simpa using hnot
  · dsimp only [size]
    rw [hlen]
    omega
  · dsimp only [size]
    rw [hlen]

end CaptureFile

/-!
## The session scanner (`host/CaptureViewer/src/CaptureViewer.Core/Capture/SessionScanner.cs`)

`TryScan` looks for a `BTCS` marker, and decides what stands behind it: it waits for more bytes,
takes a session, or rejects the marker and looks for the next one. `examine` is the decision. It is
final but for waiting (`examine_append`), so more bytes never change what is found
(`tryScan_append`).
-/

open List

structure SessionScan where
  startIndex : Nat
  endIndex : Nat
  capture : CaptureFile
  deriving DecidableEq

/-- What is decided of the marker that the bytes start with. -/
inductive Verdict
  | wait
  | reject
  | accept (totalBytes : Nat) (capture : CaptureFile)
  deriving DecidableEq

def disposition (terminator : List UInt8) : Option CaptureTermination :=
  if terminator = btce then some .clean
  else if terminator = btab then some .aborted
  else none

variable (resolveSchema : Option (UInt16 → Bool))

def isPlausible (schemaMagic : UInt16) (totalBytes : Int) (name : List UInt16) : Bool :=
  if totalBytes < fileHeaderSize then false
  else if totalBytes > payloadSanityMaxBytes then false
  else if name = [] then false
  else if name.any fun ch => !(ch == 0x5f || strings.isLetterOrDigit ch) then false
  else match resolveSchema with
    | some resolve => resolve schemaMagic
    | none => true

/-- `IsPlausible` of a meta block. -/
def plausibleMeta (metaBlock : List UInt8) : Bool :=
  isPlausible strings resolveSchema (UInt16.ofNat (leNat (metaBlock.take 2)))
    (int32 (metaBlock.window 4 4)) (readFixedString strings (metaBlock.window 8 schemaNameMax))

/-- What is made of the payload, and of the four bytes behind it. -/
def conclude (totalBytes : Nat) (payload terminator : List UInt8) : Verdict :=
  match disposition terminator with
  | none => .reject
  | some termination =>
    match CaptureFile.parse strings payload termination with
    | .error _ => .reject
    | .ok capture => .accept totalBytes capture

def metaOff : Nat := btcs.length
def payloadOff : Nat := metaOff + sessionMetaSize

def examine (buffer : List UInt8) : Verdict :=
  if payloadOff > buffer.length then .wait
  else
    let metaBlock := buffer.window metaOff sessionMetaSize
    if ¬ plausibleMeta strings resolveSchema metaBlock then .reject
    else
      let totalBytes := (int32 (metaBlock.window 4 4)).toNat
      let payloadEnd := payloadOff + totalBytes
      if payloadEnd + 4 > buffer.length then .wait
      else
        conclude strings totalBytes (buffer.window payloadOff totalBytes)
          (buffer.window payloadEnd 4)

/-- The loop of `TryScan` from `startSearch` on, over the bytes that stand there. -/
def tryScanFrom (startSearch : Nat) (rest : List UInt8) : Option SessionScan :=
  match _h : btcs.indexOf rest with
  | none => none
  | some hit =>
    match examine strings resolveSchema (rest.drop hit) with
    | .wait => none
    | .reject => tryScanFrom (startSearch + hit + 1) (rest.drop (hit + 1))
    | .accept totalBytes capture =>
      some ⟨startSearch + hit, startSearch + hit + payloadOff + totalBytes + 4, capture⟩
termination_by rest.length
decreasing_by
  have hle := indexOf_add_length_le _h (by decide)
  rw [length_drop]
  have hpos : btcs.length = 4 := rfl
  omega

def tryScan (buffer : List UInt8) : Option SessionScan := tryScanFrom strings resolveSchema 0 buffer

variable {strings resolveSchema} {buffer rest : List UInt8} {start : Nat}

/-! ### The decision is final -/

/-- An accepted session has the size it was announced with, a known terminator, and a payload that
parses. -/
theorem of_conclude {n totalBytes : Nat} {payload terminator : List UInt8} {capture : CaptureFile}
    (h : conclude strings n payload terminator = .accept totalBytes capture) :
    totalBytes = n ∧ ∃ termination, disposition terminator = some termination ∧
      CaptureFile.parse strings payload termination = .ok capture := by
  unfold conclude at h
  split at h
  · cases h
  next termination hterm =>
  split at h
  · cases h
  next file hparse =>
  cases h
  exact ⟨rfl, termination, hterm, hparse⟩

theorem length_of_accept {totalBytes : Nat} {capture : CaptureFile}
    (h : examine strings resolveSchema buffer = .accept totalBytes capture) :
    payloadOff + totalBytes + 4 ≤ buffer.length := by
  unfold examine at h
  dsimp only at h
  split at h
  · cases h
  split at h
  · cases h
  split at h
  · cases h
  next hlength =>
  rw [(of_conclude h).1]
  exact Nat.le_of_not_lt hlength

/-- **More bytes only end a wait.** -/
theorem examine_append (h : examine strings resolveSchema buffer ≠ .wait) (more : List UInt8) :
    examine strings resolveSchema (buffer ++ more) = examine strings resolveSchema buffer := by
  have hlen : buffer.length ≤ (buffer ++ more).length := by
    rw [length_append]
    omega
  unfold examine at h ⊢
  dsimp only at h ⊢
  by_cases hmeta : payloadOff > buffer.length
  · rw [if_pos hmeta] at h
    exact absurd rfl h
  have hmetaBlock : (buffer ++ more).window metaOff sessionMetaSize =
      buffer.window metaOff sessionMetaSize :=
    window_append_left (Nat.le_of_not_lt hmeta) more
  rw [if_neg hmeta] at h ⊢
  rw [if_neg (by omega : ¬ payloadOff > (buffer ++ more).length), hmetaBlock]
  generalize buffer.window metaOff sessionMetaSize = metaBlock at h ⊢
  by_cases hplausible : ¬ plausibleMeta strings resolveSchema metaBlock
  · rw [if_pos hplausible, if_pos hplausible]
  rw [if_neg hplausible] at h
  generalize (int32 (metaBlock.window 4 4)).toNat = totalBytes at h ⊢
  by_cases hend : payloadOff + totalBytes + 4 > buffer.length
  · rw [if_pos hend] at h
    exact absurd rfl h
  · rw [if_neg hend, if_neg (by omega : ¬ payloadOff + totalBytes + 4 > (buffer ++ more).length),
      window_append_left (by omega) more, window_append_left (by omega) more]

/-! ### The loop -/

theorem tryScanFrom_of_indexOf {hit : Nat} (h : btcs.indexOf rest = some hit) :
    tryScanFrom strings resolveSchema start rest =
      match examine strings resolveSchema (rest.drop hit) with
      | .wait => none
      | .reject => tryScanFrom strings resolveSchema (start + hit + 1) (rest.drop (hit + 1))
      | .accept totalBytes capture =>
        some ⟨start + hit, start + hit + payloadOff + totalBytes + 4, capture⟩ := by
  rw [tryScanFrom]
  split
  · next heq => cases heq.symm.trans h
  · next heq =>
    cases heq.symm.trans h
    rfl

theorem tryScanFrom_of_none (h : btcs.indexOf rest = none) :
    tryScanFrom strings resolveSchema start rest = none := by
  rw [tryScanFrom]
  split
  · rfl
  · next heq => cases heq.symm.trans h

theorem end_le_of_tryScanFrom {scan : SessionScan}
    (h : tryScanFrom strings resolveSchema start rest = some scan) :
    start + 4 ≤ scan.endIndex ∧ scan.endIndex ≤ start + rest.length := by
  fun_induction tryScanFrom strings resolveSchema start rest with
  | case1 => cases h
  | case2 => cases h
  | case3 start rest hit hfound hverdict ih =>
    have hbound := ih h
    rw [length_drop] at hbound
    omega
  | case4 start rest hit hfound totalBytes capture hverdict =>
    cases h
    have hlength := length_of_accept hverdict
    rw [length_drop] at hlength
    dsimp only
    omega

/-- **What was found stays found** when more bytes come. -/
theorem tryScanFrom_append {scan : SessionScan}
    (h : tryScanFrom strings resolveSchema start rest = some scan) (more : List UInt8) :
    tryScanFrom strings resolveSchema start (rest ++ more) = some scan := by
  fun_induction tryScanFrom strings resolveSchema start rest with
  | case1 => cases h
  | case2 => cases h
  | case3 start rest hit hfound hverdict ih =>
    have hle := indexOf_add_length_le hfound (by decide)
    have hfour : btcs.length = 4 := rfl
    have hfinal := examine_append (by rw [hverdict]; exact nofun) more
    rw [tryScanFrom_of_indexOf (indexOf_append hfound (by decide) more),
      drop_append_of_le_length (by omega), hfinal, hverdict,
      drop_append_of_le_length (by omega)]
    exact ih h
  | case4 start rest hit hfound totalBytes capture hverdict =>
    have hle := indexOf_add_length_le hfound (by decide)
    have hfinal := examine_append (by rw [hverdict]; exact nofun) more
    rw [tryScanFrom_of_indexOf (indexOf_append hfound (by decide) more),
      drop_append_of_le_length (by omega), hfinal, hverdict]
    exact h

variable (strings resolveSchema)

/-- `TryScan` as a scanner of the rolling buffer. -/
def sessionScanner : Scanner UInt8 SessionScan where
  next buffer := (tryScan strings resolveSchema buffer).map fun scan => (scan.endIndex, some scan)
  progress := by
    intro l n e h
    obtain ⟨scan, hscan, heq⟩ := Option.map_eq_some_iff.mp h
    cases heq
    have hbound := end_le_of_tryScanFrom hscan
    omega
  stable := by
    intro l r h more
    obtain ⟨scan, hscan, rfl⟩ := Option.map_eq_some_iff.mp h
    rw [tryScan, tryScanFrom_append hscan]
    rfl

end Brickwright.CaptureViewer
