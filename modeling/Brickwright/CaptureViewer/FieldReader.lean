import Brickwright.CaptureViewer.CaptureFile

/-!
# Reading a capture (`host/CaptureViewer/src/CaptureViewer.Core/Capture/FieldReader.cs`)

`Records` and `ReadRawDouble` over a file that `Parse` has accepted. `Parse` compares a field with
the record, and not with its own type: `readable_iff` says which of the files can be read.
-/

namespace Brickwright.CaptureViewer

open Bytes CaptureProtocol
open List

inductive ReadException
  | argumentOutOfRange
  | indexOutOfRange
  | unsupportedFieldType (type : UInt8)
  deriving DecidableEq

/-- What a field is read as, before it becomes a `double`. -/
inductive RawValue
  | integer (value : Int)
  | single (bits : Nat)
  | double (bits : Nat)
  deriving DecidableEq

/-- One branch of `ReadRawDouble`: how many bytes it fetches, and what it throws at fewer. -/
structure Branch where
  width : Nat
  short : ReadException
  value : List UInt8 → RawValue

def unsigned (bytes : List UInt8) : RawValue := .integer (leNat bytes)

def signed (bytes : List UInt8) : RawValue :=
  .integer (Int.bmod (leNat bytes) (256 ^ bytes.length))

/-- The members of `FieldType`. -/
def branch (type : UInt8) : Option Branch :=
  match type.toNat with
  | 0 => some ⟨1, .indexOutOfRange, unsigned⟩
  | 1 => some ⟨1, .indexOutOfRange, signed⟩
  | 2 => some ⟨2, .argumentOutOfRange, unsigned⟩
  | 3 => some ⟨2, .argumentOutOfRange, signed⟩
  | 4 => some ⟨4, .argumentOutOfRange, unsigned⟩
  | 5 => some ⟨4, .argumentOutOfRange, signed⟩
  | 6 => some ⟨8, .argumentOutOfRange, unsigned⟩
  | 7 => some ⟨8, .argumentOutOfRange, signed⟩
  | 8 => some ⟨4, .argumentOutOfRange, fun bytes => .single (leNat bytes)⟩
  | 9 => some ⟨8, .argumentOutOfRange, fun bytes => .double (leNat bytes)⟩
  | _ => none

def readRawDouble (record : List UInt8) (field : FieldDescriptor) : Except ReadException RawValue :=
  if field.offset + field.size > record.length then .error .argumentOutOfRange
  else
    let slice := record.window field.offset field.size
    match branch field.type with
    | none => .error (.unsupportedFieldType field.type)
    | some b =>
      if slice.length < b.width then .error b.short else .ok (b.value (slice.take b.width))

namespace CaptureFile

def recordsOffset (file : CaptureFile) : Nat :=
  fileHeaderSize + file.fields.length * fieldDescriptorSize

/-- `Records`, in 32-bit arithmetic. -/
def records (file : CaptureFile) (index : Nat) : Except ReadException (List UInt8) :=
  if index ≥ file.recordCount then .error .argumentOutOfRange
  else
    let off := Int.bmod (file.recordsOffset + index * file.recordSize) (2 ^ 32)
    if off < 0 ∨ off + file.recordSize > file.payload.length then .error .argumentOutOfRange
    else .ok (file.payload.window off.toNat file.recordSize.toNat)

def recordAt (file : CaptureFile) (index : Nat) : List UInt8 :=
  file.payload.window (file.recordsOffset + index * file.recordSize.toNat) file.recordSize.toNat

/-- Every field of every record is read, and from this record. -/
def Readable (file : CaptureFile) : Prop :=
  ∀ index : Nat, index < file.recordCount → file.records index = .ok (file.recordAt index) ∧
    (file.recordAt index).length = file.recordSize ∧
    ∀ field ∈ file.fields, ∃ value, readRawDouble (file.recordAt index) field = .ok value

/-- The type is known, and the size is enough for it. -/
def Consistent (field : FieldDescriptor) : Prop :=
  ∃ b, branch field.type = some b ∧ b.width ≤ field.size

theorem readRawDouble_ok_iff {record : List UInt8} {field : FieldDescriptor}
    (hinside : field.offset + field.size ≤ record.length) :
    (∃ value, readRawDouble record field = .ok value) ↔ Consistent field := by
  rw [readRawDouble, if_neg (Nat.not_lt_of_le hinside), Consistent]
  dsimp only
  rw [length_window hinside]
  cases branch field.type with
  | none => simp
  | some b =>
    by_cases hshort : field.size < b.width
    · simp [hshort]
    · simp [hshort, Nat.le_of_not_lt hshort]

variable {strings : Strings} {bytes : List UInt8} {termination : CaptureTermination}
  {file : CaptureFile}

theorem records_of_lt (hw : WellFormed bytes termination file) (hspan : bytes.length < 2 ^ 31)
    {index : Nat} (hindex : index < file.recordCount) :
    file.records index = .ok (file.recordAt index) ∧
      (file.recordAt index).length = file.recordSize := by
  obtain ⟨size, hsize⟩ := Int.eq_ofNat_of_zero_le (Int.le_of_lt hw.recordSize.1)
  obtain ⟨count, hcount⟩ := Int.eq_ofNat_of_zero_le hw.recordCount
  have hmul : (index + 1) * size ≤ count * size := Nat.mul_le_mul_right size (by omega)
  rw [Nat.add_mul, Nat.one_mul] at hmul
  have htotal : file.size = ((file.recordsOffset + count * size : Nat) : Int) := by
    rw [CaptureFile.size, sizeOf, recordsOffset, hsize, hcount, Int.mul_comm (size : Int)]
    push_cast
    rfl
  have hle := hw.size_le
  rw [htotal] at hle
  have hpayload : file.payload.length = file.recordsOffset + count * size := by
    rw [hw.payload, length_take, htotal, Int.toNat_natCast]
    omega
  have hinside : file.recordsOffset + index * size + size ≤ file.payload.length := by omega
  have hoff : Int.bmod (file.recordsOffset + index * file.recordSize) (2 ^ 32) =
      ((file.recordsOffset + index * size : Nat) : Int) := by
    rw [hsize, ← Int.natCast_mul, ← Int.natCast_add]
    apply Int.bmod_eq_of_le <;> omega
  constructor
  · rw [records, if_neg (Int.not_le.mpr hindex)]
    rw [hoff, if_neg (by omega), recordAt, hsize, Int.toNat_natCast, Int.toNat_natCast]
  · rw [recordAt, hsize, Int.toNat_natCast, length_window hinside]

/-- **When an accepted file can be read.** -/
theorem readable_iff (h : parse strings bytes termination = .ok file)
    (hspan : bytes.length < 2 ^ 31) :
    file.Readable ↔ (0 < file.recordCount → ∀ field ∈ file.fields, Consistent field) := by
  have hw := wellFormed_of_parse h
  have hfield : ∀ {index : Nat}, index < file.recordCount → ∀ {field}, field ∈ file.fields →
      ((∃ value, readRawDouble (file.recordAt index) field = .ok value) ↔ Consistent field) := by
    intro index hindex field hfield
    have hlength := (records_of_lt hw hspan hindex).2
    have hinside := hw.inside field hfield
    exact readRawDouble_ok_iff (by omega)
  constructor
  · intro hread hpos field hmem
    have hzero : ((0 : Nat) : Int) < file.recordCount := hpos
    obtain ⟨-, -, hall⟩ := hread 0 hzero
    exact (hfield hzero hmem).mp (hall field hmem)
  · intro hall index hindex
    obtain ⟨hrecord, hlength⟩ := records_of_lt hw hspan hindex
    refine ⟨hrecord, hlength, fun field hmem => (hfield hindex hmem).mpr ?_⟩
    exact hall (by omega) field hmem

/-- The string library does not matter here. -/
def bare : Strings := ⟨fun _ => [], fun _ => true⟩

/-- A file of one record with one field at its start. -/
def oneField (type size : UInt8) : List UInt8 :=
  [0x43, 0x41, 0x50, 0x42, 1, 0] ++ List.replicate 10 0 ++ [4, 0, 0, 0, 1, 0, 0, 0] ++
    List.replicate 32 0 ++ [1] ++ List.replicate 23 0 ++ [type, 0, size] ++ List.replicate 29 0 ++
    [1, 2, 3, 4]

def oneFieldFile (type size : UInt8) : CaptureFile :=
  ⟨fileMagic, fileVersion, 0, 0, 4, 1, [], [⟨[], type, 0, size.toNat, 0, []⟩], oneField type size,
    .unknown⟩

theorem readable_iff_word : (oneFieldFile 4 4).Readable ↔
    (0 < (oneFieldFile 4 4).recordCount → ∀ field ∈ (oneFieldFile 4 4).fields, Consistent field) :=
  @readable_iff bare (oneField 4 4) .unknown _ (by decide +kernel) (by decide)

/-- A word of one byte. -/
theorem not_readable : ¬ ∀ strings bytes termination file, bytes.length < 2 ^ 31 →
    parse strings bytes termination = .ok file → file.Readable := by
  intro h
  obtain ⟨-, -, hall⟩ := h bare (oneField 4 1) .unknown (oneFieldFile 4 1) (by decide)
    (by decide +kernel) 0 (by decide)
  obtain ⟨value, hvalue⟩ := hall _ mem_cons_self
  have hthrows : readRawDouble ((oneFieldFile 4 1).recordAt 0) ⟨[], 4, 0, 1, 0, []⟩ =
      .error .argumentOutOfRange := by decide +kernel
  cases hthrows.symm.trans hvalue

end CaptureFile

end Brickwright.CaptureViewer
