import Brickwright.CaptureViewer.Live
import Brickwright.Text.Decimal

/-!
# Saving a capture (`host/CaptureViewer/src/CaptureViewer.Core/Live/CaptureFileWriter.cs`)

`Save` names a file after the schema in the header of the payload, and the scanner has checked the
schema in the meta block of the session. `save_spec` says what becomes of any name.
-/

namespace Brickwright.CaptureViewer

open Bytes CaptureProtocol Decimal
open List

abbrev Path := List UInt16

inductive Platform
  | unix
  | windows
  deriving DecidableEq

namespace Platform

variable (p : Platform)

/-- `Path.DirectorySeparatorChar`. -/
def separator : UInt16 :=
  match p with
  | .unix => 0x2f
  | .windows => 0x5c

def isSeparator (c : UInt16) : Bool := c == 0x2f || (p == .windows && c == 0x5c)

def isDriveLetter (c : UInt16) : Bool := (0x41 ≤ c && c ≤ 0x5a) || (0x61 ≤ c && c ≤ 0x7a)

/-- `Path.IsPathRooted`. -/
def isPathRooted : Path → Bool
  | [] => false
  | [c] => p.isSeparator c
  | c :: d :: _ => p.isSeparator c || (p == .windows && isDriveLetter c && d == 0x3a)

def opened (dir : Path) : Path :=
  if dir.getLast?.any p.isSeparator then dir else dir ++ [p.separator]

/-- `Path.Combine`. -/
def combine (first second : Path) : Path :=
  if second = [] then first
  else if first = [] then second
  else if p.isPathRooted second then second
  else p.opened first ++ second

end Platform

def underscore : UInt16 := 0x5f

def extension : Path := [0x2e, 0x63, 0x61, 0x70]

/-- A number in the format `D2`. -/
def d2 (n : Nat) : List UInt8 := if n < 10 then 48 :: decimal n else decimal n

/-- What the name of the `i`-th attempt has behind the schema. -/
def attempt (capture : CaptureFile) (i : Nat) : Path :=
  underscore :: ((decimal capture.startTimestampUs).map UInt8.toUInt16 ++
    ((if i = 0 then [] else underscore :: (d2 i).map UInt8.toUInt16) ++ extension))

def fileName (capture : CaptureFile) (i : Nat) : Path := capture.schemaName ++ attempt capture i

/-- The loop of `Save`, over the files that exist. -/
def firstFree (files : List Path) (path : Nat → Path) : Nat → Nat → Option Path
  | 0, _ => none
  | fuel + 1, i =>
    if path i ∈ files then firstFree files path fuel (i + 1) else some (path i)

/-- `Save`: the path that is written. It has one attempt more than there are files. -/
def save (p : Platform) (dir : Path) (files : List Path) (capture : CaptureFile) : Option Path :=
  firstFree files (fun i => p.combine dir (fileName capture i)) (files.length + 1) 0

/-! ## The path -/

/-- The directory, a separator, and one name. -/
def ImmediateChild (p : Platform) (dir path : Path) : Prop :=
  ∃ name, (∀ c ∈ name, p.isSeparator c = false) ∧ name ∉ [[], [0x2e], [0x2e, 0x2e]] ∧
    path = p.opened dir ++ name

/-- The name has no separator and no drive, or it is in the directory as it is. -/
def Harmless (p : Platform) (dir schemaName : Path) : Prop :=
  if p.isPathRooted schemaName then
    ∃ rest, (∀ c ∈ rest, p.isSeparator c = false) ∧ schemaName = p.opened dir ++ rest
  else ∀ c ∈ schemaName, p.isSeparator c = false

section Names

variable {p : Platform} {dir : Path} {capture : CaptureFile}

theorem isSeparator_separator : p.isSeparator p.separator = true := by cases p <;> rfl

theorem exists_opened (hdir : dir ≠ []) :
    ∃ l c, p.opened dir = l ++ [c] ∧ p.isSeparator c = true := by
  unfold Platform.opened
  split
  · next hlast =>
    obtain ⟨c, hc, hsep⟩ := (Option.any_eq_true ..).mp hlast
    obtain ⟨l, rfl⟩ := List.getLast?_eq_some_iff.mp hc
    exact ⟨l, c, rfl, hsep⟩
  · exact ⟨dir, _, rfl, isSeparator_separator⟩

theorem not_separator_digit {b : UInt8} (h : IsDigit b) : p.isSeparator b.toUInt16 = false := by
  have hne : ∀ c : UInt16, ¬IsDigit c.toUInt8 → b.toUInt16 ≠ c := by
    rintro c hc rfl
    rw [UInt8.toUInt8_toUInt16] at hc
    exact hc h
  have hslash := hne 0x2f (by decide)
  have hback := hne 0x5c (by decide)
  simp [Platform.isSeparator, hslash, hback]

theorem isDigit_d2 {n : Nat} {b : UInt8} (h : b ∈ d2 n) : IsDigit b := by
  unfold d2 at h
  split at h
  · rcases mem_cons.mp h with rfl | h
    · decide
    · exact isDigit_of_mem_decimal h
  · exact isDigit_of_mem_decimal h

theorem not_separator_attempt (i : Nat) : ∀ c ∈ attempt capture i, p.isSeparator c = false := by
  have hmap : ∀ {l : List UInt8}, (∀ b ∈ l, IsDigit b) →
      ∀ c ∈ l.map UInt8.toUInt16, p.isSeparator c = false := by
    intro l hl c hc
    obtain ⟨b, hb, rfl⟩ := mem_map.mp hc
    exact not_separator_digit (hl b hb)
  have hunderscore : p.isSeparator underscore = false := by cases p <;> decide
  have hall : (extension.all fun c => !p.isSeparator c) = true := by cases p <;> decide
  have hextension : ∀ c ∈ extension, p.isSeparator c = false := fun c hc => by
    simpa using all_eq_true.mp hall c hc
  intro c hc
  rcases mem_cons.mp hc with rfl | hc
  · exact hunderscore
  rcases mem_append.mp hc with hc | hc
  · exact hmap (fun b => isDigit_of_mem_decimal) c hc
  rcases mem_append.mp hc with hc | hc
  · split at hc
    · exact absurd hc not_mem_nil
    · rcases mem_cons.mp hc with rfl | hc
      · exact hunderscore
      · exact hmap (fun b => isDigit_d2) c hc
  · exact hextension c hc

theorem rooted_fileName (i : Nat) :
    p.isPathRooted (fileName capture i) = p.isPathRooted capture.schemaName := by
  unfold fileName attempt
  rcases capture.schemaName with _ | ⟨c, _ | ⟨d, rest⟩⟩
  · generalize List.map UInt8.toUInt16 _ ++ _ = l
    cases l <;> cases p <;> rfl
  · cases p <;> simp [Platform.isPathRooted, underscore]
  · rfl

theorem combine_fileName (hdir : dir ≠ []) (i : Nat) : p.combine dir (fileName capture i) =
    if p.isPathRooted capture.schemaName then fileName capture i
    else p.opened dir ++ fileName capture i := by
  have hne : fileName capture i ≠ [] := by simp [fileName, attempt]
  rw [Platform.combine, if_neg hne, if_neg hdir, rooted_fileName]

/-- **Where the path of an attempt leads.** -/
theorem immediateChild_iff (hdir : dir ≠ []) (i : Nat) :
    ImmediateChild p dir (p.combine dir (fileName capture i)) ↔
      Harmless p dir capture.schemaName := by
  have hattempt : ∀ {rest : Path}, (∀ c ∈ rest, p.isSeparator c = false) →
      (∀ c ∈ rest ++ attempt capture i, p.isSeparator c = false) ∧
        rest ++ attempt capture i ∉ [[], [0x2e], [0x2e, 0x2e]] := by
    intro rest hrest
    refine ⟨fun c hc => (mem_append.mp hc).elim (hrest c) (not_separator_attempt i c), ?_⟩
    intro hmem
    have hshort : (rest ++ attempt capture i).length ≤ 2 := by
      rcases mem_cons.mp hmem with h | hmem
      · rw [h]
        decide
      rcases mem_cons.mp hmem with h | hmem
      · rw [h]
        decide
      · rw [mem_singleton.mp hmem]
        decide
    simp [attempt, extension] at hshort
    omega
  rw [combine_fileName hdir, Harmless]
  split
  · constructor
    · rintro ⟨name, hname, -, heq⟩
      rcases append_eq_append_iff.mp heq with ⟨l, hl, htail⟩ | ⟨l, hl, rfl⟩
      · rcases eq_nil_or_concat l with rfl | ⟨l, c, rfl⟩
        · exact ⟨[], nofun, by rw [hl, append_nil, append_nil]⟩
        · obtain ⟨l', c', hopened, hsep⟩ := exists_opened (p := p) hdir
          rw [hl, concat_eq_append, ← append_assoc] at hopened
          obtain ⟨-, hc⟩ := append_inj' hopened rfl
          cases hc
          have hplain := (@not_separator_attempt p capture) i c (by simp [htail])
          exact absurd (hplain.symm.trans hsep) Bool.false_ne_true
      · exact ⟨l, fun c hc => hname c (mem_append_left _ hc), hl⟩
    · rintro ⟨rest, hrest, hschema⟩
      obtain ⟨hplain, hname⟩ := hattempt hrest
      exact ⟨_, hplain, hname, by rw [fileName, hschema, append_assoc]⟩
  · constructor
    · rintro ⟨name, hname, -, heq⟩ c hc
      rw [← append_cancel_left heq] at hname
      exact hname c (mem_append_left _ hc)
    · intro hschema
      obtain ⟨hplain, hname⟩ := hattempt hschema
      exact ⟨_, hplain, hname, rfl⟩

theorem value_d2 (n : Nat) : value 0 (d2 n) = n := by
  unfold d2
  split
  · rw [value_cons]
    exact value_decimal n
  · exact value_decimal n

theorem fileName_inj {i j : Nat} (h : fileName capture i = fileName capture j) : i = j := by
  have hrest := append_cancel_right (append_cancel_left (List.cons.inj
    (append_cancel_left h)).2)
  split at hrest
  · next hi =>
    split at hrest
    · next hj => exact hi.trans hj.symm
    · cases hrest
  · split at hrest
    · cases hrest
    · have hinj := Function.LeftInverse.injective UInt8.toUInt8_toUInt16
      have hd2 := map_injective_iff.mpr hinj (List.cons.inj hrest).2
      rw [← value_d2 i, hd2, value_d2]

theorem combine_inj (hdir : dir ≠ []) {i j : Nat}
    (h : p.combine dir (fileName capture i) = p.combine dir (fileName capture j)) : i = j := by
  rw [combine_fileName hdir, combine_fileName hdir] at h
  split at h
  · exact fileName_inj h
  · exact fileName_inj (append_cancel_left h)

theorem firstFree_spec {files : List Path} {path : Nat → Path} {fuel i : Nat}
    (h : ∃ k < fuel, path (i + k) ∉ files) :
    ∃ j, firstFree files path fuel i = some (path j) ∧ path j ∉ files := by
  induction fuel generalizing i with
  | zero => exact absurd h (by simp)
  | succ fuel ih =>
    obtain ⟨k, hk, hfree⟩ := h
    by_cases htaken : path i ∈ files
    · rw [firstFree, if_pos htaken]
      cases k with
      | zero => exact absurd htaken hfree
      | succ k => exact ih ⟨k, Nat.lt_of_succ_lt_succ hk, by rwa [Nat.add_assoc, Nat.add_comm 1]⟩
    · exact ⟨i, by rw [firstFree, if_neg htaken], htaken⟩

/-- One of more attempts than there are files is free. -/
theorem exists_free (hdir : dir ≠ []) (files : List Path) :
    ∃ k < files.length + 1, p.combine dir (fileName capture (0 + k)) ∉ files := by
  by_contra hnot
  push Not at hnot
  have hnodup : ((List.range (files.length + 1)).map fun k =>
      p.combine dir (fileName capture (0 + k))).Nodup :=
    nodup_range.map fun i j h => Nat.add_left_cancel (combine_inj hdir h)
  have hsubset : ((List.range (files.length + 1)).map fun k =>
      p.combine dir (fileName capture (0 + k))) ⊆ files := by
    intro path hpath
    obtain ⟨k, hk, rfl⟩ := mem_map.mp hpath
    exact hnot k (mem_range.mp hk)
  have hle := (hnodup.subperm hsubset).length_le
  rw [length_map, length_range] at hle
  omega

/-- **Where a capture is written.** -/
theorem save_spec (hdir : dir ≠ []) (files : List Path) (capture : CaptureFile) :
    ∃ path, save p dir files capture = some path ∧ path ∉ files ∧
      (ImmediateChild p dir path ↔ Harmless p dir capture.schemaName) := by
  obtain ⟨i, hsave, hfree⟩ := @firstFree_spec files
    (fun i => p.combine dir (fileName capture i)) _ 0 (exists_free hdir files)
  exact ⟨_, hsave, hfree, immediateChild_iff hdir i⟩

end Names

def out : Path := [0x6f, 0x75, 0x74]

theorem save_spec_lap : ∃ path, save .unix out [] lapCapture = some path ∧ path ∉ [] ∧
    (ImmediateChild .unix out path ↔ Harmless .unix out lapCapture.schemaName) :=
  save_spec (by decide) [] lapCapture

/-- A session that is called `lap`, with a payload that is called `../lap`. -/
def strayPayload : List UInt8 :=
  lapPayload.take 24 ++ [0x2e, 0x2e, 0x2f, 0x6c, 0x61, 0x70] ++ List.replicate 26 0 ++
    lapPayload.drop 56

def strayCapture : CaptureFile :=
  { lapCapture with schemaName := [0x2e, 0x2e, 0x2f, 0x6c, 0x61, 0x70], payload := strayPayload }

theorem not_saved_inside : ¬ ∀ strings resolveSchema buffer scan p dir files,
    tryScan strings resolveSchema buffer = some scan → dir ≠ [] →
    ∃ path, save p dir files scan.capture = some path ∧ path ∉ files ∧
      ImmediateChild p dir path := by
  intro h
  have hverdict : examine ascii none (btcs ++ lap.metaBlock ++ strayPayload ++ btce) =
      .accept 116 strayCapture := by decide +kernel
  have hscan : tryScan ascii none (btcs ++ lap.metaBlock ++ strayPayload ++ btce) =
      some ⟨0, 164, strayCapture⟩ := by
    rw [tryScan, tryScanFrom_of_indexOf (show btcs.indexOf _ = some 0 by decide +kernel),
      drop_zero, hverdict]
    rfl
  obtain ⟨path, hsave, -, hchild⟩ := h _ _ _ _ .unix out [] hscan (by decide)
  cases hsave
  have hplain := (immediateChild_iff (by decide) 0).mp hchild
  exact absurd (hplain 0x2f (by decide)) (by decide)

end Brickwright.CaptureViewer
