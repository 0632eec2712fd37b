import Brickwright.HubProgram.Upload.Basic
import Brickwright.Machine.Asking

/-!
# Program storage (`apps/hubprogram/storage.c`)

A committed program is saved as one record in a file: a header, the rows or the source text, and a
checksum over both. Saving writes a temporary file and renames it over the old record; restoring
reads the file, checks everything and only then touches the program.

The file system answers each call. `read` and `write` move as many bytes as the answer says, never
more than asked for, and a `read` returns nothing only at the end of the file; `rename` puts the
temporary file in the place of the record. A list of answers that ends too early leaves the function
waiting in its call.
-/

namespace Brickwright.HubProgram

def ENOENT : Int := 2
def EINTR : Int := 4
def EIO : Int := 5
def ENOMEM : Int := 12

/-- A value of `errno` after a failed call. -/
abbrev Errno := { e : Int // 0 < e }

/-! ## OnFile and writing -/

/-- What one call of `read` or `write` does. -/
inductive Transferred where
  | failed (e : Errno)
  | moved (k : Nat)

/-- The error a failed call ends the transfer with; an interrupted one is made again. -/
def Transferred.fatal : Transferred → Option Int
  | .failed e => if e.1 = EINTR then none else some (-e.1)
  | .moved _ => none

def Transferred.counts : Transferred → Bool
  | .failed e => e.1 ≠ EINTR
  | .moved _ => true

theorem Transferred.countP_failed {e : Errno} (heintr : e.1 = EINTR) {rs : List Transferred} :
    (.failed e :: rs).countP counts = rs.countP counts :=
  List.countP_cons_of_neg (by simp [counts, heintr])

/-- `transfer` to a file; the state is what the file holds. -/
def writeMore : List Transferred → List UInt8 → List UInt8 →
    Option (Except Int (Unit × List Transferred × List UInt8))
  | rs, [], file => some (.ok ((), rs, file))
  | [], _ :: _, _ => none
  | .failed e :: rs, b :: bs, file =>
    if e.1 = EINTR then writeMore rs (b :: bs) file else some (.error (-e.1))
  | .moved 0 :: _, _ :: _, _ => some (.error (- EIO))
  | .moved (k + 1) :: rs, b :: bs, file => writeMore rs (bs.drop k) (file ++ b :: bs.take k)

/-- `transfer` from a file, with the bytes read so far; the state is what the file still holds. -/
def readMore : List Transferred → Nat → List UInt8 → List UInt8 →
    Option (Except Int (List UInt8 × List Transferred × List UInt8))
  | rs, 0, got, file => some (.ok (got, rs, file))
  | [], _ + 1, _, _ => none
  | .failed e :: rs, n + 1, got, file =>
    if e.1 = EINTR then readMore rs (n + 1) got file else some (.error (-e.1))
  | .moved _ :: _, _ + 1, _, [] => some (.error (-EBADMSG))
  | .moved k :: rs, n + 1, got, b :: file =>
    let more := min (k - 1) n
    readMore rs (n - (file.take more).length) (got ++ b :: file.take more) (file.drop more)

/-- A computation on a file: the one being written, or the rest of the one being read. -/
abbrev OnFile := Asking Transferred (List UInt8) Int

def writeAll (bytes : List UInt8) : OnFile Unit := fun rs file => writeMore rs bytes file

def readAll (n : Nat) : OnFile (List UInt8) := fun rs file => readMore rs n [] file

/-- The `read` behind the record: whether the file goes on. -/
def readExtra : OnFile Bool
  | [], _ => none
  | .failed e :: rs, file => if e.1 = EINTR then readExtra rs file else some (.error (-e.1))
  | .moved _ :: rs, file => some (.ok (!file.isEmpty, rs, file.drop 1))

/-! ## The record -/

def headerLen : Nat := 20

/-- `"BWP1"`. -/
def magic : List UInt8 := [0x42, 0x57, 0x50, 0x31]

def storedRow (r : Instruction) : List UInt8 :=
  put32 (toUnsigned r.op) ++ put32 (toUnsigned r.a) ++ put32 (toUnsigned r.b)
    ++ put32 (toUnsigned r.c)

def Program.bodyLen (p : Program) : Nat := if p.language ≠ 0 then p.count else p.count * 16

def Program.body (p : Program) : List UInt8 :=
  if p.language ≠ 0 then p.source.take p.count else (p.code.take p.count).flatMap storedRow

def Program.header (p : Program) (id : Nat) : List UInt8 :=
  magic ++ [1, UInt8.ofNat p.language, 0, 0] ++ put32 id ++ put32 p.count ++ put32 p.bodyLen

/-- The file `bw_program_save` writes. -/
def Program.image (p : Program) (id : Nat) : List UInt8 :=
  p.header id ++ p.body ++ put32 (crc32 (p.header id ++ p.body)).toNat

/-! ## Saving -/

structure SaveIo where
  alloc : Bool
  openError : Option Errno
  writes : List Transferred
  fsyncError : Option Errno
  closeError : Option Errno
  renameError : Option Errno

/-- The record and the temporary file beside it. -/
structure Files where
  path : Option (List UInt8)
  tmp : Option (List UInt8)

/-- The return code after one more call, which may fail; an earlier error stays. -/
def afterCall (rc : Int) (error : Option Errno) : Int :=
  match error with
  | none => rc
  | some e => if rc = 0 then -e.1 else rc

/-- What `bw_program_save` refuses of the stored program. -/
def Program.saveRefuses (p : Program) : Bool :=
  if p.language ≠ 0 then
    decide (p.count = 0 ∨ p.count > 4095 ∨ 0 ∈ p.source.take p.count)
  else decide (p.count > programLimit ∨ validate (some (p.code.take p.count)) < 0)

/-- `bw_program_save`. -/
def save (p : Program) (id : UInt32) (io : SaveIo) (fs : Files) : Option (Int × Files) :=
  if p.state = .running then some (-EBUSY, fs)
  else if id = 0 ∨ p.id ≠ id.toNat ∨ p.state = .empty ∨ p.language > 1 then some (-EINVAL, fs)
  else if p.saveRefuses then some (-EINVAL, fs)
  else if io.alloc = false then some (-ENOMEM, fs)
  else
    match io.openError with
    | some e => some (-e.1, { fs with tmp := none })
    | none =>
      match writeAll (p.image id.toNat) io.writes [] with
      | none => none
      | some (.error rc) => some (rc, { fs with tmp := none })
      | some (.ok (_, _, written)) =>
        let rc := afterCall (afterCall (afterCall 0 io.fsyncError) io.closeError) io.renameError
        if rc = 0 then some (0, ⟨some written, none⟩) else some (rc, { fs with tmp := none })

/-! ## Restoring -/

/-- What the checks of a restore let through. -/
structure Record where
  language : Nat
  count : Nat
  body : List UInt8

def headerBad (header : List UInt8) (count n : Nat) : Bool :=
  decide (header.take 4 ≠ magic ∨ byteAt header 4 ≠ 1 ∨ byteAt header 5 > 1 ∨
    byteAt header 6 ≠ 0 ∨ byteAt header 7 ≠ 0 ∨ count = 0 ∨
    if byteAt header 5 ≠ 0 then count > 4095 ∨ n ≠ count
    else count > programLimit ∨ n ≠ count * 16)

/-- The rows of a record, decoded in place. -/
def Record.rows (r : Record) : List Instruction := codeView (decodeRows r.count r.body) r.count

/-- The test of the contents: a text without `NUL`, or valid rows. -/
def Record.bad (r : Record) : Bool :=
  if r.language ≠ 0 then decide (0 ∈ r.body) else decide (validate (some r.rows) ≠ 0)

/-- The part of `bw_program_restore` between its `open` and its `close`. -/
def readRecord (id : UInt32) : OnFile Record := do
  let header ← readAll headerLen
  let count := get32 (header.drop 12)
  let n := get32 (header.drop 16)
  if headerBad header count n then Asking.fail (-EBADMSG)
  else
    let rest ← readAll (n + 4)
    let extra ← readExtra
    let r : Record := ⟨byteAt header 5, count, rest.take n⟩
    if extra ∨ get32 (rest.drop n) ≠ (crc32 (header ++ rest.take n)).toNat then
      Asking.fail (-EBADMSG)
    else if get32 (header.drop 8) ≠ id.toNat then Asking.fail (-ENOENT)
    else if r.bad then Asking.fail (-EBADMSG)
    else pure r

structure RestoreIo where
  alloc : Bool
  openError : Option Errno
  reads : List Transferred
  closeError : Option Errno

/-- The end of `bw_program_restore`; the Python branch sets what a commit of the text sets. -/
def install (p : Program) (id : UInt32) (r : Record) : Int × Program :=
  if r.language ≠ 0 then (0, commitSource p id.toNat r.body) else load p id.toNat (some r.rows)

/-- `bw_program_restore` of a file. -/
def restore (p : Program) (id : UInt32) (io : RestoreIo) (file : List UInt8) :
    Option (Int × Program) :=
  if p.state = .running then some (-EBUSY, p)
  else if id = 0 then some (-EINVAL, p)
  else if io.alloc = false then some (-ENOMEM, p)
  else
    match io.openError with
    | some e => some (-e.1, p)
    | none =>
      match readRecord id io.reads file with
      | none => none
      | some (.error rc) => some (afterCall rc io.closeError, p)
      | some (.ok (r, _, _)) =>
        let rc := afterCall 0 io.closeError
        if rc = 0 then some (install p id r) else some (rc, p)

/-!
## What a transfer moves

`transfer` loops over short reads and writes. However the bytes are split, a read that ends well
returns the next `n` bytes of the file and a write that ends well appends all of them; an error is
the error of a call or the end of the file, and every call that is not made again moves something or
ends the transfer.
-/

open Asking
open List

variable {n : Nat} {got bytes file file' : List UInt8} {rs rs' : List Transferred}

-- the cases of the code, derived once for all the lemmas that follow
attribute [elab_as_elim] readMore.induct_unfolding readExtra.induct_unfolding
  writeMore.induct_unfolding

/-! ### Reading -/

/-- **A read that ends well** got the next `n` bytes. -/
theorem readMore_ok (h : readMore rs n got file = some (.ok (bytes, rs', file'))) :
    n ≤ file.length ∧ bytes = got ++ file.take n ∧ file' = file.drop n := by
  fun_induction readMore rs n got file with
  | case1 =>
    cases h
    simp
  | case2 => cases h
  | case3 _ _ _ _ _ _ ih => exact ih h
  | case4 => cases h
  | case5 => cases h
  | case6 k rs n got b file more ih =>
    obtain ⟨hle, hbytes, hfile⟩ := ih h
    rw [length_drop, length_take] at hle
    -- The file is long enough for what this call moved, so the call moved it.
    have hlen : (file.take more).length = more := by
      rw [length_take]
      omega
    have hn : more + (n - more) = n := by omega
    rw [hlen] at hbytes hfile
    refine ⟨?_, ?_, ?_⟩
    · rw [length_cons]
      omega
    · rw [hbytes, take_succ_cons, append_assoc, cons_append, ← take_add, hn]
    · rw [hfile, drop_succ_cons, drop_drop, hn]

theorem readAll_ok (h : readAll n rs file = some (.ok (bytes, rs', file'))) :
    n ≤ file.length ∧ bytes = file.take n ∧ file' = file.drop n := by
  simpa using readMore_ok h

theorem readAll_errors : ErrorsIn (· < 0) (readAll n) := by
  intro rs file e h
  change readMore rs n [] file = _ at h
  generalize ([] : List UInt8) = got at h
  fun_induction readMore rs n got file with
  | case1 => cases h
  | case2 => cases h
  | case3 _ _ _ _ _ _ ih => exact ih h
  | case4 e' =>
    cases h
    exact Int.neg_neg_of_pos e'.2
  | case5 =>
    cases h
    decide
  | case6 _ _ _ _ _ _ _ ih => exact ih h

/-- Answers behind the last one that is needed change nothing, and a fatal one is told. -/
theorem readAll_attentive (n : Nat) : Attentive Transferred.fatal (readAll n) := by
  have hmore : ∀ rs n got file more, (∀ r, readMore rs n got file = some r →
      readMore (rs ++ more) n got file = some (r.map fun x => (x.1, x.2.1 ++ more, x.2.2))) := by
    intro rs n got file more
    fun_induction readMore rs n got file with
    | case1 => rintro r ⟨⟩; rw [readMore]; rfl
    | case2 => rintro r ⟨⟩
    | case3 e rs n got file heintr ih =>
      intro r hr
      rw [cons_append, readMore, if_pos heintr]
      exact ih r hr
    | case4 e rs n got file heintr =>
      rintro r ⟨⟩
      rw [cons_append, readMore, if_neg heintr]
      rfl
    | case5 => rintro r ⟨⟩; rfl
    | case6 k rs n got b file m ih =>
      intro r hr
      exact ih r hr
  have htold : ∀ rs n got file r e more, readMore rs n got file = none →
      Transferred.fatal r = some e →
      readMore (rs ++ r :: more) n got file = some (.error e) := by
    intro rs n got file r e more h hr
    fun_induction readMore rs n got file with
    | case1 => cases h
    | case2 =>
      cases r with
      | failed e' =>
        rw [Transferred.fatal] at hr
        rw [nil_append, readMore]
        split at hr
        · cases hr
        · next hne =>
          cases hr
          rw [if_neg hne]
      | moved k => cases hr
    | case3 e rs n got file heintr ih =>
      rw [cons_append, readMore, if_pos heintr]
      exact ih h
    | case4 => cases h
    | case5 => cases h
    | case6 k rs n got b file m ih =>
      exact ih h
  exact
    { more_ok := fun h more => hmore _ _ _ _ more _ h
      more_error := fun h more => hmore _ _ _ _ more _ h
      told := fun h hr more => htold _ _ _ _ _ _ more h hr }

theorem readAll_within (n : Nat) : Within Transferred.counts n (readAll n) := by
  have hwaits : ∀ rs n got file, readMore rs n got file = none →
      rs.countP Transferred.counts < n := by
    intro rs n got file h
    fun_induction readMore rs n got file with
    | case1 => cases h
    | case2 => exact Nat.succ_pos _
    | case3 e rs n got file heintr ih =>
      rw [Transferred.countP_failed heintr]
      exact ih h
    | case4 => cases h
    | case5 => cases h
    | case6 k rs n got b file m ih =>
      have := ih h
      rw [countP_cons, Transferred.counts, if_pos rfl]
      omega
  have hends : ∀ rs n got file a rs' s', readMore rs n got file = some (.ok (a, rs', s')) →
      rs.countP Transferred.counts ≤ rs'.countP Transferred.counts + n := by
    intro rs n got file a rs' s' h
    fun_induction readMore rs n got file with
    | case1 =>
      cases h
      exact Nat.le_refl _
    | case2 => cases h
    | case3 e rs n got file heintr ih =>
      rw [Transferred.countP_failed heintr]
      exact ih h
    | case4 => cases h
    | case5 => cases h
    | case6 k rs n got b file m ih =>
      have := ih h
      rw [countP_cons, Transferred.counts, if_pos rfl]
      omega
  exact { waits := hwaits _ _ _ _, ends := hends _ _ _ _ _ _ _ }

/-- With as many transfers as bytes that are wanted, and no error, all of them come. -/
theorem readAll_total (hcalm : ∀ r ∈ rs, r.fatal = none) (hfile : n ≤ file.length)
    (hrs : n ≤ rs.countP Transferred.counts) : ∃ rs', readAll n rs file =
      some (.ok (file.take n, rs', file.drop n)) ∧ (∀ r ∈ rs', r.fatal = none) ∧
      rs.countP Transferred.counts ≤ rs'.countP Transferred.counts + n := by
  have herror : ∀ e, readMore rs n [] file ≠ some (.error e) := by
    intro e h
    generalize ([] : List UInt8) = got at h
    clear hrs
    fun_induction readMore rs n got file with
    | case1 => cases h
    | case2 => cases h
    | case3 _ _ _ _ _ _ ih =>
      exact ih (fun r hr => hcalm r (mem_cons_of_mem _ hr)) hfile h
    | case4 e' _ _ _ _ hne =>
      have hfatal := hcalm _ mem_cons_self
      rw [Transferred.fatal, if_neg hne] at hfatal
      cases hfatal
    | case5 => cases hfile
    | case6 k rs n got b file m ih =>
      refine ih (fun r hr => hcalm r (mem_cons_of_mem _ hr)) ?_ h
      rw [length_cons] at hfile
      rw [length_drop, length_take]
      omega
  have hsuffix : ∀ a rs' s', readMore rs n [] file = some (.ok (a, rs', s')) →
      ∀ r ∈ rs', r ∈ rs := by
    intro a rs' s' h
    generalize ([] : List UInt8) = got at h
    clear hcalm hrs hfile herror
    fun_induction readMore rs n got file with
    | case1 =>
      cases h
      exact fun _ hr => hr
    | case2 => cases h
    | case3 _ _ _ _ _ _ ih => exact fun r hr => mem_cons_of_mem _ (ih h r hr)
    | case4 => cases h
    | case5 => cases h
    | case6 _ _ _ _ _ _ _ ih => exact fun r hr => mem_cons_of_mem _ (ih h r hr)
  cases h : readAll n rs file with
  | none =>
    have := (readAll_within n).waits h
    omega
  | some r =>
    cases r with
    | error e => exact absurd h (herror e)
    | ok r =>
      obtain ⟨bytes, rs', file'⟩ := r
      obtain ⟨-, rfl, rfl⟩ := readAll_ok h
      exact ⟨rs', rfl, fun r hr => hcalm r (hsuffix _ _ _ h r hr), (readAll_within n).ends h⟩

/-! ### The read behind the record -/

theorem readExtra_ok {extra : Bool} (h : readExtra rs file = some (.ok (extra, rs', file'))) :
    extra = !file.isEmpty := by
  fun_induction readExtra rs file with
  | case1 => cases h
  | case2 _ _ _ _ ih => exact ih h
  | case3 => cases h
  | case4 =>
    cases h
    rfl

theorem readExtra_errors : ErrorsIn (· < 0) readExtra := by
  intro rs file e h
  fun_induction readExtra rs file with
  | case1 => cases h
  | case2 _ _ _ _ ih => exact ih h
  | case3 e' =>
    cases h
    exact Int.neg_neg_of_pos e'.2
  | case4 => cases h

theorem readExtra_attentive : Attentive Transferred.fatal readExtra := by
  have hmore : ∀ rs file more, (∀ r, readExtra rs file = some r →
      readExtra (rs ++ more) file = some (r.map fun x => (x.1, x.2.1 ++ more, x.2.2))) := by
    intro rs file more
    fun_induction readExtra rs file with
    | case1 => rintro r ⟨⟩
    | case2 e rs file heintr ih =>
      intro r hr
      rw [cons_append, readExtra, if_pos heintr]
      exact ih r hr
    | case3 e rs file heintr =>
      rintro r ⟨⟩
      rw [cons_append, readExtra, if_neg heintr]
      rfl
    | case4 => rintro r ⟨⟩; rfl
  have htold : ∀ rs file r e more, readExtra rs file = none → Transferred.fatal r = some e →
      readExtra (rs ++ r :: more) file = some (.error e) := by
    intro rs file r e more h hr
    fun_induction readExtra rs file with
    | case1 =>
      cases r with
      | failed e' =>
        rw [Transferred.fatal] at hr
        rw [nil_append, readExtra]
        split at hr
        · cases hr
        · next hne =>
          cases hr
          rw [if_neg hne]
      | moved k => cases hr
    | case2 e rs file heintr ih =>
      rw [cons_append, readExtra, if_pos heintr]
      exact ih h
    | case3 => cases h
    | case4 => cases h
  exact
    { more_ok := fun h more => hmore _ _ more _ h
      more_error := fun h more => hmore _ _ more _ h
      told := fun h hr more => htold _ _ _ _ more h hr }

theorem readExtra_within : Within Transferred.counts 1 readExtra := by
  have hwaits : ∀ rs file, readExtra rs file = none → rs.countP Transferred.counts < 1 := by
    intro rs file h
    fun_induction readExtra rs file with
    | case1 => exact Nat.one_pos
    | case2 e rs file heintr ih =>
      rw [Transferred.countP_failed heintr]
      exact ih h
    | case3 => cases h
    | case4 => cases h
  have hends : ∀ rs file a rs' s', readExtra rs file = some (.ok (a, rs', s')) →
      rs.countP Transferred.counts ≤ rs'.countP Transferred.counts + 1 := by
    intro rs file a rs' s' h
    fun_induction readExtra rs file with
    | case1 => cases h
    | case2 e rs file heintr ih =>
      rw [Transferred.countP_failed heintr]
      exact ih h
    | case3 => cases h
    | case4 =>
      cases h
      rw [countP_cons, Transferred.counts, if_pos rfl]
  exact { waits := hwaits _ _, ends := hends _ _ _ _ _ }

theorem readExtra_total (hcalm : ∀ r ∈ rs, r.fatal = none)
    (hrs : 1 ≤ rs.countP Transferred.counts) :
    ∃ rs', readExtra rs [] = some (.ok (false, rs', [])) := by
  generalize hfile : ([] : List UInt8) = file
  fun_induction readExtra rs file with
  | case1 => cases hrs
  | case2 e rs file heintr ih =>
    have hcounts : Transferred.counts (.failed e) = false := by simp [Transferred.counts, heintr]
    rw [countP_cons, hcounts] at hrs
    exact ih (fun r hr => hcalm r (mem_cons_of_mem _ hr)) hrs hfile
  | case3 e rs file hne =>
    have hfatal := hcalm _ mem_cons_self
    rw [Transferred.fatal, if_neg hne] at hfatal
    cases hfatal
  | case4 k rs file =>
    subst hfile
    exact ⟨rs, rfl⟩

/-! ### Writing -/

/-- **A write that ends well** appended all bytes. -/
theorem writeMore_ok {u : Unit} (h : writeMore rs bytes file = some (.ok (u, rs', file'))) :
    file' = file ++ bytes := by
  fun_induction writeMore rs bytes file with
  | case1 =>
    cases h
    exact (append_nil _).symm
  | case2 => cases h
  | case3 _ _ _ _ _ _ ih => exact ih h
  | case4 => cases h
  | case5 => cases h
  | case6 k rs b bs file ih =>
    rw [ih h, append_assoc, cons_append, take_append_drop]

theorem writeMore_errors {e : Int} (h : writeMore rs bytes file = some (.error e)) : e < 0 := by
  fun_induction writeMore rs bytes file with
  | case1 => cases h
  | case2 => cases h
  | case3 _ _ _ _ _ _ ih => exact ih h
  | case4 e' =>
    cases h
    exact Int.neg_neg_of_pos e'.2
  | case5 =>
    cases h
    decide
  | case6 _ _ _ _ _ ih => exact ih h

/-- A write whose calls cannot fail and move something, of which there are enough, ends well. -/
theorem writeMore_total (hcalm : ∀ r ∈ rs, r.fatal = none ∧ r ≠ .moved 0)
    (hrs : bytes.length ≤ rs.countP Transferred.counts) :
    ∃ rs' file', writeMore rs bytes file = some (.ok ((), rs', file')) := by
  fun_induction writeMore rs bytes file with
  | case1 rs file => exact ⟨rs, file, rfl⟩
  | case2 => simp at hrs
  | case3 e rs b bs file heintr ih =>
    have hcounts : Transferred.counts (.failed e) = false := by simp [Transferred.counts, heintr]
    rw [countP_cons, hcounts] at hrs
    exact ih (fun r hr => hcalm r (mem_cons_of_mem _ hr)) hrs
  | case4 e rs b bs file hne =>
    have hfatal := (hcalm _ mem_cons_self).1
    rw [Transferred.fatal, if_neg hne] at hfatal
    cases hfatal
  | case5 => exact absurd rfl (hcalm _ mem_cons_self).2
  | case6 k rs b bs file ih =>
    refine ih (fun r hr => hcalm r (mem_cons_of_mem _ hr)) ?_
    rw [countP_cons, Transferred.counts, if_pos rfl, length_cons] at hrs
    rw [length_drop]
    omega

end Brickwright.HubProgram
