import Brickwright.HubProgram.Storage.Image

/-!
# Saving and restoring a program

* `Program.record_good` — a committed program makes a good record, and its image is the record's.
* `install_good` — installing a good record makes a program with that record, at rest.
* `save_committed`, `save_ok` — a committed program is saved, as its image.
* `restore_image`, `restore_ok`, `restore_failed` — images are restored, nothing else is, and a
  restore that fails changes nothing.
* `program_storage` — the result.
-/

namespace Brickwright.HubProgram

open Bytes Asking
open List

/-! ## The part that reads -/

theorem readRecord_errors (id : UInt32) : ErrorsIn (· < 0) (readRecord id) := by
  refine readAll_errors.bind fun head => ?_
  dsimp only
  split
  · exact .fail (by decide)
  refine readAll_errors.bind fun rest => readExtra_errors.bind fun extra => ?_
  split
  · exact .fail (by decide)
  split
  · exact .fail (by decide)
  split
  · exact .fail (by decide)
  · exact .ret _

theorem readRecord_attentive (id : UInt32) : Attentive Transferred.fatal (readRecord id) := by
  refine (readAll_attentive _).bind fun head => ?_
  dsimp only
  split
  · exact .fail _
  refine (readAll_attentive _).bind fun rest => readExtra_attentive.bind fun extra => ?_
  split
  · exact .fail _
  split
  · exact .fail _
  split
  · exact .fail _
  · exact .ret _

/-- A read for every byte of the largest record and one more. -/
def maxReads : Nat := 4121

theorem body_le_of_header {head : List UInt8} {count n : Nat}
    (hbad : headerBad head count n = false) : n ≤ 4096 := by
  simp only [headerBad, decide_eq_false_iff_not, not_or, not_not] at hbad
  obtain ⟨-, -, -, -, -, -, hsize⟩ := hbad
  split at hsize
  · omega
  · rw [programLimit] at hsize
    omega

theorem readRecord_within (id : UInt32) :
    Within Transferred.counts maxReads (readRecord id) := by
  have hsum : maxReads = headerLen + 4101 := rfl
  rw [hsum]
  refine (readAll_within _).bind fun head => ?_
  dsimp only
  split
  · exact .fail _
  next hbad =>
  rw [Bool.not_eq_true] at hbad
  have hn := body_le_of_header hbad
  refine Within.mono (m := get32 (head.drop 16) + 4 + (1 + 0)) ?_ (by omega)
  refine (readAll_within _).bind fun rest => readExtra_within.bind fun extra => ?_
  split
  · exact .fail _
  split
  · exact .fail _
  split
  · exact .fail _
  · exact .ret _

/-! ## Programs and their records -/

def Program.record (p : Program) : Record := ⟨p.language, p.count, p.body⟩

variable {p q q' : Program} {id : UInt32} {file : List UInt8}

theorem Program.body_rows (hlang : p.language = 0) :
    p.body = (p.code.take p.count).flatMap rowBytes := by
  rw [Program.body, if_neg (not_not.mpr hlang)]
  congr 1
  exact funext storedRow_eq

theorem length_flatMap_rowBytes (rows : List Instruction) :
    (rows.flatMap rowBytes).length = 16 * rows.length := by
  induction rows with
  | nil => rfl
  | cons r rows ih =>
    rw [flatMap_cons, length_append, ih, length_rowBytes, length_cons]
    omega

theorem Program.length_body (hp : p.stored.Committed) : p.body.length = p.bodyLen := by
  have hcode : p.code.length = programLimit := hp.sized.code
  have hsource : p.source.length = 4096 := hp.sized.source
  rcases hp.contents with hrows | htext
  · have hlang : p.language = 0 := hrows.language
    have hle : p.count ≤ programLimit := hrows.count_le
    rw [Program.body_rows hlang, length_flatMap_rowBytes, length_take, Program.bodyLen,
      if_neg (not_not.mpr hlang)]
    omega
  · have hlang : p.language = 1 := htext.language
    have hle : p.count ≤ 4095 := htext.count_le
    have hone : p.language ≠ 0 := by omega
    rw [Program.body, if_pos hone, length_take, Program.bodyLen, if_pos hone]
    omega

theorem Program.image_eq (hp : p.stored.Committed) (id : Nat) : p.image id = p.record.image id := by
  have hheader : p.header id = p.record.header id := by
    rw [Program.header, ← Program.length_body hp]
    rfl
  rw [Program.image, hheader]
  rfl

theorem Program.record_rows (hp : p.stored.Sized) (hrows : p.stored.RowsOk) :
    p.record.rows = p.code.take p.count := by
  have hcode : p.code.length = programLimit := hp.code
  have hle : p.count ≤ programLimit := hrows.count_le
  have hlen : (p.code.take p.count).length = p.count := by
    rw [length_take]
    omega
  have hbody : p.record.body = (p.code.take p.count).flatMap rowBytes :=
    Program.body_rows hrows.language
  have hfits : ∀ r ∈ p.code.take p.count, r.Fits := hrows.fits
  have hview := codeView_rows hfits
  rw [hlen] at hview
  rw [Record.rows_eq]
  · rw [hbody]
    exact hview
  · rw [hbody, length_flatMap_rowBytes, hlen]
    exact Nat.le_refl _

/-- **A committed program makes a good record.** -/
theorem Program.record_good (hp : p.stored.Committed) : p.record.Good := by
  have hlen := Program.length_body hp
  rcases hp.contents with hrows | htext
  · have hlang : p.language = 0 := hrows.language
    have hvalid : validate (some (p.code.take p.count)) = 0 := hrows.valid
    have hne := (length_le_of_validate hvalid).1
    refine ⟨Nat.pos_of_ne_zero ?_, fun h => absurd hlang h, fun _ => ⟨hrows.count_le, ?_, ?_⟩⟩
    · intro hzero
      change p.count = 0 at hzero
      rw [hzero] at hne
      exact hne take_zero
    · show p.body.length = 16 * p.count
      rw [hlen, Program.bodyLen, if_neg (not_not.mpr hlang), Nat.mul_comm]
    · rw [Program.record_rows hp.sized hrows]
      exact hvalid
  · have hlang : p.language = 1 := htext.language
    have hone : p.language ≠ 0 := by omega
    have hbody : p.body = p.source.take p.count := by rw [Program.body, if_pos hone]
    refine ⟨htext.count_pos, fun _ => ⟨hlang, htext.count_le, ?_, ?_⟩, fun h => absurd h hone⟩
    · show p.body.length = p.count
      rw [hlen, Program.bodyLen, if_pos hone]
    · show 0 ∉ p.body
      rw [hbody]
      exact htext.noNul

/-! ## Installing a record -/

/-- What a restore that succeeds has put in place of `p`, up to what was restored: a program at
rest with the same id, count, language and rows or text. -/
structure Restored (p q : Program) : Prop where
  id : q.id = p.id
  count : q.count = p.count
  language : q.language = p.language
  rows : p.language = 0 → q.code.take q.count = p.code.take p.count
  source : p.language ≠ 0 → q.source.take q.count = p.source.take p.count
  state : q.state = .ready

variable {r : Record}

theorem Record.Good.body_rows (hr : r.Good) (hlang : r.language = 0) :
    r.rows.flatMap rowBytes = r.body ∧ r.rows.length = r.count := by
  obtain ⟨-, hlen, -⟩ := hr.code hlang
  have hle : 16 * r.count ≤ r.body.length := Nat.le_of_eq hlen.symm
  rw [Record.rows_eq hle, flatMap_rowBytes_codeView hle, ← hlen, take_length]
  refine ⟨rfl, ?_⟩
  rw [codeView, length_map, length_range]

/-- **Installing a good record** succeeds and makes a program with that record, at rest. -/
theorem install_good (hr : r.Good) (hrun : p.state ≠ .running) (hid : id ≠ 0) :
    (install p id r).1 = 0 ∧ (install p id r).2.record = r ∧
      (install p id r).2.id = id.toNat ∧ (install p id r).2.state = .ready ∧
      (r.language = 0 → (install p id r).2.code.take r.count = r.rows) := by
  have hzero : id.toNat ≠ 0 := fun h => hid (UInt32.toNat_inj.mp h)
  by_cases hlang : r.language = 0
  · obtain ⟨hlimit, -, hvalid⟩ := hr.code hlang
    obtain ⟨hbody, hlen⟩ := hr.body_rows hlang
    have htake : (p.code.overlay 0 r.rows).take r.count = r.rows := by
      rw [← hlen]
      simpa using take_overlay (l := p.code) r.rows (Nat.zero_le _)
    rw [install, if_neg (not_not.mpr hlang), load, if_neg hrun, if_neg hzero,
      if_neg (by rw [hvalid]; decide)]
    refine ⟨rfl, ?_, rfl, rfl, fun _ => htake⟩
    obtain ⟨language, count, body⟩ := r
    subst hlang
    simp only [Option.getD_some, Program.record, Record.mk.injEq, true_and]
    refine ⟨hlen, ?_⟩
    rw [Program.body_rows rfl]
    rw [hlen, htake]
    exact hbody
  · obtain ⟨hone, hle, hlen, hnul⟩ := hr.text hlang
    rw [install, if_pos hlang]
    refine ⟨rfl, ?_, rfl, rfl, fun h => absurd h hlang⟩
    have htext := commitSource_bytes p id.toNat r.body
    obtain ⟨language, count, body⟩ := r
    change body.length = count at hlen
    subst hone hlen
    rw [Program.record, Record.mk.injEq]
    exact ⟨rfl, rfl, htext⟩

theorem install_ok (hr : r.Good) (hp : p.stored.Ok) (hid : id ≠ 0) :
    (install p id r).2.stored.Ok := by
  have hzero : id.toNat ≠ 0 := fun h => hid (UInt32.toNat_inj.mp h)
  rw [install]
  split
  · next hlang =>
    obtain ⟨hone, hle, hlen, hnul⟩ := hr.text hlang
    have hpos := hr.count_pos
    exact commitSource_stored hp.sized hzero id.toNat_lt (by omega) (by omega) hnul
  · exact load_stored hp id.toNat_lt (codeView_fits _ _)

theorem install_committed (hr : r.Good) (hp : p.stored.Ok) (hrun : p.state ≠ .running)
    (hid : id ≠ 0) : (install p id r).2.stored.Committed := by
  have hzero : id.toNat ≠ 0 := fun h => hid (UInt32.toNat_inj.mp h)
  have hid' := (install_good hr hrun hid).2.2.1
  apply (install_ok hr hp hid).committed
  show (install p id r).2.id ≠ 0
  rwa [hid']

theorem install_record (hp : p.stored.Committed) (hrun : q.state ≠ .running)
    (hid : p.id = id.toNat) :
    (install q id p.record).1 = 0 ∧ Restored p (install q id p.record).2 := by
  have hne : id ≠ 0 := by
    rintro rfl
    exact hp.id_ne hid
  obtain ⟨hrc, hrecord, hid', hstate, hrows⟩ := install_good (Program.record_good hp) hrun hne
  have hlang : (install q id p.record).2.language = p.language := congrArg Record.language hrecord
  have hcount : (install q id p.record).2.count = p.count := congrArg Record.count hrecord
  have hbody : (install q id p.record).2.body = p.body := congrArg Record.body hrecord
  refine ⟨hrc, hid'.trans hid.symm, hcount, hlang, ?_, ?_, hstate⟩
  · intro h
    have hok : p.stored.RowsOk := by
      refine hp.contents.resolve_right fun htext => ?_
      have hone : p.language = 1 := htext.language
      omega
    rw [hcount]
    exact (hrows h).trans (Program.record_rows hp.sized hok)
  · intro h
    rwa [Program.body, if_pos (by rwa [hlang]), Program.body, if_pos h] at hbody

/-! ## Saving -/

/-- No call of the save fails, and the writes go on until all is written. -/
structure SaveIo.Calm (io : SaveIo) (len : Nat) : Prop where
  alloc : io.alloc = true
  opens : io.openError = none
  writes : ∀ r ∈ io.writes, r.fatal = none ∧ r ≠ .moved 0
  enough : len ≤ io.writes.countP Transferred.counts
  fsync : io.fsyncError = none
  close : io.closeError = none
  rename : io.renameError = none

theorem saveRefuses_committed (hp : p.stored.Committed) : p.saveRefuses = false := by
  rw [Program.saveRefuses]
  rcases hp.contents with hrows | htext
  · have hlang : p.language = 0 := hrows.language
    have hle : p.count ≤ programLimit := hrows.count_le
    have hvalid : validate (some (p.code.take p.count)) = 0 := hrows.valid
    rw [if_neg (not_not.mpr hlang), decide_eq_false_iff_not, hvalid]
    omega
  · have hlang : p.language = 1 := htext.language
    have hpos : 0 < p.count := htext.count_pos
    have hle : p.count ≤ 4095 := htext.count_le
    have hnul : 0 ∉ p.source.take p.count := htext.noNul
    rw [if_pos (by omega), decide_eq_false_iff_not, not_or, not_or]
    exact ⟨by omega, by omega, hnul⟩

/-- **A committed program is saved**, as its image. -/
theorem save_committed (hp : p.stored.Committed) (hrun : p.state ≠ .running)
    (hempty : p.state ≠ .empty) (hid : p.id = id.toNat) {io : SaveIo}
    (hio : io.Calm (p.image p.id).length) (fs : Files) :
    save p id io fs = some (0, ⟨some (p.image p.id), none⟩) := by
  have hlang : ¬ p.language > 1 := by
    have := (Program.record_good hp).language_le
    change p.language ≤ 1 at this
    omega
  have hne : id ≠ 0 := by
    rintro rfl
    exact hp.id_ne hid
  have hchecks : ¬ (id = 0 ∨ p.id ≠ id.toNat ∨ p.state = .empty ∨ p.language > 1) := by
    simp only [not_or, not_not]
    exact ⟨hne, hid, hempty, hlang⟩
  obtain ⟨rs', file', hwrite⟩ : ∃ rs' file', writeMore io.writes (p.image p.id) [] =
      some (.ok ((), rs', file')) := writeMore_total hio.writes hio.enough
  have hfile := writeMore_ok hwrite
  rw [nil_append] at hfile
  subst hfile
  rw [save, if_neg hrun, if_neg hchecks, saveRefuses_committed hp, hio.alloc, hio.opens, writeAll,
    ← hid, hwrite]
  simp only [hio.fsync, hio.close, hio.rename, afterCall, if_true, Bool.false_eq_true,
    Bool.true_eq_false, if_false]

/-- **A save that succeeds** leaves the image of the program under the path. -/
theorem save_ok {io : SaveIo} {fs fs' : Files} (h : save p id io fs = some (0, fs')) :
    p.id = id.toNat ∧ p.state ≠ .running ∧ fs'.path = some (p.image p.id) := by
  rw [save] at h
  split at h
  · cases h
  next hrun =>
  split at h
  · cases h
  next hchecks =>
  simp only [not_or, not_not] at hchecks
  split at h
  · cases h
  split at h
  · cases h
  split at h
  · next e _ =>
    have hneg : -e.1 = 0 := congrArg Prod.fst (Option.some.inj h)
    omega
  split at h
  · cases h
  · next rc hwrite =>
    have hzero : rc = 0 := congrArg Prod.fst (Option.some.inj h)
    have hneg := writeMore_errors hwrite
    omega
  · next written hwrite =>
    dsimp only at h
    split at h
    · obtain rfl : ⟨some written, none⟩ = fs' := congrArg Prod.snd (Option.some.inj h)
      have hfile := writeMore_ok hwrite
      rw [nil_append] at hfile
      exact ⟨hchecks.2.1, hrun, by rw [hfile, hchecks.2.1]⟩
    · next hrc => exact absurd (congrArg Prod.fst (Option.some.inj h)) hrc

/-! ## Restoring -/

theorem afterCall_nonpos {rc : Int} (hrc : rc ≤ 0) (error : Option Errno) :
    afterCall rc error ≤ 0 := by
  cases error with
  | none => exact hrc
  | some e =>
    rw [afterCall]
    split <;> omega

theorem afterCall_neg {rc : Int} (hrc : rc < 0) (error : Option Errno) :
    afterCall rc error = rc := by
  cases error with
  | none => rfl
  | some e => exact if_neg (Int.ne_of_lt hrc)

variable {io : RestoreIo}

/-- **What a restore does**: it fails and changes nothing, or installs the record of the file. -/
theorem restore_cases {rc : Int} (h : restore p id io file = some (rc, q)) :
    (rc < 0 ∧ q = p) ∨ (rc = 0 ∧ p.state ≠ .running ∧ id ≠ 0 ∧
      ∃ r : Record, r.Good ∧ file = r.image id.toNat ∧ q = (install p id r).2) := by
  rw [restore] at h
  split at h
  · cases h
    exact .inl ⟨by decide, rfl⟩
  next hrun =>
  split at h
  · cases h
    exact .inl ⟨by decide, rfl⟩
  next hid =>
  split at h
  · cases h
    exact .inl ⟨by decide, rfl⟩
  split at h
  · next e _ =>
    cases h
    exact .inl ⟨Int.neg_neg_of_pos e.2, rfl⟩
  split at h
  · cases h
  · next rc' hread =>
    have hneg := readRecord_errors id _ _ _ hread
    rw [afterCall_neg hneg] at h
    cases h
    exact .inl ⟨hneg, rfl⟩
  · next r _ _ hread =>
    obtain ⟨hgood, hfile⟩ := readRecord_ok hread
    dsimp only at h
    split at h
    · have hpair := Option.some.inj h
      refine .inr ⟨?_, hrun, hid, r, hgood, hfile, (congrArg Prod.snd hpair).symm⟩
      exact (congrArg Prod.fst hpair).symm.trans (install_good hgood hrun hid).1
    · next hrc =>
      cases h
      have hle := afterCall_nonpos (Int.le_refl 0) io.closeError
      exact .inl ⟨by omega, rfl⟩

/-- A restore that waits for a read and is then told of a failure ends with its error. -/
theorem restore_failed {pre post : List Transferred} {e : Errno}
    (hwait : restore p id { io with reads := pre } file = none) (he : e.1 ≠ EINTR) :
    restore p id { io with reads := pre ++ .failed e :: post } file = some (-e.1, p) := by
  rw [restore] at hwait ⊢
  split at hwait
  · cases hwait
  next hrun =>
  split at hwait
  · cases hwait
  next hid =>
  split at hwait
  · cases hwait
  next halloc =>
  rw [if_neg hrun, if_neg hid, if_neg halloc]
  dsimp only at hwait ⊢
  split at hwait
  · cases hwait
  split at hwait
  · next hread =>
    have hfatal : Transferred.fatal (.failed e) = some (-e.1) := if_neg he
    rw [(readRecord_attentive id).told hread hfatal post]
    exact congrArg (fun rc => some (rc, p)) (afterCall_neg (Int.neg_neg_of_pos e.2) io.closeError)
  · cases hwait
  · split at hwait <;> cases hwait

theorem restore_returns (hreads : maxReads ≤ io.reads.countP Transferred.counts) :
    restore p id io file ≠ none := by
  intro h
  rw [restore] at h
  split at h
  · cases h
  split at h
  · cases h
  split at h
  · cases h
  split at h
  · cases h
  split at h
  · next hread =>
    have := (readRecord_within id).waits hread
    omega
  · cases h
  · dsimp only at h
    split at h <;> cases h

/-- No call of the restore fails, and the reads go on as long as it asks. -/
structure RestoreIo.Calm (io : RestoreIo) : Prop where
  alloc : io.alloc = true
  opens : io.openError = none
  reads : ∀ r ∈ io.reads, r.fatal = none
  enough : maxReads ≤ io.reads.countP Transferred.counts
  close : io.closeError = none

/-- **The image of a committed program is restored.** -/
theorem restore_image (hp : p.stored.Committed) (hrun : q.state ≠ .running)
    (hid : p.id = id.toNat) (hio : io.Calm) :
    ∃ q', restore q id io (p.image p.id) = some (0, q') ∧ Restored p q' := by
  have hne : id ≠ 0 := by
    rintro rfl
    exact hp.id_ne hid
  have hgood := Program.record_good hp
  obtain ⟨hrc, hrestored⟩ := install_record hp hrun hid
  have hbody := hgood.body_le
  have henough := hio.enough
  obtain ⟨rs', hread⟩ := readRecord_image hgood hio.reads
    (by rw [headerLen]; rw [maxReads] at henough; omega)
  refine ⟨(install q id p.record).2, ?_, hrestored⟩
  rw [restore, if_neg hrun, if_neg hne, hio.alloc, hio.opens, Program.image_eq hp, hid, hread]
  simp only [hio.close, afterCall, if_true, Bool.true_eq_false, if_false]
  exact congrArg some (Prod.ext hrc rfl)

/-! ## The result -/

/-- **Saving and restoring.** For any programs, ids, files and answers of the file system:

* a committed program at rest is saved when no call fails, and a save that succeeds has written its
  image;
* restoring the image of a committed program into any program that is not running gives the same
  id, count, language and rows or text, at rest;
* a file that is restored is the image of the restored program, which is a committed one and is
  saved as the same bytes again;
* every other file is refused with an error, and a restore that fails leaves the program alone;
* so is a restore told of the failure of a read it waits for, with the error of the read. -/
theorem program_storage :
    (∀ (p : Program) (id : UInt32) (io : SaveIo) (fs : Files),
      (p.stored.Committed → p.state ≠ .running → p.state ≠ .empty → p.id = id.toNat →
        io.Calm (p.image p.id).length →
        save p id io fs = some (0, ⟨some (p.image p.id), none⟩)) ∧
      ∀ fs', save p id io fs = some (0, fs') → fs'.path = some (p.image p.id)) ∧
    (∀ (p q : Program) (id : UInt32) (io : RestoreIo), p.stored.Committed → p.id = id.toNat →
      q.state ≠ .running → io.Calm →
      ∃ q', restore q id io (p.image p.id) = some (0, q') ∧ Restored p q') ∧
    (∀ (q q' : Program) (id : UInt32) (io : RestoreIo) (file : List UInt8), q.stored.Ok →
      restore q id io file = some (0, q') → q'.stored.Committed ∧ q'.id = id.toNat ∧
        q'.state = .ready ∧ file = q'.image q'.id ∧
        ∀ (io : SaveIo) (fs : Files), io.Calm file.length →
          save q' id io fs = some (0, ⟨some file, none⟩)) ∧
    (∀ (q q' : Program) (id : UInt32) (io : RestoreIo) (file : List UInt8) (rc : Int),
      restore q id io file = some (rc, q') → rc ≠ 0 → rc < 0 ∧ q' = q) ∧
    (∀ (q : Program) (id : UInt32) (io : RestoreIo) (file : List UInt8), q.stored.Ok →
      (∀ p : Program, p.stored.Committed → p.id = id.toNat → file ≠ p.image p.id) →
      maxReads ≤ io.reads.countP Transferred.counts →
      ∃ rc, restore q id io file = some (rc, q) ∧ rc < 0) ∧
    (∀ (q : Program) (id : UInt32) (io : RestoreIo) (file : List UInt8)
      (pre post : List Transferred) (e : Errno),
      restore q id { io with reads := pre } file = none → e.1 ≠ EINTR →
      restore q id { io with reads := pre ++ .failed e :: post } file = some (-e.1, q)) := by
  -- the parts on files that are accepted and on those that are not both need this
  have haccepted : ∀ (q q' : Program) (id : UInt32) (io : RestoreIo) (file : List UInt8),
      q.stored.Ok → restore q id io file = some (0, q') →
      q'.stored.Committed ∧ q'.id = id.toNat ∧ q'.state = .ready ∧ file = q'.image q'.id := by
    intro q q' id io file hq h
    rcases restore_cases h with ⟨hneg, -⟩ | ⟨-, hrun, hid, r, hgood, hfile, rfl⟩
    · omega
    · obtain ⟨-, hrecord, hid', hstate, -⟩ := install_good hgood hrun hid
      have hcommitted := install_committed hgood hq hrun hid
      refine ⟨hcommitted, hid', hstate, ?_⟩
      rw [Program.image_eq hcommitted, hrecord, hid']
      exact hfile
  refine ⟨?_, ?_, ?_, ?_, ?_, ?_⟩
  · intro p id io fs
    exact ⟨fun hp hrun hempty hid hio => save_committed hp hrun hempty hid hio fs,
      fun fs' h => (save_ok h).2.2⟩
  · intro p q id io hp hid hrun hio
    exact restore_image hp hrun hid hio
  · intro q q' id io file hq h
    obtain ⟨hcommitted, hid, hstate, hfile⟩ := haccepted q q' id io file hq h
    refine ⟨hcommitted, hid, hstate, hfile, fun io fs hio => ?_⟩
    rw [hfile] at hio ⊢
    exact save_committed hcommitted (by rw [hstate]; decide) (by rw [hstate]; decide) hid hio fs
  · intro q q' id io file rc h hrc
    rcases restore_cases h with hfailed | ⟨hzero, -⟩
    · exact hfailed
    · exact absurd hzero hrc
  · intro q id io file hq hother hreads
    cases h : restore q id io file with
    | none => exact absurd h (restore_returns hreads)
    | some r =>
      obtain ⟨rc, q'⟩ := r
      rcases restore_cases h with ⟨hneg, rfl⟩ | ⟨rfl, -⟩
      · exact ⟨rc, rfl, hneg⟩
      · -- had it been restored, the file would be the image of what it gave
        obtain ⟨hcommitted, hid, -, hfile⟩ := haccepted q q' id io file hq h
        exact absurd hfile (hother q' hcommitted hid)
  · intro q id io file pre post e hwait he
    exact restore_failed hwait he

end Brickwright.HubProgram
