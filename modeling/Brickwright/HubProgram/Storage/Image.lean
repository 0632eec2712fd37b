import Brickwright.HubProgram.Storage.Basic
import Brickwright.HubProgram.Upload.Transaction

/-!
# The record and its bytes

`Record.image` is the file of a record and `readRecord` the way back. `readRecord_ok` says that only
images are read, and `readRecord_image` that every image of a good record is, however the reads
split it.
-/

namespace Brickwright.HubProgram

open Bytes Asking
open List

/-! ## Words -/

theorem put32_eq_leBytes (v : Nat) : put32 v = leBytes 4 v := by
  simp only [put32, leBytes, Nat.shiftRight_eq_div_pow, Nat.div_div_eq_div_mul]

@[simp] theorem length_put32 (v : Nat) : (put32 v).length = 4 := rfl

theorem get32_put32 {v : Nat} (hv : v < 2 ^ 32) (rest : List UInt8) :
    get32 (put32 v ++ rest) = v := by
  have hlen : 4 ≤ (put32 v ++ rest).length := by
    rw [length_append, length_put32]
    omega
  rw [get32_eq_leNat hlen, take_append_of_le_length (by simp), put32_eq_leBytes,
    take_of_length_le (by simp), leNat_leBytes]
  exact Nat.mod_eq_of_lt hv

theorem put32_get32 {bs : List UInt8} (hlen : 4 ≤ bs.length) : put32 (get32 bs) = bs.take 4 := by
  have htake : (bs.take 4).length = 4 := by
    rw [length_take]
    omega
  have hback := leBytes_leNat (bs.take 4)
  rw [htake] at hback
  rw [put32_eq_leBytes, get32_eq_leNat hlen, hback]

theorem storedRow_eq (r : Instruction) : storedRow r = rowBytes r := by
  simp only [storedRow, rowBytes, put32_eq_leBytes, int32Bytes, toUnsigned]

theorem length_rowBytes (r : Instruction) : (rowBytes r).length = 16 := by
  simp [rowBytes]

/-! ## Rows -/

theorem wordAt_append {pre rest : List UInt8} (off : Nat) :
    wordAt (pre ++ rest) (pre.length + off) = wordAt rest off := by
  rw [wordAt, wordAt, drop_append, drop_of_length_le (by omega), nil_append,
    Nat.add_sub_cancel_left]

theorem wordAt_field {v : Int} (hv : Fits32 v) (pre post : List UInt8) {buffer : List UInt8}
    {off : Nat} (hbuffer : buffer = pre ++ (int32Bytes v ++ post)) (hoff : off = pre.length) :
    wordAt buffer off = v := by
  subst hbuffer hoff
  rw [wordAt, drop_left, take_append_of_le_length (by simp),
    take_of_length_le (by simp)]
  exact int32_int32Bytes hv

theorem codeAt_rowBytes {r : Instruction} (hr : r.Fits) (rest : List UInt8) :
    codeAt (rowBytes r ++ rest) 0 = r := by
  obtain ⟨op, a, b, c⟩ := r
  obtain ⟨hop, ha, hb, hc⟩ := hr
  simp only [codeAt, rowBytes, Instruction.mk.injEq, append_assoc]
  refine ⟨?_, ?_, ?_, ?_⟩
  · exact wordAt_field hop [] _ rfl rfl
  · exact wordAt_field ha (int32Bytes op) _ rfl (by simp)
  · exact wordAt_field hb (int32Bytes op ++ int32Bytes a) (int32Bytes c ++ rest) (by simp) (by simp)
  · exact wordAt_field hc (int32Bytes op ++ int32Bytes a ++ int32Bytes b) rest (by simp) (by simp)

theorem codeAt_succ (r : Instruction) (rest : List UInt8) (i : Nat) :
    codeAt (rowBytes r ++ rest) (i + 1) = codeAt rest i := by
  have hword : ∀ k, wordAt (rowBytes r ++ rest) (16 * (i + 1) + k) = wordAt rest (16 * i + k) := by
    intro k
    have hoff : 16 * (i + 1) + k = (rowBytes r).length + (16 * i + k) := by
      rw [length_rowBytes]
      omega
    rw [hoff, wordAt_append]
  have hzero := hword 0
  simp only [Nat.add_zero] at hzero
  simp only [codeAt, hword, hzero]

/-- **Rows are read back.** -/
theorem codeView_rows {rows : List Instruction} (hfits : ∀ r ∈ rows, r.Fits) :
    codeView (rows.flatMap rowBytes) rows.length = rows := by
  unfold codeView
  induction rows with
  | nil => rfl
  | cons r rows ih =>
    rw [flatMap_cons, length_cons, range_succ_eq_map, map_cons, map_map,
      codeAt_rowBytes (hfits r mem_cons_self)]
    have htail : ∀ i ∈ List.range rows.length, (codeAt (rowBytes r ++ rows.flatMap rowBytes) ∘
        Nat.succ) i = codeAt (rows.flatMap rowBytes) i := fun i _ => codeAt_succ r _ i
    rw [map_congr_left htail, ih fun x hx => hfits x (mem_cons_of_mem _ hx)]

/-! ## The record of a file -/

namespace Record

def header (r : Record) (id : Nat) : List UInt8 :=
  magic ++ [1, UInt8.ofNat r.language, 0, 0] ++ put32 id ++ put32 r.count ++ put32 r.body.length

def image (r : Record) (id : Nat) : List UInt8 :=
  r.header id ++ r.body ++ put32 (crc32 (r.header id ++ r.body)).toNat

/-- What the checks of a restore let through. -/
structure Good (r : Record) : Prop where
  count_pos : 0 < r.count
  text : r.language ≠ 0 → r.language = 1 ∧ r.count ≤ 4095 ∧ r.body.length = r.count ∧ 0 ∉ r.body
  code : r.language = 0 → r.count ≤ programLimit ∧ r.body.length = 16 * r.count ∧
    validate (some r.rows) = 0

theorem Good.language_le {r : Record} (hr : r.Good) : r.language ≤ 1 := by
  by_cases h : r.language = 0
  · omega
  · have := (hr.text h).1
    omega

theorem Good.body_le {r : Record} (hr : r.Good) : r.body.length ≤ 4096 := by
  by_cases h : r.language = 0
  · obtain ⟨hle, hlen, -⟩ := hr.code h
    rw [programLimit] at hle
    omega
  · obtain ⟨-, hle, hlen, -⟩ := hr.text h
    omega

@[simp] theorem length_header (r : Record) (id : Nat) : (r.header id).length = headerLen := rfl

end Record

theorem take_four {l : List UInt8} {off : Nat} (h : off + 4 ≤ l.length) : (l.drop off).take 4 =
    [l.getD off 0, l.getD (off + 1) 0, l.getD (off + 2) 0, l.getD (off + 3) 0] := by
  apply ext_getElem
  · simp only [length_take, length_drop, length_cons, length_nil]
    omega
  · intro i hi hi'
    match i, hi' with
    | 0, _ =>
      simp [getD_eq_getElem?_getD, List.getElem?_eq_getElem (by omega : off < l.length)]
    | 1, _ =>
      simp [getD_eq_getElem?_getD, List.getElem?_eq_getElem (by omega : off + 1 < l.length)]
    | 2, _ =>
      simp [getD_eq_getElem?_getD, List.getElem?_eq_getElem (by omega : off + 2 < l.length)]
    | 3, _ =>
      simp [getD_eq_getElem?_getD, List.getElem?_eq_getElem (by omega : off + 3 < l.length)]

theorem getD_of_byteAt {l : List UInt8} {i v : Nat} (hv : v < 256) (h : byteAt l i = v) :
    l.getD i 0 = UInt8.ofNat v := by
  rw [← UInt8.toNat_inj, UInt8.toNat_ofNat', Nat.mod_eq_of_lt hv]
  exact h

/-- **A header that passes its test** is the header of a record. -/
theorem header_eq {h : List UInt8} (hlen : h.length = headerLen)
    (hbad : headerBad h (get32 (h.drop 12)) (get32 (h.drop 16)) = false) (body : List UInt8)
    (hbody : body.length = get32 (h.drop 16)) :
    h = (⟨byteAt h 5, get32 (h.drop 12), body⟩ : Record).header (get32 (h.drop 8)) := by
  simp only [headerBad, decide_eq_false_iff_not, not_or, not_not] at hbad
  obtain ⟨hmagic, h4, h5, h6, h7, -, -⟩ := hbad
  have hlen' : h.length = 20 := hlen
  have hword : ∀ off, off + 4 ≤ 20 → put32 (get32 (h.drop off)) = (h.drop off).take 4 := by
    intro off hoff
    apply put32_get32
    rw [length_drop]
    omega
  have hmid : (h.drop 4).take 4 = [1, UInt8.ofNat (byteAt h 5), 0, 0] := by
    have hlang : byteAt h 5 < 256 := (h.getD 5 0).toNat_lt
    rw [take_four (by omega), getD_of_byteAt (by omega) h4, getD_of_byteAt hlang rfl,
      getD_of_byteAt (by omega) h6, getD_of_byteAt (by omega) h7]
    rfl
  rw [Record.header, hbody, hword 8 (by omega), hword 12 (by omega), hword 16 (by omega), ← hmid,
    ← hmagic]
  have hsplit : ∀ m n, h.take (m + n) = h.take m ++ (h.drop m).take n := fun m n => take_add
  rw [← hsplit 4 4, ← hsplit 8 4, ← hsplit 12 4, ← hsplit 16 4, take_of_length_le (by omega)]

theorem Record.rows_eq {r : Record} (hlen : 16 * r.count ≤ r.body.length) :
    r.rows = codeView r.body r.count := by
  rw [Record.rows, decodeRows_eq hlen]

/-- The record behind a header that passed its test, once its contents did too. -/
theorem good_of_checks {head body : List UInt8}
    (hbad : headerBad head (get32 (head.drop 12)) (get32 (head.drop 16)) = false)
    (hlen : body.length = get32 (head.drop 16))
    (hcontents : (⟨byteAt head 5, get32 (head.drop 12), body⟩ : Record).bad = false) :
    (⟨byteAt head 5, get32 (head.drop 12), body⟩ : Record).Good := by
  simp only [headerBad, decide_eq_false_iff_not, not_or, not_not] at hbad
  obtain ⟨-, -, hlang, -, -, hpos, hsize⟩ := hbad
  refine ⟨Nat.pos_of_ne_zero hpos, ?_, ?_⟩
  · intro htext
    change byteAt head 5 ≠ 0 at htext
    rw [if_pos htext, not_or, not_not] at hsize
    rw [Record.bad, if_pos htext, decide_eq_false_iff_not] at hcontents
    have hone : byteAt head 5 = 1 := by omega
    exact ⟨hone, Nat.not_lt.mp hsize.1, hlen.trans hsize.2, hcontents⟩
  · intro hcode
    rw [if_neg (not_not.mpr hcode), not_or, not_not] at hsize
    rw [Record.bad, if_neg (not_not.mpr hcode), decide_eq_false_iff_not, not_not] at hcontents
    exact ⟨Nat.not_lt.mp hsize.1, by rw [hlen, hsize.2, Nat.mul_comm], hcontents⟩

/-- **Only images are read**: what a restore lets through is a good record, and the file is its
image. -/
theorem readRecord_ok {id : UInt32} {rs rs' : List Transferred} {file file' : List UInt8}
    {r : Record} (h : readRecord id rs file = some (.ok (r, rs', file'))) :
    r.Good ∧ file = r.image id.toNat := by
  obtain ⟨head, rs₁, file₁, hread₁, h⟩ := bind_ok h
  obtain ⟨hlen₁, hhead, rfl⟩ := readAll_ok hread₁
  have hheadlen : head.length = headerLen := by
    rw [hhead, length_take]
    exact Nat.min_eq_left hlen₁
  dsimp only at h
  split at h
  · cases h
  next hbad =>
  rw [Bool.not_eq_true] at hbad
  obtain ⟨rest, rs₂, file₂, hread₂, h⟩ := bind_ok h
  obtain ⟨hlen₂, hrest, hfile₂⟩ := readAll_ok hread₂
  obtain ⟨extra, rs₃, file₃, hread₃, h⟩ := bind_ok h
  have hextra := readExtra_ok hread₃
  split at h
  · cases h
  next hcrc =>
  split at h
  · cases h
  next hid =>
  split at h
  · cases h
  next hcontents =>
  cases h
  simp only [not_or, not_not, Bool.not_eq_true] at hcrc hid hcontents
  -- Nothing follows, so the file is the header and the rest.
  have hend : file₂ = [] := by
    rw [hcrc.1] at hextra
    simpa using hextra.symm
  have hrestlen : rest.length = get32 (head.drop 16) + 4 := by
    rw [hrest, length_take]
    exact Nat.min_eq_left hlen₂
  have hfile : file = head ++ rest := by
    have htail : file.drop headerLen = rest := by
      conv_lhs => rw [← take_append_drop (get32 (head.drop 16) + 4) (file.drop headerLen)]
      rw [← hrest, ← hfile₂, hend, append_nil]
    rw [hhead, ← htail, take_append_drop]
  have hbody : (rest.take (get32 (head.drop 16))).length = get32 (head.drop 16) := by
    rw [length_take]
    omega
  refine ⟨good_of_checks hbad hbody hcontents, ?_⟩
  have hheader := header_eq hheadlen hbad _ hbody
  rw [hid] at hheader
  have hdrop : (rest.drop (get32 (head.drop 16))).length = 4 := by
    rw [length_drop]
    omega
  have hsum : put32 (crc32 (head ++ rest.take (get32 (head.drop 16)))).toNat =
      rest.drop (get32 (head.drop 16)) := by
    rw [← hcrc.2, put32_get32 (Nat.le_of_eq hdrop.symm),
      take_of_length_le (Nat.le_of_eq hdrop)]
  rw [Record.image, ← hheader, hsum, hfile, append_assoc, take_append_drop]

/-! ## The record of an image -/

namespace Record

variable {r : Record}

theorem header_id {id : Nat} (hid : id < 2 ^ 32) : get32 ((r.header id).drop 8) = id :=
  get32_put32 hid (put32 r.count ++ put32 r.body.length)

theorem header_count (hr : r.Good) (id : Nat) : get32 ((r.header id).drop 12) = r.count := by
  refine get32_put32 ?_ (put32 r.body.length)
  by_cases h : r.language = 0
  · have := (hr.code h).1
    rw [programLimit] at this
    omega
  · have := (hr.text h).2.1
    omega

theorem header_len (hr : r.Good) (id : Nat) : get32 ((r.header id).drop 16) = r.body.length := by
  have hle := hr.body_le
  refine get32_put32 (v := r.body.length) ?_ []
  omega

theorem header_language (hr : r.Good) (id : Nat) : byteAt (r.header id) 5 = r.language := by
  have hle := hr.language_le
  show (UInt8.ofNat r.language).toNat = r.language
  rw [UInt8.toNat_ofNat']
  omega

theorem header_passes (hr : r.Good) (id : Nat) :
    headerBad (r.header id) r.count r.body.length = false := by
  have hle := hr.language_le
  rw [headerBad, header_language hr id, decide_eq_false_iff_not]
  simp only [not_or, not_not]
  refine ⟨rfl, rfl, by omega, rfl, rfl, Nat.ne_of_gt hr.count_pos, ?_⟩
  by_cases h : r.language = 0
  · obtain ⟨hlimit, hlen, -⟩ := hr.code h
    rw [if_neg (not_not.mpr h)]
    omega
  · obtain ⟨-, hlimit, hlen, -⟩ := hr.text h
    rw [if_pos h]
    omega

theorem bad_eq_false (hr : r.Good) : r.bad = false := by
  rw [bad]
  by_cases h : r.language = 0
  · rw [if_neg (not_not.mpr h), decide_eq_false_iff_not, not_not]
    exact (hr.code h).2.2
  · rw [if_pos h, decide_eq_false_iff_not]
    exact (hr.text h).2.2.2

end Record

/-- **Every image is read**, if no call fails and there are answers enough. -/
theorem readRecord_image {id : UInt32} {rs : List Transferred} {r : Record} (hr : r.Good)
    (hcalm : ∀ x ∈ rs, x.fatal = none)
    (hrs : headerLen + r.body.length + 5 ≤ rs.countP Transferred.counts) :
    ∃ rs', readRecord id rs (r.image id.toNat) = some (.ok (r, rs', [])) := by
  have himage : r.image id.toNat = r.header id.toNat ++
      (r.body ++ put32 (crc32 (r.header id.toNat ++ r.body)).toNat) := append_assoc _ _ _
  have hid : get32 ((r.header id.toNat).drop 8) = id.toNat := Record.header_id id.toNat_lt
  have hcount := Record.header_count hr id.toNat
  have hn := Record.header_len hr id.toNat
  generalize hsum : put32 (crc32 (r.header id.toNat ++ r.body)).toNat = sum at himage
  have hsumlen : sum.length = 4 := by rw [← hsum, length_put32]
  generalize hhead : r.header id.toNat = head at himage hid hcount hn hsum
  have hheadlen : head.length = headerLen := by rw [← hhead, Record.length_header]
  have htake : (head ++ (r.body ++ sum)).take headerLen = head := by rw [← hheadlen, take_left]
  have hdrop : (head ++ (r.body ++ sum)).drop headerLen = r.body ++ sum := by
    rw [← hheadlen, drop_left]
  rw [himage]
  have hlen : (head ++ (r.body ++ sum)).length = headerLen + (r.body.length + 4) := by
    rw [length_append, length_append, hheadlen, hsumlen]
  -- The three reads, each with the answers the one before left.
  obtain ⟨rs₁, hread₁, hcalm₁, hrs₁⟩ := readAll_total (n := headerLen) hcalm
    (hlen ▸ Nat.le_add_right _ _) (by omega)
  rw [htake, hdrop] at hread₁
  have hbody : r.body.length + 4 = (r.body ++ sum).length := by
    rw [length_append, hsumlen]
  obtain ⟨rs₂, hread₂, hcalm₂, hrs₂⟩ := readAll_total (n := r.body.length + 4) hcalm₁
    (Nat.le_of_eq hbody) (by omega)
  rw [hbody, take_length, drop_length] at hread₂
  obtain ⟨rs₃, hread₃⟩ := readExtra_total hcalm₂ (by omega)
  refine ⟨rs₃, ?_⟩
  have hpass : headerBad head r.count r.body.length = false :=
    hhead ▸ Record.header_passes hr id.toNat
  have hlang : byteAt head 5 = r.language := hhead ▸ Record.header_language hr id.toNat
  have hstored : get32 sum = (crc32 (head ++ r.body)).toNat := by
    have := get32_put32 (crc32 (head ++ r.body)).toNat_lt []
    rwa [append_nil, hsum] at this
  rw [readRecord, bind_of_ok hread₁]
  simp only [hcount, hn, hpass, Bool.false_eq_true, if_false]
  rw [hbody, bind_of_ok hread₂, bind_of_ok hread₃]
  simp only [take_left, drop_left, hstored, hid, hlang, Bool.false_eq_true, ne_eq,
    not_true_eq_false, or_self, if_false]
  rw [show (⟨r.language, r.count, r.body⟩ : Record).bad = false from Record.bad_eq_false hr]
  rfl

end Brickwright.HubProgram
