import Brickwright.ImuViewer.Session

/-!
# What the host makes of the stream

`decoded_iff`: the events are those of the stream as a whole, however it is cut into reads, and a
stream of frames and reply lines is taken apart into just these, exactly as long as no read that
begins in a record ends more than 2^30 bytes behind its beginning. Payload bytes that look like a
newline or like the start of a frame do not matter, since a frame is taken as a whole.

A reply line may hold any ASCII but a newline. It starts with a printable character, as `OK` and
`ERR` do: the session drops other bytes between two records.
-/

namespace Brickwright.ImuViewer

open WireConstants Decimal
open List

/-! ## Records -/

/-- A frame that the parser accepts, of the length it declares. -/
structure ValidFrame where
  bytes : List UInt8
  frame : BundleFrame
  accepted : BundleFrameParser.tryDecode bytes = some frame
  whole : declaredLen bytes = bytes.length

/-- An ASCII line that ends in `"\n"` or `"\r\n"`. -/
structure ReplyLine where
  line : String
  ascii : ∀ c ∈ line.toList, c.toNat < 0x80 ∧ c ≠ '\n'
  printable : ∀ c ∈ line.toList.head?, 0x20 ≤ c.toNat ∧ c.toNat ≤ 0x7e
  trimmed : line.toList.getLast? ≠ some '\r'
  crlf : Bool

namespace ReplyLine

def terminator (r : ReplyLine) : List UInt8 := if r.crlf then [0x0d, 0x0a] else [0x0a]

/-- The bytes of a line before its newline. -/
def body (r : ReplyLine) : List UInt8 :=
  text r.line ++ if r.crlf then [0x0d] else []

theorem bytes_eq (r : ReplyLine) : text r.line ++ r.terminator = r.body ++ [0x0a] := by
  rw [body, terminator, append_assoc]
  cases r.crlf <;> rfl

theorem of_mem_body {r : ReplyLine} {b : UInt8} (h : b ∈ r.body) :
    b ≠ 0x0a ∧ b ≠ 0xb6 := by
  rcases mem_append.mp h with h | h
  · obtain ⟨c, hc, rfl⟩ := mem_map.mp h
    obtain ⟨hlt, hne⟩ := r.ascii c hc
    have hbyte : c.toNat.toUInt8.toNat = c.toNat := by
      show c.toNat % 256 = c.toNat
      omega
    constructor
    · intro heq
      rw [heq] at hbyte
      exact hne (Char.toNat_inj.mp hbyte.symm)
    · intro heq
      rw [heq] at hbyte
      have hbig : c.toNat = 0xb6 := hbyte.symm
      omega
  · split at h
    · rw [mem_singleton.mp h]
      decide
    · cases h

end ReplyLine

inductive Record where
  | frame (f : ValidFrame)
  | reply (r : ReplyLine)

namespace Record

def bytes : Record → List UInt8
  | .frame f => f.bytes
  | .reply r => text r.line ++ r.terminator

def event : Record → Event
  | .frame f => .bundleReceived f.frame
  | .reply r => .replyLineReceived r.line

end Record

namespace BtsensorSession

/-! ## A frame -/

theorem bytes_of_magic {a b : UInt8} (h : readUInt16LittleEndian [a, b] = magic) :
    a = 0x6b ∧ b = 0xb6 := by
  have ha := a.toNat_lt
  have hb := b.toNat_lt
  have hsum : a.toNat + 256 * b.toNat = 0xb66b := by
    have hread : (UInt16.ofNat (Bytes.leNat [a, b])).toNat = 0xb66b := congrArg UInt16.toNat h
    rw [UInt16.toNat_ofNat_of_lt' (show Bytes.leNat [a, b] < 65536 by simp; omega)] at hread
    simpa using hread
  constructor
  · apply UInt8.toNat_inj.mp
    show a.toNat = 0x6b
    omega
  · apply UInt8.toNat_inj.mp
    show b.toNat = 0xb6
    omega

/-- **A frame is taken as a whole**, whatever is in it and whatever follows. -/
theorem drainStep_frame (f : ValidFrame) (more : List UInt8) : drainStep (f.bytes ++ more) =
    some (f.bytes.length, some (.bundleReceived f.frame)) := by
  obtain ⟨bytes, frame, accepted, whole⟩ := f
  have h := BundleFrameParser.decodes_of_tryDecode accepted
  have hleast : 21 ≤ bytes.length := h.least
  have hmost : bytes.length ≤ maxBundleFrameSize := whole ▸ h.declaredLen_le
  apply scanner.stable
  show drainStep bytes = _
  have hconsume : tryConsumeFrame bytes =
      ((bytes.length : Int), some (Event.bundleReceived frame)) := by
    unfold tryConsumeFrame
    rw [if_neg (by show ¬ _ < 5; omega)]
    rw [frameLen_eq_declaredLen (by show 5 ≤ _; omega), whole, h.type, if_neg (by decide),
      if_neg (by decide), if_neg (by show ¬ (_ < 21 ∨ _); omega), if_neg (Nat.lt_irrefl _),
      take_length, accepted]
  have hmagic := h.magic
  match bytes, hleast, hmagic, hconsume with
  | a :: b :: rest, hleast, hmagic, hconsume =>
    obtain ⟨rfl, rfl⟩ := bytes_of_magic (a := a) (b := b) hmagic
    rw [drainStep, if_pos ⟨rfl, rfl⟩, hconsume]
    dsimp only
    rw [if_neg (by omega), if_neg (by omega), Int.toNat_natCast]

/-! ## A line -/

theorem asciiGetString_text {line : String} (h : ∀ c ∈ line.toList, c.toNat < 0x80) :
    asciiGetString (text line) = line := by
  have hchars : (text line).map (fun b => if b < 0x80 then Char.ofNat b.toNat else '?') =
    line.toList := by
    rw [text, map_map]
    refine (map_congr_left fun c hc => ?_).trans (map_id _)
    have hlt := h c hc
    have hbyte : c.toNat.toUInt8.toNat = c.toNat := by
      show c.toNat % 256 = c.toNat
      omega
    have hascii : c.toNat.toUInt8 < 0x80 := by
      apply UInt8.lt_iff_toNat_lt.mpr
      rw [hbyte]
      exact hlt
    rw [Function.comp_apply, if_pos hascii, hbyte, Char.ofNat_toNat, id]
  rw [asciiGetString, hchars, String.ofList_toList]

theorem emitLine_body (r : ReplyLine) : emitLine r.body = .replyLineReceived r.line := by
  have htext := asciiGetString_text fun c hc => (r.ascii c hc).1
  rw [emitLine, ReplyLine.body]
  cases r.crlf with
  | true =>
    rw [if_pos rfl, List.getLast?_concat, if_pos rfl, dropLast_concat, htext]
  | false =>
    have hlast : (text r.line).getLast? ≠ some 0x0d := by
      rw [text, List.getLast?_map]
      intro h
      obtain ⟨c, hc, hcr⟩ := Option.map_eq_some_iff.mp h
      have hlt := (r.ascii c (mem_of_getLast? hc)).1
      have hbyte : c.toNat % 256 = 0x0d := congrArg UInt8.toNat hcr
      have hval : c.toNat = '\r'.toNat := by
        show c.toNat = 0x0d
        omega
      rw [Char.toNat_inj.mp hval] at hc
      exact r.trimmed hc
    simp only [Bool.false_eq_true, if_false, append_nil]
    rw [if_neg hlast, htext]

theorem isLineByte_head (r : ReplyLine) : ∀ b ∈ (r.body ++ [0x0a]).head?, isLineByte b := by
  intro b hb
  match hline : r.line.toList with
  | [] =>
    have hbody : r.body = if r.crlf then [0x0d] else [] := by
      rw [ReplyLine.body, text, hline, map_nil, nil_append]
    rw [hbody] at hb
    cases hcrlf : r.crlf with
    | true =>
      rw [hcrlf] at hb
      cases hb
      rfl
    | false =>
      rw [hcrlf] at hb
      cases hb
      rfl
  | c :: cs =>
    obtain ⟨hlo, hhi⟩ := r.printable c (by rw [hline]; rfl)
    have hhead : (r.body ++ [0x0a]).head? = some c.toNat.toUInt8 := by
      rw [ReplyLine.body, text, hline]
      rfl
    rw [hhead] at hb
    cases hb
    have hbyte : c.toNat.toUInt8.toNat = c.toNat := by
      show c.toNat % 256 = c.toNat
      omega
    have hle : 0x20 ≤ c.toNat.toUInt8 := UInt8.le_iff_toNat_le.mpr (by rw [hbyte]; exact hlo)
    have hge : c.toNat.toUInt8 ≤ 0x7e := UInt8.le_iff_toNat_le.mpr (by rw [hbyte]; exact hhi)
    simp [isLineByte, hle, hge]

/-- **A line is taken up to its newline**, whatever follows. -/
theorem drainStep_reply (r : ReplyLine) (more : List UInt8) :
    drainStep (text r.line ++ r.terminator ++ more) =
      some ((text r.line ++ r.terminator).length, some (.replyLineReceived r.line)) := by
  apply scanner.stable
  show drainStep _ = _
  rw [r.bytes_eq]
  have hnl : indexOfNewline (r.body ++ [0x0a]) = some r.body.length := by
    have hbody : r.body.findIdx? (· = 0x0a) = none := by
      rw [List.findIdx?_eq_none_iff]
      intro b hb
      exact decide_eq_false (r.of_mem_body hb).1
    rw [indexOfNewline, List.findIdx?_append, hbody]
    simp
  have hhead := isLineByte_head r
  have htake : (r.body ++ [0x0a]).take r.body.length = r.body := take_left
  have hmem : ∀ b ∈ r.body ++ [0x0a], b ≠ 0xb6 := by
    intro b hb
    rcases mem_append.mp hb with hb | hb
    · exact (r.of_mem_body hb).2
    · rw [mem_singleton.mp hb]
      decide
  rw [length_append, length_singleton]
  cases hbytes : r.body ++ [0x0a] with
  | nil => exact absurd hbytes (concat_ne_nil _ _)
  | cons b rest =>
    rw [hbytes] at hnl hhead htake hmem
    have hmagic : ¬ (b = 0x6b ∧ rest.head? = some 0xb6) := fun h =>
      hmem 0xb6 (mem_cons_of_mem _ (mem_of_head? h.2)) rfl
    rw [drainStep, if_neg hmagic, if_pos (hhead b rfl), hnl]
    dsimp only
    rw [htake, emitLine_body]

/-! ## The stream -/

theorem tryConsumeImuCap_waits {bytes : List UInt8} {frameLen : Nat}
    (h : (tryConsumeImuCap bytes frameLen).1 = 0) : bytes.length < maxBundleFrameSize := by
  have hmax : imuCapFrameSize < maxBundleFrameSize := by decide
  have hsize : 0 < imuCapFrameSize := by decide
  unfold tryConsumeImuCap at h
  split at h
  · cases h
  next hframe =>
  split at h
  · omega
  split at h
  · cases h
  · have hzero : (frameLen : Int) = 0 := h
    omega

theorem tryConsumeFrame_waits {bytes : List UInt8} (h : (tryConsumeFrame bytes).1 = 0) :
    bytes.length < maxBundleFrameSize := by
  have hmax : bundleEnvelopeSize < maxBundleFrameSize := by decide
  unfold tryConsumeFrame at h
  split at h
  · omega
  dsimp only at h
  split at h
  · exact tryConsumeImuCap_waits h
  split at h
  · cases h
  split at h
  · cases h
  split at h
  · omega
  split at h
  · cases h
  next hframe _ _ _ =>
  have hsize : 0 < bundleEnvelopeSize + bundleHeaderSize := by decide
  omega

/-- A session that waits with more bytes than a frame has waits for the end of a line. -/
theorem scanner_patient : scanner.Patient maxBundleFrameSize fun _ => True := by
  refine ⟨fun _ _ _ _ _ => trivial, fun l more n event _ hwait hlong hnext => ?_⟩
  match l, hwait, hlong, hnext with
  | b :: rest, hwait, hlong, hnext =>
    have hrest : rest ≠ [] := by
      rintro rfl
      have hmax : 1 < maxBundleFrameSize := by decide
      exact absurd hlong (Nat.not_le_of_lt hmax)
    obtain ⟨c, rest, rfl⟩ := exists_cons_of_ne_nil hrest
    replace hwait : drainStep (b :: c :: rest) = none := hwait
    replace hnext : drainStep (b :: c :: (rest ++ more)) = some (n, event) := hnext
    rw [drainStep] at hwait hnext
    by_cases hmagic : b = 0x6b ∧ (c :: rest).head? = some 0xb6
    · rw [if_pos hmagic] at hwait
      dsimp only at hwait
      split at hwait
      next hzero => exact absurd (tryConsumeFrame_waits hzero) (Nat.not_lt_of_le hlong)
      · split at hwait <;> cases hwait
    · have hmagic' : ¬ (b = 0x6b ∧ (c :: (rest ++ more)).head? = some 0xb6) := hmagic
      rw [if_neg hmagic] at hwait
      rw [if_neg hmagic'] at hnext
      by_cases hline : isLineByte b = true
      · rw [if_pos hline] at hwait hnext
        split at hwait
        next hnone =>
          rw [indexOfNewline, ← cons_append, ← cons_append, List.findIdx?_append] at hnext
          rw [indexOfNewline] at hnone
          rw [hnone] at hnext
          split at hnext
          · cases hnext
          next nl hnl =>
            cases hnext
            rw [Option.none_or] at hnl
            obtain ⟨i, -, rfl⟩ := Option.map_eq_some_iff.mp hnl
            exact ⟨by omega, rfl⟩
        · cases hwait
      · rw [if_neg hline] at hwait
        cases hwait

namespace Session

/-- The bytes of a stream that is read in these pieces. -/
def received (reads : List Read) : List UInt8 := (reads.map Read.bytes).flatten

/-- No read that begins in one of these spans of the stream ends more than 2^30 bytes after the span
begins. -/
def Fits (spans : List Nat) (reads : List Read) : Prop :=
  Room (2 ^ 30) 0 spans (reads.map fun read => read.bytes.length)

theorem sized_default : Sized {} := ⟨12, by decide, rfl⟩

theorem least_le (reads : List Read) : ∀ piece ∈ reads.map Read.bytes,
    maxBundleFrameSize + piece.length ≤ 2 ^ 30 + 1 := by
  intro piece hpiece
  obtain ⟨read, -, rfl⟩ := mem_map.mp hpiece
  have hfits := read.fits
  have hmax : maxBundleFrameSize + readBufferSize ≤ 2 ^ 30 + 1 := by decide
  omega

theorem next_record (record : Record) (more : List UInt8) :
    scanner.next (record.bytes ++ more) = some (record.bytes.length, some record.event) := by
  cases record with
  | frame f => exact drainStep_frame f more
  | reply r => exact drainStep_reply r more

theorem events_iff (reads : List Read) :
    (runReader {} reads).1 = (drainBuffer (received reads)).1 ↔
      Fits (scanner.spans (received reads)) reads := by
  have hroom := Scanner.feedWithin_eq_scan_iff scanner_patient (least_le reads) Scanner.next_nil
    trivial
  rw [map_map] at hroom
  rw [(runReader_eq sized_default reads).1]
  exact hroom

theorem records_iff {reads : List Read} {records : List Record}
    (h : received reads = records.flatMap Record.bytes) :
    ((runReader {} reads).1 = records.map Record.event ∧
        (runReader {} reads).2.map Session.buffer = some []) ↔
      Fits (records.map fun record => record.bytes.length) reads := by
  obtain ⟨hscan, hspans⟩ := Scanner.scan_records next_record Scanner.next_nil records
  rw [append_nil] at hscan hspans
  have hevents := events_iff reads
  rw [h, drainBuffer, hscan, hspans] at hevents
  rw [← hevents]
  refine ⟨And.left, fun hall => ⟨hall, ?_⟩⟩
  obtain ⟨hfst, hsnd⟩ := runReader_eq sized_default reads
  have hbytes : ([] : List UInt8) ++ (reads.map Read.bytes).flatten =
      records.flatMap Record.bytes := h
  rw [hsnd]
  apply Scanner.feedWithin_left scanner_patient (least_le reads) Scanner.next_nil trivial
  · intro piece hpiece
    obtain ⟨read, -, rfl⟩ := mem_map.mp hpiece
    exact read.nonempty
  · rw [hbytes, hscan]
  · rw [hbytes, hscan, ← hfst, hall]

/-- **The host decodes the stream.** The events are those of one `DrainBuffer` of all of it,
whatever the cut, exactly when every read fits; and a stream of frames and reply lines gives just
these, in order, with nothing left, exactly when every read fits. Up to 2^30 bytes all do. -/
theorem decoded_iff (reads : List Read) :
    ((runReader {} reads).1 = (drainBuffer (received reads)).1 ↔
        Fits (scanner.spans (received reads)) reads) ∧
      (∀ records : List Record, received reads = records.flatMap Record.bytes →
        (((runReader {} reads).1 = records.map Record.event ∧
            (runReader {} reads).2.map Session.buffer = some []) ↔
          Fits (records.map fun record => record.bytes.length) reads)) ∧
      ((received reads).length ≤ 2 ^ 30 → ∀ spans, Fits spans reads) := by
  refine ⟨events_iff reads, fun records => records_iff, fun hlength spans => ?_⟩
  apply Room.of_sum_le
  have hsum : (received reads).length = (reads.map fun read => read.bytes.length).sum := by
    rw [received, length_flatten, map_map]
    rfl
  omega

/-! ### A line that does not end -/

def fullRead : Read :=
  ⟨List.replicate readBufferSize 0x41, ne_nil_of_length_pos (by decide +kernel),
    (length_replicate).le⟩

/-- `n` full reads of one line, and its newline. -/
def lineReads (n : Nat) : List Read := List.replicate n fullRead ++ [⟨[0x0a], by decide, by decide⟩]

def longLine (n : Nat) : ReplyLine where
  line := String.ofList (List.replicate (n * readBufferSize) 'A')
  ascii c hc := by
    rw [String.toList_ofList] at hc
    rw [eq_of_mem_replicate hc]
    decide
  printable c hc := by
    rw [String.toList_ofList] at hc
    rw [eq_of_mem_replicate (mem_of_head? hc)]
    decide
  trimmed h := by
    rw [String.toList_ofList] at h
    exact absurd (eq_of_mem_replicate (mem_of_getLast? h)) (by decide)
  crlf := false

theorem longLine_bytes (n : Nat) :
    (Record.reply (longLine n)).bytes = List.replicate (n * readBufferSize) 0x41 ++ [0x0a] := by
  rw [Record.bytes, ReplyLine.terminator, longLine, text, String.toList_ofList, map_replicate]
  rfl

theorem received_lineReads (n : Nat) :
    received (lineReads n) = [Record.reply (longLine n)].flatMap Record.bytes := by
  rw [flatMap_cons, flatMap_nil, append_nil, longLine_bytes, received, lineReads,
    map_append, map_replicate, flatten_append, fullRead,
    flatten_replicate_replicate]
  rfl

theorem not_fits_line {n : Nat} (h : 2 ^ 30 < n * readBufferSize + 1) :
    ¬ Fits [(Record.reply (longLine n)).bytes.length] (lineReads n) := by
  have hsizes : (lineReads n).map (fun read => read.bytes.length) =
      List.replicate n readBufferSize ++ [1] := by
    rw [lineReads, map_append, map_replicate, fullRead, length_replicate]
    rfl
  have hspan : (Record.reply (longLine n)).bytes.length = n * readBufferSize + 1 := by
    rw [longLine_bytes, length_append, length_replicate, length_singleton]
  rw [Fits, hsizes, hspan]
  -- the read of the newline is the one that does not fit
  exact Room.not_of_lt h Nat.one_pos

/-- **A line of 2^30 characters is never raised**, nor is anything behind it. -/
theorem not_decoded : ¬ ∀ (reads : List Read) (records : List Record),
    received reads = records.flatMap Record.bytes →
      (runReader {} reads).1 = records.map Record.event ∧
        (runReader {} reads).2.map Session.buffer = some [] := by
  intro h
  have hfits := (records_iff (received_lineReads (2 ^ 20))).mp (h _ _ (received_lineReads (2 ^ 20)))
  have hlong : 2 ^ 30 < 2 ^ 20 * readBufferSize + 1 := by decide
  exact not_fits_line hlong hfits

end Session

end BtsensorSession

end Brickwright.ImuViewer
