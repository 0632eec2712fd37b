import Brickwright.Protocol.Hub

/-!
# Records of the Classic link

`brickwright_hub_protocol_feed_classic` keeps what it has of a record from one call to the next.
`records` says what a stream consists of; `delivered_records` that it is delivered, however the
stream is cut.
-/

namespace Brickwright.Protocol

open List

/-- A record, and whether it has priority. -/
abbrev Record := List UInt8 × Bool

abbrev EndsRecord (byte : UInt8) : Prop := byte = cr ∨ byte = lf

/-- What stands between two ends: bytes 3, each a record by itself, and a run that may be too
long. -/
def lineRecords : List UInt8 → List Record
  | [] => []
  | byte :: line =>
    if byte = interrupt then ([byte], true) :: lineRecords line
    else if (byte :: line).length ≤ classicRecordMax then [(byte :: line, false)]
    else []

/-- The records of a stream. Of a last run that has no end yet, only the bytes 3 count. -/
def records (stream : List UInt8) : List Record :=
  match _h : stream.dropWhile (¬EndsRecord ·) with
  | [] => (stream.takeWhile (· = interrupt)).map fun byte => ([byte], true)
  | _ :: rest => lineRecords (stream.takeWhile (¬EndsRecord ·)) ++ records rest
termination_by stream.length
decreasing_by
  have hle := (dropWhile_suffix (¬EndsRecord ·) (l := stream)).length_le
  rw [_h, length_cons] at hle
  exact hle

/-! ## The bytes one by one, without a limit for what is kept -/

def endRecord (run : List UInt8) : List Record :=
  if run ≠ [] ∧ run.length ≤ classicRecordMax then [(run, false)] else []

def recordByte (run : List UInt8) (byte : UInt8) : List Record × List UInt8 :=
  if EndsRecord byte then (endRecord run, [])
  else if byte = interrupt ∧ run = [] then ([([byte], true)], [])
  else ([], run ++ [byte])

def recordsFrom : List UInt8 → List UInt8 → List Record × List UInt8
  | run, [] => ([], run)
  | run, byte :: data =>
    let next := recordsFrom (recordByte run byte).2 data
    ((recordByte run byte).1 ++ next.1, next.2)

attribute [local simp] lineRecords endRecord recordByte recordsFrom

theorem recordsFrom_append (run data data' : List UInt8) :
    recordsFrom run (data ++ data') = ((recordsFrom run data).1 ++
      (recordsFrom (recordsFrom run data).2 data').1,
        (recordsFrom (recordsFrom run data).2 data').2) := by
  induction data generalizing run with
  | nil => rfl
  | cons byte data ih => simp [ih]

theorem recordsFrom_run {run line : List UInt8} (hrun : run ≠ [])
    (hline : ∀ byte ∈ line, ¬EndsRecord byte) : recordsFrom run line = ([], run ++ line) := by
  induction line generalizing run with
  | nil => simp
  | cons byte line ih =>
    have hbyte := hline byte mem_cons_self
    have hnext : recordByte run byte = ([], run ++ [byte]) := by simp [hbyte, hrun]
    rw [recordsFrom, hnext, ih (by simp) fun b hb => hline b (mem_cons_of_mem _ hb)]
    simp

theorem recordsFrom_line {line rest : List UInt8} {last : UInt8} (hlast : EndsRecord last)
    (hline : ∀ byte ∈ line, ¬EndsRecord byte) :
    (recordsFrom [] (line ++ last :: rest)).1 = lineRecords line ++ (recordsFrom [] rest).1 := by
  induction line with
  | nil => simp [hlast]
  | cons byte line ih =>
    obtain ⟨hbyte, hrest⟩ := forall_mem_cons.mp hline
    by_cases hint : byte = interrupt
    · subst hint
      simp [hbyte, ih hrest]
    · have hnext : recordByte [] byte = ([], [byte]) := by simp [hbyte, hint]
      rw [cons_append, recordsFrom, hnext, recordsFrom_append,
        recordsFrom_run (cons_ne_nil byte []) hrest]
      simp [hlast, hint]

theorem recordsFrom_open {line : List UInt8} (hline : ∀ byte ∈ line, ¬EndsRecord byte) :
    (recordsFrom [] line).1 = (line.takeWhile (· = interrupt)).map fun byte => ([byte], true) := by
  induction line with
  | nil => rfl
  | cons byte line ih =>
    obtain ⟨hbyte, hrest⟩ := forall_mem_cons.mp hline
    by_cases hint : byte = interrupt
    · subst hint
      simp [hbyte, ih hrest]
    · have hnext : recordByte [] byte = ([], [byte]) := by simp [hbyte, hint]
      rw [recordsFrom, hnext, recordsFrom_run (cons_ne_nil byte []) hrest]
      simp [hint]

theorem plain_takeWhile (stream : List UInt8) :
    ∀ byte ∈ stream.takeWhile (¬EndsRecord ·), ¬EndsRecord byte :=
  fun byte hbyte => by simpa using all_eq_true.mp all_takeWhile byte hbyte

theorem recordsFrom_eq (stream : List UInt8) : (recordsFrom [] stream).1 = records stream := by
  induction stream using records.induct with
  | case1 stream h =>
    have hsplit := takeWhile_append_dropWhile (p := (¬EndsRecord ·)) (l := stream)
    rw [h, append_nil] at hsplit
    have hrecords : records stream =
        (stream.takeWhile (· = interrupt)).map fun byte => ([byte], true) := by
      rw [records]
      split
      · rfl
      · next h' => exact nomatch h.symm.trans h'
    rw [hrecords, ← recordsFrom_open (hsplit ▸ plain_takeWhile stream)]
  | case2 stream last rest h ih =>
    have hsplit := takeWhile_append_dropWhile (p := (¬EndsRecord ·)) (l := stream)
    have hlast : EndsRecord last := by
      have hhead := List.head?_dropWhile_not (¬EndsRecord ·) stream
      rw [h] at hhead
      simpa [EndsRecord, or_iff_not_imp_left] using hhead
    have hrecords : records stream =
        lineRecords (stream.takeWhile (¬EndsRecord ·)) ++ records rest := by
      rw [records]
      split
      · next h' => exact nomatch h.symm.trans h'
      · next h' => rw [(List.cons.inj (h.symm.trans h')).2]
    rw [hrecords, ← ih, ← recordsFrom_line hlast (plain_takeWhile stream), ← h, hsplit]

/-! ## What `brickwright_hub_protocol_feed_classic` makes of it -/

namespace HubProtocol

variable {σ : Type} (callback : Kind → List UInt8 → Bool → σ → Int × σ) {p : HubProtocol}
  {context : σ} {result : Int} {run : List UInt8}

/-- The state after `run`, of which no more is kept than has room. -/
structure Carries (p : HubProtocol) (run : List UInt8) : Prop where
  classic : p.classic = run.take classicRecordMax
  drop : p.classicDrop = decide (classicRecordMax < run.length)

def deliver (context : σ) (rs : List Record) : σ :=
  rs.foldl (fun context r => (callback .classicRecord r.1 r.2 context).2) context

theorem carries_nil (h : p.classic = []) (hdrop : p.classicDrop = false) : Carries p [] :=
  ⟨h, hdrop⟩

variable {callback} (hok : ∀ data high c, (callback .classicRecord data high c).1 = 0)
include hok

theorem classicByte_carries (h : Carries p run) (byte : UInt8) :
    (classicByte callback p context result byte).status = 0 ∧
      Carries (classicByte callback p context result byte).protocol (recordByte run byte).2 ∧
      (classicByte callback p context result byte).context =
        deliver callback context (recordByte run byte).1 := by
  have hlen : p.classic.length = min classicRecordMax run.length := by
    rw [h.classic, length_take]
  have hempty : p.classic.length = 0 ↔ run = [] := by
    rw [hlen, ← length_eq_zero_iff, classicRecordMax]
    omega
  by_cases hend : EndsRecord byte
  · rw [classicByte, recordByte, if_pos hend, if_pos hend, endRecord]
    by_cases hlong : classicRecordMax < run.length
    · simp [h.drop, hlong, Nat.not_le.mpr hlong, deliver, carries_nil]
    · have hrun := h.classic.trans (take_of_length_le (Nat.not_lt.mp hlong))
      by_cases hnil : run = []
      · simp [h.drop, hrun, hnil, deliver, carries_nil]
      · simp [h.drop, hlong, Nat.not_lt.mp hlong, hrun, hnil, hok, deliver, carries_nil]
  · by_cases hint : byte = interrupt ∧ p.classic.length = 0
    · rw [classicByte, recordByte, if_neg hend, if_neg hend, if_pos hint,
        if_pos (hint.imp_right hempty.mp)]
      exact ⟨hok .., hempty.mp hint.2 ▸ h, rfl⟩
    · rw [classicByte, recordByte, if_neg hend, if_neg hend, if_neg hint,
        if_neg (mt (And.imp_right hempty.mpr) hint)]
      rcases Nat.lt_trichotomy run.length classicRecordMax with hroom | hfull | hlong
      · have hspace : p.classic.length ≠ classicRecordMax := by omega
        have hrun := h.classic.trans (take_of_length_le hroom.le)
        rw [h.drop, decide_eq_false hroom.le.not_gt, if_neg Bool.false_ne_true, if_neg hspace]
        refine ⟨rfl, ⟨?_, ?_⟩, rfl⟩
        · rw [take_of_length_le (length_append ▸ hroom), hrun]
        · simpa [h.drop, hroom.le] using Nat.succ_le_of_lt hroom
      · have hspace : p.classic.length = classicRecordMax := by omega
        rw [h.drop, decide_eq_false hfull.le.not_gt, if_neg Bool.false_ne_true, if_pos hspace]
        refine ⟨rfl, ⟨?_, ?_⟩, rfl⟩
        · rw [take_append_of_le_length hfull.ge, h.classic]
        · simp [hfull]
      · rw [h.drop, decide_eq_true hlong, if_pos rfl]
        refine ⟨rfl, ⟨?_, ?_⟩, rfl⟩
        · rw [take_append_of_le_length hlong.le, h.classic]
        · simpa [h.drop, hlong] using Nat.lt_succ_of_lt hlong

theorem feedClassicFrom_carries (h : Carries p run) (data : List UInt8) :
    (feedClassicFrom callback p context result data).2.2 =
        deliver callback context (recordsFrom run data).1 ∧
      Carries (feedClassicFrom callback p context result data).2.1 (recordsFrom run data).2 := by
  induction data generalizing p context result run with
  | nil => exact ⟨rfl, h⟩
  | cons byte data ih =>
    obtain ⟨hstatus, hnext, hcontext⟩ :=
      (@classicByte_carries σ callback p context result run) hok h byte
    simp only [feedClassicFrom, hstatus, recordsFrom]
    obtain ⟨hrest, hlast⟩ := ih hnext
    refine ⟨hrest.trans ?_, hlast⟩
    rw [hcontext, deliver, deliver, deliver, foldl_append]

theorem receiveAll_carries (h : Carries p run) (chunks : List (List UInt8)) :
    (receiveAll callback .classic p context chunks).2.2 =
      deliver callback context (recordsFrom run chunks.flatten).1 := by
  induction chunks generalizing p context run with
  | nil => rfl
  | cons chunk chunks ih =>
    obtain ⟨hcontext, hnext⟩ :=
      (@feedClassicFrom_carries σ callback p context 0 run) hok h chunk
    rw [flatten_cons, recordsFrom_append]
    refine (ih hnext).trans ?_
    rw [hcontext, deliver, deliver, deliver, foldl_append]

/-- **The records of the Classic link** are those of the stream, however it is cut. -/
theorem delivered_records (p : HubProtocol) (context : σ) (chunks : List (List UInt8)) :
    (receiveAll callback .classic p.reset context chunks).2.2 =
        deliver callback context (records chunks.flatten) ∧
      (feedClassic callback p.reset context chunks.flatten).2.2 =
        deliver callback context (records chunks.flatten) := by
  rw [← recordsFrom_eq]
  exact ⟨receiveAll_carries hok (carries_nil rfl rfl) chunks,
    (feedClassicFrom_carries hok (carries_nil rfl rfl) chunks.flatten).1⟩

omit hok

theorem delivered_records_sample :
    (receiveAll gather .classic (reset {}) [] [[65], [13, 3, 66], [10]]).2.2 =
        deliver gather [] (records [65, 13, 3, 66, 10]) ∧
      (feedClassic gather (reset {}) [] [65, 13, 3, 66, 10]).2.2 =
        deliver gather [] (records [65, 13, 3, 66, 10]) :=
  delivered_records (fun _ _ _ => rfl) {} [] [[65], [13, 3, 66], [10]]

end HubProtocol

end Brickwright.Protocol
