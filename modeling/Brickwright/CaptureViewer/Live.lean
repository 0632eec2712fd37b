import Brickwright.CaptureViewer.CaptureFile
import Brickwright.Machine.Room

/-!
# The live receiver (`host/CaptureViewer/src/CaptureViewer.Core/Live/LiveCaptureReceiver.cs`)

`RunAsync` appends what it reads to a rolling buffer and takes every session out of it that is
complete. The buffer grows by doubling, in 32-bit arithmetic. `raised_eq` says that the receiver is
the session scanner with room for 2^30 bytes: there the doubling no longer ends.
-/

namespace Brickwright.CaptureViewer

open List

def initialBufferCapacity : Nat := 4096
def readChunkBytes : Nat := 1024

/-- What one call of `ReadAsync` has put into `chunk`. -/
structure Chunk where
  bytes : List UInt8
  nonempty : bytes ≠ []
  fits : bytes.length ≤ readChunkBytes

/-- How one call of `ReadAsync` ends: with bytes, at the end of the stream, with an `IOException` or
`ObjectDisposedException`, or cancelled. -/
inductive ReadResult
  | bytes (chunk : Chunk)
  | closed
  | failed
  | cancelled

inductive Event
  | bytesReceived (chunkBytes : Nat)
  | captureReceived (scan : SessionScan)
  | streamClosed
  | receiveError
  deriving DecidableEq

def Event.scan? : Event → Option SessionScan
  | captureReceived scan => some scan
  | _ => none

/-- `capacity` is the length of `_buf`, and `buf` its first `_bufLen` bytes. -/
structure Receiver where
  capacity : Int := initialBufferCapacity
  buf : List UInt8 := []
  bytesRead : Nat := 0
  sessionsReceived : Nat := 0

namespace Receiver

/-- `none`: the loop never ends. -/
def ensureCapacity (r : Receiver) (needed : Int) : Option Receiver :=
  (grown r.capacity needed).map fun newCap => { r with capacity := newCap }

def append (r : Receiver) (src : List UInt8) : Option Receiver :=
  (r.ensureCapacity (r.buf.length + src.length)).map fun r => { r with buf := r.buf ++ src }

variable (strings : Strings) (resolveSchema : Option (UInt16 → Bool))

/-- Every session that is complete is raised, and everything up to its end is dropped. -/
def drainSessions (r : Receiver) : List SessionScan × Receiver :=
  let drained := (sessionScanner strings resolveSchema).scan r.buf
  (drained.1, { r with
    buf := drained.2
    sessionsReceived := r.sessionsReceived + drained.1.length })

/-- The loop of `RunAsync`. It is over when `EnsureCapacity` does not return. -/
def runAsync (r : Receiver) : List ReadResult → List Event
  | [] => []
  | .cancelled :: _ => []
  | .failed :: _ => [.receiveError]
  | .closed :: _ => [.streamClosed]
  | .bytes chunk :: reads =>
    match r.append chunk.bytes with
    | none => []
    | some r =>
      let r := { r with bytesRead := r.bytesRead + chunk.bytes.length }
      let drained := r.drainSessions strings resolveSchema
      .bytesReceived chunk.bytes.length :: drained.1.map .captureReceived ++
        drained.2.runAsync reads

end Receiver

variable (strings : Strings) (resolveSchema : Option (UInt16 → Bool))

/-- The sessions that `CaptureReceived` is raised with when a stream is read in these chunks. -/
def raised (chunks : List Chunk) : List SessionScan :=
  (Receiver.runAsync strings resolveSchema {} (chunks.map .bytes)).filterMap Event.scan?

namespace Receiver

/-- The array has a power of two as its length, and room for what it holds. -/
structure Sized (r : Receiver) : Prop where
  power : ∃ k ≤ 30, r.capacity = 2 ^ k
  holds : (r.buf.length : Int) ≤ r.capacity

theorem sized_default : Sized {} := ⟨⟨12, by decide, rfl⟩, by decide⟩

variable {r : Receiver} {src : List UInt8}

theorem append_of_lt (hr : r.Sized) (h : 2 ^ 30 < r.buf.length + src.length) :
    r.append src = none := by
  rw [append, ensureCapacity, grown_of_lt hr.power (by omega)]
  rfl

theorem append_of_le (hr : r.Sized) (h : r.buf.length + src.length ≤ 2 ^ 30) :
    ∃ r', r.append src = some r' ∧ r'.Sized ∧ r'.buf = r.buf ++ src := by
  obtain ⟨newCap, hgrown, hfits, hpower⟩ := grown_of_le hr.power
    (by omega : (r.buf.length + src.length : Int) ≤ 2 ^ 30)
  rw [append, ensureCapacity, hgrown]
  refine ⟨_, rfl, ⟨hpower, ?_⟩, rfl⟩
  dsimp only
  rw [length_append]
  omega

variable {strings resolveSchema}

theorem drainSessions_sized (hr : r.Sized) :
    (r.drainSessions strings resolveSchema).2.Sized := by
  refine ⟨hr.power, ?_⟩
  have hle := Scanner.length_left_le (s := sessionScanner strings resolveSchema) r.buf
  have hholds := hr.holds
  show (((sessionScanner strings resolveSchema).scan r.buf).2.length : Int) ≤ r.capacity
  omega

theorem scan?_drained (scans : List SessionScan) :
    (scans.map Event.captureReceived).filterMap Event.scan? = scans := by
  induction scans with
  | nil => rfl
  | cons scan scans ih => exact congrArg (scan :: ·) ih

/-- **The receiver is the session scanner with room for 2^30 bytes.** -/
theorem runAsync_eq (hr : r.Sized) (chunks : List Chunk) :
    (r.runAsync strings resolveSchema (chunks.map .bytes)).filterMap Event.scan? =
      ((sessionScanner strings resolveSchema).feedWithin (2 ^ 30) r.buf
        (chunks.map Chunk.bytes)).1 := by
  induction chunks generalizing r with
  | nil => rfl
  | cons chunk chunks ih =>
    rw [map_cons, map_cons, runAsync]
    rcases Nat.lt_or_ge (2 ^ 30) (r.buf.length + chunk.bytes.length) with hfull | hfits
    · rw [append_of_lt hr hfull, Scanner.feedWithin_of_lt hfull]
      rfl
    · obtain ⟨r', hr', hsized, hbuf⟩ := append_of_le hr hfits
      have hread : Sized { r' with bytesRead := r'.bytesRead + chunk.bytes.length } :=
        ⟨hsized.power, hsized.holds⟩
      rw [hr', Scanner.feedWithin_of_le hfits, ← hbuf]
      dsimp only
      rw [cons_append, filterMap_cons_none rfl, filterMap_append, scan?_drained,
        ih (drainSessions_sized hread)]
      rfl

end Receiver

variable {strings resolveSchema}

theorem raised_eq (chunks : List Chunk) : raised strings resolveSchema chunks =
    ((sessionScanner strings resolveSchema).feedWithin (2 ^ 30) [] (chunks.map Chunk.bytes)).1 :=
  Receiver.runAsync_eq Receiver.sized_default chunks

/-!
## What the live receiver raises

A framed session is a marker, a plausible meta block, as many bytes as it announces, which parse,
and one of the two terminators. Between sessions there is noise: anything without a marker.

* `extraction` — below 2^30 bytes the cut into reads does not matter. The sessions of a framed
  stream are all raised, each once and in order, exactly when no read that begins in a session or in
  the noise before it ends more than 2^30 bytes after that noise begins: noise is not dropped before
  a session has been found behind it.
* `not_extracted` — 2^30 bytes of noise, and the session behind them is never raised.
-/

open Bytes CaptureProtocol

/-- One session on the wire, and the capture its payload parses to. -/
structure Session (strings : Strings) (resolveSchema : Option (UInt16 → Bool)) where
  metaBlock : List UInt8
  payload : List UInt8
  terminator : List UInt8
  termination : CaptureTermination
  capture : CaptureFile
  length_metaBlock : metaBlock.length = sessionMetaSize
  believed : plausibleMeta strings resolveSchema metaBlock
  total : int32 (metaBlock.window 4 4) = payload.length
  terminated : disposition terminator = some termination
  parsed : CaptureFile.parse strings payload termination = .ok capture

namespace Session

variable (session : Session strings resolveSchema)

def bytes : List UInt8 :=
  btcs ++ (session.metaBlock ++ (session.payload ++ session.terminator))

theorem length_terminator : session.terminator.length = 4 := by
  have h := session.terminated
  unfold disposition at h
  split at h
  · next heq => exact congrArg List.length heq
  split at h
  · next heq => exact congrArg List.length heq
  · cases h

theorem length_bytes : session.bytes.length = payloadOff + session.payload.length + 4 := by
  simp only [bytes, length_append, session.length_metaBlock, session.length_terminator]
  simp only [payloadOff, metaOff]
  omega

/-- A capture has the bytes of the session's payload: all of them, if it is as long as its header
says. -/
def Delivers : Prop :=
  session.capture.termination = session.termination ∧
    session.capture.payload <+: session.payload ∧
    (session.capture.size = session.payload.length → session.capture.payload = session.payload)

theorem delivers : session.Delivers := by
  have h := CaptureFile.wellFormed_of_parse session.parsed
  refine ⟨h.termination, ?_, ?_⟩
  · rw [h.payload]
    exact List.take_prefix _ _
  · intro hsize
    rw [h.payload, hsize, Int.toNat_natCast, take_length]

/-- **A whole session is taken**, whatever follows it and whatever stands in it. -/
theorem examine_bytes (more : List UInt8) :
    examine strings resolveSchema (session.bytes ++ more) =
      .accept session.payload.length session.capture := by
  have hlen : (session.bytes ++ more).length =
      payloadOff + session.payload.length + 4 + more.length := by
    rw [length_append, session.length_bytes]
  have hfour := session.length_terminator
  have hmetaBlock : (session.bytes ++ more).window metaOff sessionMetaSize = session.metaBlock := by
    rw [bytes, append_assoc, append_assoc, ← session.length_metaBlock]
    exact window_append btcs _ _
  have hoff : payloadOff = (btcs ++ session.metaBlock).length := by
    rw [length_append, session.length_metaBlock]
    rfl
  have hpayload : (session.bytes ++ more).window payloadOff session.payload.length =
      session.payload := by
    have hsplit : session.bytes ++ more = (btcs ++ session.metaBlock) ++
        (session.payload ++ (session.terminator ++ more)) := by
      simp only [bytes, append_assoc]
    rw [hsplit, hoff, window_append]
  have hterminator : (session.bytes ++ more).window (payloadOff + session.payload.length) 4 =
      session.terminator := by
    have hsplit : session.bytes ++ more = (btcs ++ session.metaBlock ++ session.payload) ++
        (session.terminator ++ more) := by
      simp only [bytes, append_assoc]
    rw [hsplit, hoff, ← length_append, ← hfour, window_append]
  unfold examine
  rw [if_neg (by omega), hmetaBlock, if_neg (not_not.mpr session.believed), session.total,
    Int.toNat_natCast, if_neg (by omega), hpayload, hterminator, conclude, session.terminated]
  dsimp only
  rw [session.parsed]

end Session

structure Framed (strings : Strings) (resolveSchema : Option (UInt16 → Bool)) where
  noise : List UInt8
  session : Session strings resolveSchema
  quiet : ¬ btcs <:+: noise

namespace Framed

variable (framed : Framed strings resolveSchema)

def bytes : List UInt8 := framed.noise ++ framed.session.bytes

def scan : SessionScan where
  startIndex := framed.noise.length
  endIndex := framed.bytes.length
  capture := framed.session.capture

theorem next_bytes (more : List UInt8) :
    (sessionScanner strings resolveSchema).next (framed.bytes ++ more) =
      some (framed.bytes.length, some framed.scan) := by
  have hfound : btcs.indexOf (framed.bytes ++ more) = some framed.noise.length := by
    rw [bytes, Session.bytes, append_assoc, append_assoc]
    exact indexOf_append_needle (by decide) (by decide) framed.quiet _
  have hverdict : examine strings resolveSchema ((framed.bytes ++ more).drop framed.noise.length) =
      .accept framed.session.payload.length framed.session.capture := by
    rw [bytes, append_assoc, drop_left, framed.session.examine_bytes]
  have hend : 0 + framed.noise.length + payloadOff + framed.session.payload.length + 4 =
      framed.bytes.length := by
    rw [bytes, length_append, framed.session.length_bytes]
    omega
  show (tryScan strings resolveSchema (framed.bytes ++ more)).map _ = _
  rw [tryScan, tryScanFrom_of_indexOf hfound, hverdict]
  dsimp only
  rw [hend, Nat.zero_add]
  rfl

end Framed

theorem next_of_quiet {last : List UInt8} (h : ¬ btcs <:+: last) :
    (sessionScanner strings resolveSchema).next last = none := by
  show (tryScan strings resolveSchema last).map _ = none
  rw [tryScan, tryScanFrom_of_none (indexOf_eq_none h)]
  rfl

/-! ### Streams -/

/-- The bytes of a stream that is read in these chunks. -/
def received (chunks : List Chunk) : List UInt8 := (chunks.map Chunk.bytes).flatten

theorem raised_of_length_le {chunks : List Chunk} (h : (received chunks).length ≤ 2 ^ 30) :
    raised strings resolveSchema chunks =
      ((sessionScanner strings resolveSchema).scan (received chunks)).1 := by
  rw [raised_eq, Scanner.feedWithin_eq, Scanner.feedAll_eq Scanner.next_nil]
  · rfl
  · rw [length_nil, Nat.zero_add]
    exact h

/-- No read that begins in a session, or in the noise before it, ends more than 2^30 bytes after
that noise begins. -/
def Fits (sessions : List (Framed strings resolveSchema)) (chunks : List Chunk) : Prop :=
  Room (2 ^ 30) 0 (sessions.map fun framed => framed.bytes.length)
    (chunks.map fun chunk => chunk.bytes.length)

theorem raised_eq_iff {chunks : List Chunk} {sessions : List (Framed strings resolveSchema)}
    {last : List UInt8} (hlast : ¬ btcs <:+: last)
    (h : received chunks = sessions.flatMap Framed.bytes ++ last) :
    raised strings resolveSchema chunks = sessions.map Framed.scan ↔ Fits sessions chunks := by
  have hpieces : ∀ piece ∈ chunks.map Chunk.bytes, piece.length ≤ 2 ^ 30 := by
    intro piece hpiece
    obtain ⟨chunk, -, rfl⟩ := mem_map.mp hpiece
    exact chunk.fits.trans (by decide)
  rw [raised_eq, Scanner.feedWithin_eq_iff Framed.next_bytes (next_of_quiet hlast) hpieces h,
    map_map]
  rfl

/-- **Live capture extraction.** -/
theorem extraction (chunks : List Chunk) :
    ((received chunks).length < 2 ^ 30 → ∀ chunks', received chunks' = received chunks →
      raised strings resolveSchema chunks' = raised strings resolveSchema chunks) ∧
    ∀ (sessions : List (Framed strings resolveSchema)) (last : List UInt8),
      ¬ btcs <:+: last → received chunks = sessions.flatMap Framed.bytes ++ last →
        (raised strings resolveSchema chunks = sessions.map Framed.scan ↔ Fits sessions chunks) ∧
        ∀ framed ∈ sessions, framed.session.Delivers := by
  constructor
  · intro hlength chunks' hsame
    rw [raised_of_length_le hlength.le, raised_of_length_le (hsame ▸ hlength.le), hsame]
  · intro sessions last hlast h
    exact ⟨raised_eq_iff hlast h, fun framed _ => framed.session.delivers⟩

/-! ### A session, and what noise can do to it -/

def ascii : Strings where
  getString bytes := bytes.map fun b => UInt16.ofNat b.toNat
  isLetterOrDigit ch :=
    (0x30 ≤ ch && ch ≤ 0x39) || (0x41 ≤ ch && ch ≤ 0x5a) || (0x61 ≤ ch && ch ≤ 0x7a)

/-- A capture called `lap`, of one record, which holds a marker. -/
def lapPayload : List UInt8 :=
  [0x43, 0x41, 0x50, 0x42, 1, 0, 0x34, 0x12] ++ List.replicate 8 0 ++ [4, 0, 0, 0, 1, 0, 0, 0] ++
    [0x6c, 0x61, 0x70] ++ List.replicate 29 0 ++ [1] ++ List.replicate 7 0 ++
    List.replicate 18 0 ++ [4] ++ List.replicate 29 0 ++ btcs

def lapField : FieldDescriptor := ⟨[], 0, 0, 4, 0, []⟩

def lapCapture : CaptureFile where
  magic := fileMagic
  version := fileVersion
  schemaMagic := 0x1234
  startTimestampUs := 0
  recordSize := 4
  recordCount := 1
  schemaName := [0x6c, 0x61, 0x70]
  fields := [lapField]
  payload := lapPayload
  termination := .clean

def lap : Session ascii none where
  metaBlock := [0x34, 0x12, 0, 0, 116, 0, 0, 0, 0x6c, 0x61, 0x70] ++ List.replicate 29 0
  payload := lapPayload
  terminator := btce
  termination := .clean
  capture := lapCapture
  length_metaBlock := by decide
  believed := by decide
  total := by decide
  terminated := by decide
  parsed := by decide +kernel

/-- Half a marker before a session, and a read that ends in it. -/
def lapFramed : Framed ascii none where
  noise := [0x42, 0x54]
  session := lap
  quiet := by decide

def lapChunks : List Chunk :=
  [⟨[0x42, 0x54, 0x42], by decide, by decide⟩,
    ⟨lapFramed.bytes.drop 3, by decide, by decide +kernel⟩]

theorem lap_extracted : received lapChunks = [lapFramed].flatMap Framed.bytes ++ [] ∧
    raised ascii none lapChunks = [lapFramed.scan] ∧ lap.Delivers := by
  have hsame : received lapChunks = [lapFramed].flatMap Framed.bytes ++ [] := by decide +kernel
  have hall := (extraction lapChunks).2 [lapFramed] [] (by decide) hsame
  have hfits : Fits [lapFramed] lapChunks := by
    apply Room.of_sum_le
    decide +kernel
  exact ⟨hsame, hall.1.mpr hfits, hall.2 lapFramed (mem_singleton_self _)⟩

def telemetry : Chunk :=
  ⟨List.replicate readChunkBytes 0, ne_nil_of_length_pos (by decide +kernel),
    (length_replicate).le⟩

/-- The same session behind `n` full reads of noise. -/
def lateFramed (n : Nat) : Framed ascii none where
  noise := List.replicate (n * readChunkBytes) 0
  session := lap
  quiet h := by
    have hmem : (0x42 : UInt8) ∈ List.replicate (n * readChunkBytes) 0 := h.subset (by decide)
    exact absurd (eq_of_mem_replicate hmem) (by decide)

def lateChunks (n : Nat) : List Chunk :=
  List.replicate n telemetry ++ [⟨lap.bytes, by decide, by decide +kernel⟩]

theorem received_lateChunks (n : Nat) :
    received (lateChunks n) = [lateFramed n].flatMap Framed.bytes ++ [] := by
  simp only [received, lateChunks, lateFramed, telemetry, Framed.bytes, map_append,
    map_replicate, flatten_append, flatten_replicate_replicate, map_cons,
    map_nil, flatten_cons, flatten_nil, flatMap_cons, flatMap_nil,
    append_nil]

theorem not_fits_late {n : Nat} (h : 2 ^ 30 < n * readChunkBytes + lap.bytes.length) :
    ¬ Fits [lateFramed n] (lateChunks n) := by
  have hsizes : (lateChunks n).map (fun chunk => chunk.bytes.length) =
      List.replicate n readChunkBytes ++ [lap.bytes.length] := by
    rw [lateChunks, map_append, map_replicate, telemetry, length_replicate]
    rfl
  have hspan : (lateFramed n).bytes.length = n * readChunkBytes + lap.bytes.length := by
    rw [Framed.bytes, length_append]
    exact congrArg (· + lap.bytes.length) length_replicate
  have hpos : 0 < lap.bytes.length := by decide +kernel
  rw [Fits, hsizes, map_singleton, hspan]
  -- the read of the session is the one that does not fit
  exact Room.not_of_lt h hpos

/-- **A session behind a gigabyte of noise is lost.** -/
theorem not_extracted : ¬ ∀ (chunks : List Chunk) (sessions : List (Framed ascii none))
    (last : List UInt8), ¬ btcs <:+: last →
      received chunks = sessions.flatMap Framed.bytes ++ last →
      raised ascii none chunks = sessions.map Framed.scan := by
  intro h
  have hall := h (lateChunks (2 ^ 20)) [lateFramed (2 ^ 20)] [] (by decide)
    (received_lateChunks (2 ^ 20))
  have hlong : 2 ^ 30 < 2 ^ 20 * readChunkBytes + lap.bytes.length := by decide +kernel
  exact not_fits_late hlong ((raised_eq_iff (by decide) (received_lateChunks _)).mp hall)

end Brickwright.CaptureViewer
