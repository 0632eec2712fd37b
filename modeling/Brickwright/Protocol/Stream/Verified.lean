import Brickwright.Protocol.Codec.Verified
import Brickwright.Protocol.Stream.Basic

/-!
# Two priorities on one wire

A transmission is described by what its sender did: a sequence of low-priority bytes with whole
high-priority frames anywhere between them (`Item`). `messages` reads off in which order the frames
end. `stream_demultiplexes` says that the decoder delivers exactly these messages, however the bytes
are cut into chunks.

The invariant of the induction over the items is small: between two items the high buffer is empty
and the low buffer holds `cur`, the bytes of the low frame that has begun, and `cur` together with
the low bytes still to come spells the low frames still to come.
-/

namespace Brickwright.Protocol

open List

variable {σ : Type} {callback : List UInt8 → Bool → σ → Int × σ}

/-! ## Chunks -/

theorem feed_append (s : Stream) (context : σ) (data data' : List UInt8) :
    feed callback s context (data ++ data')
      = if (feed callback s context data).status ≠ 0 then feed callback s context data
        else feed callback (feed callback s context data).stream
          (feed callback s context data).context data' := by
  induction data generalizing s context with
  | nil => simp [feed, Status.code]
  | cons byte data ih =>
    simp only [cons_append, feed]
    by_cases hstop : (feedByte callback s context byte).status ≠ 0
    · simp [hstop]
    · simp only [if_neg hstop]
      exact ih _ _

/-- A transmission that is fed without error in one call is fed without error in many. -/
theorem feedAll_flatten {s : Stream} {context : σ} {chunks : List (List UInt8)}
    (h : (feed callback s context chunks.flatten).status = 0) :
    (∀ status ∈ (feedAll callback s context chunks).1, status = 0) ∧
      (feedAll callback s context chunks).2
        = ((feed callback s context chunks.flatten).stream,
            (feed callback s context chunks.flatten).context) := by
  induction chunks generalizing s context with
  | nil => exact ⟨by simp [feedAll], rfl⟩
  | cons chunk chunks ih =>
    rw [flatten_cons, feed_append] at h ⊢
    by_cases hstop : (feed callback s context chunk).status ≠ 0
    · rw [if_pos hstop] at h
      exact absurd h hstop
    · rw [if_neg hstop] at h ⊢
      obtain ⟨hall, hend⟩ := ih h
      refine ⟨?_, hend⟩
      intro status hmem
      rcases mem_cons.mp hmem with rfl | hmem
      · exact not_not.mp hstop
      · exact hall status hmem

/-! ## Frames -/

theorem feedByte_push (callback : List UInt8 → Bool → σ → Int × σ) (s : Stream) (context : σ)
    {byte : UInt8} (hplain : byte ≠ 1 ∧ byte ≠ 2 ∧ byte ≠ 3) (hroom : s.frame.length < 1025) :
    feedByte callback s context byte = ⟨0, s.setFrame (s.frame ++ [byte]), context⟩ := by
  have hfull : ¬ (byte = C.xor ∨ s.frame.length ≥ streamMaxFrame - 1) := by
    rintro (h | h)
    · exact hplain.2.2 h
    · unfold streamMaxFrame at h
      omega
  have hend : byte ≠ C.delimiterEnd := hplain.2.1
  rw [feedByte, if_neg hplain.1, if_neg hend, if_neg hfull]

theorem feedByte_close (callback : List UInt8 → Bool → σ → Int × σ) {s : Stream} (context : σ)
    {payload : List UInt8} (hframe : s.frame = packedBody payload)
    (hshort : (packedBody payload).length ≤ 1024) :
    feedByte callback s context 2
      = ⟨(callback payload s.highActive context).1, { s.setFrame [] with highActive := false },
          (callback payload s.highActive context).2⟩ := by
  have hlonger := length_lt_packedBody payload
  have hne : s.frame.length ≠ 0 := by
    rw [hframe]
    omega
  have hunpack : C.unpack (s.frame ++ [C.delimiterEnd]) Stream.payload
      = ⟨.ok, C.filled Stream.payload.cells payload, payload.length⟩ := by
    have hroom : payload.length ≤ Stream.payload.capacity := by
      show payload.length ≤ 1026
      omega
    have h := unpack_pack hshort false hroom
    rw [pack_eq] at h
    rw [hframe]
    exact h
  rw [feedByte, if_neg (by decide), if_pos (show (2 : UInt8) = C.delimiterEnd from rfl), if_pos hne]
  simp [hunpack, C.take_filled]

theorem feedByte_end (hok : ∀ p high c, (callback p high c).1 = 0) {s : Stream} (context : σ)
    {payload : List UInt8} (hframe : s.frame = packedBody payload)
    (hshort : (packedBody payload).length ≤ 1024) :
    feedByte callback s context 2
      = ⟨0, { s.setFrame [] with highActive := false },
          (callback payload s.highActive context).2⟩ := by
  rw [feedByte_close callback context hframe hshort, hok]

theorem feed_body (callback : List UInt8 → Bool → σ → Int × σ) (s : Stream) (context : σ)
    {body : List UInt8} (hplain : ∀ b ∈ body, b ≠ 1 ∧ b ≠ 2 ∧ b ≠ 3)
    (hroom : s.frame.length + body.length ≤ 1025) :
    feed callback s context body = ⟨0, s.setFrame (s.frame ++ body), context⟩ := by
  induction body generalizing s with
  | nil =>
    rw [append_nil, Stream.setFrame_frame]
    rfl
  | cons b body ih =>
    rw [length_cons] at hroom
    have hpush := feedByte_push callback s context (hplain b mem_cons_self) (by omega)
    have hrest := ih (s.setFrame (s.frame ++ [b]))
      (fun x hx => hplain x (mem_cons_of_mem b hx))
      (by rw [Stream.frame_setFrame, length_append, length_singleton]; omega)
    rw [feed, hpush]
    simp only [ne_eq, not_true_eq_false, if_false]
    rw [hrest, Stream.frame_setFrame, Stream.setFrame_setFrame, append_assoc,
      singleton_append]

/-- **A high frame**, whatever low frame it interrupts. -/
theorem feed_high (hok : ∀ p high c, (callback p high c).1 = 0) (low : List UInt8) (context : σ)
    {payload : List UInt8} (hshort : (packedBody payload).length ≤ 1024) (rest : List UInt8) :
    feed callback ⟨low, [], false⟩ context (Js.pack payload true ++ rest)
      = feed callback ⟨low, [], false⟩ (callback payload true context).2 rest := by
  have hbody := feed_body callback ⟨low, [], true⟩ context (packedBody_plain payload)
    (by rw [Stream.frame, if_pos rfl, length_nil]; omega)
  have hend := feedByte_end hok (s := ⟨low, packedBody payload, true⟩) context rfl hshort
  have hbytes : Js.pack payload true ++ rest = 1 :: (packedBody payload ++ 2 :: rest) := by
    rw [pack_eq]
    simp
  have hopen : feedByte callback ⟨low, [], false⟩ context 1 = ⟨0, ⟨low, [], true⟩, context⟩ := rfl
  rw [hbytes, feed, hopen]
  rw [feed_append, hbody]
  simp only [ne_eq, not_true_eq_false, if_false, Stream.frame, Stream.setFrame, if_true,
    nil_append]
  rw [feed, hend]
  rfl

/-! ## Transmissions -/

inductive Item where
  /-- Send one byte of the low-priority sequence. -/
  | low (byte : UInt8)
  /-- Send a whole high-priority frame. -/
  | high (payload : List UInt8)

def Item.bytes : Item → List UInt8
  | .low byte => [byte]
  | .high payload => Js.pack payload true

def Item.lowByte : Item → Option UInt8
  | .low byte => some byte
  | .high _ => none

structure Message where
  payload : List UInt8
  high : Bool
  deriving DecidableEq

/-- The messages of a transmission in the order of their terminators: a low frame ends at the next
low byte 2, a high frame with its item. -/
def messages : List (List UInt8) → List Item → List Message
  | _, [] => []
  | lows, .high payload :: items => ⟨payload, true⟩ :: messages lows items
  | lows, .low byte :: items =>
    if byte = 2 then
      match lows with
      | [] => []
      | payload :: lows => ⟨payload, false⟩ :: messages lows items
    else messages lows items

/-- The frames of a low-priority sequence. -/
def lowFrames (lows : List (List UInt8)) : List UInt8 := lows.flatMap (Js.pack · false)

theorem lowFrames_cons (payload : List UInt8) (lows : List (List UInt8)) :
    lowFrames (payload :: lows) = packedBody payload ++ 2 :: lowFrames lows := by
  rw [lowFrames, flatMap_cons, pack_eq]
  simp [lowFrames]

def Message.lowPayload (m : Message) : Option (List UInt8) :=
  if m.high then none else some m.payload

def deliver (callback : List UInt8 → Bool → σ → Int × σ) (context : σ) (ms : List Message) : σ :=
  ms.foldl (fun c m => (callback m.payload m.high c).2) context

/-- The low frame that has begun is the first of those still to come. -/
theorem open_frame {cur rest : List UInt8} {byte : UInt8} {lows : List (List UInt8)}
    (hspell : cur ++ byte :: rest = lowFrames lows) (hcur : 2 ∉ cur) :
    ∃ payload lows', lows = payload :: lows' ∧
      if byte = 2 then cur = packedBody payload ∧ rest = lowFrames lows'
      else byte ∈ packedBody payload ∧ cur.length < (packedBody payload).length := by
  cases lows with
  | nil => simp [lowFrames] at hspell
  | cons payload lows =>
    refine ⟨payload, lows, rfl, ?_⟩
    have hbody : (2 : UInt8) ∉ packedBody payload := fun h => (packedBody_plain payload 2 h).2.1 rfl
    rw [lowFrames_cons] at hspell
    rcases append_eq_append_iff.mp hspell with ⟨more, hpre, hpost⟩ | ⟨more, hpre, hpost⟩
    · cases more with
      | nil =>
        obtain ⟨rfl, hrest⟩ := cons_eq_cons.mp (by simpa using hpost : byte :: rest = 2 :: _)
        exact ⟨by simpa using hpre.symm, hrest⟩
      | cons x more =>
        obtain ⟨rfl, -⟩ := cons_eq_cons.mp hpost
        have hmem : byte ∈ packedBody payload := by simp [hpre]
        have hne : byte ≠ 2 := by
          rintro rfl
          exact hbody hmem
        rw [if_neg hne]
        exact ⟨hmem, by simp [hpre]⟩
    · cases more with
      | nil =>
        obtain ⟨rfl, hrest⟩ := cons_eq_cons.mp (by simpa using hpost : 2 :: _ = byte :: rest)
        exact ⟨by simpa using hpre, hrest.symm⟩
      | cons x more =>
        obtain ⟨rfl, -⟩ := cons_eq_cons.mp hpost
        exact absurd (by simp [hpre]) hcur

/-- **The items, one after the other.** -/
theorem feed_items (hok : ∀ p high c, (callback p high c).1 = 0) (items : List Item)
    (lows : List (List UInt8)) (cur : List UInt8) (context : σ)
    (hspell : cur ++ items.filterMap Item.lowByte = lowFrames lows) (hcur : 2 ∉ cur)
    (hlows : ∀ p ∈ lows, (packedBody p).length ≤ 1024)
    (hhighs : ∀ p, Item.high p ∈ items → (packedBody p).length ≤ 1024) :
    feed callback ⟨cur, [], false⟩ context (items.flatMap Item.bytes)
        = ⟨0, Stream.reset, deliver callback context (messages lows items)⟩ ∧
      (messages lows items).filterMap Message.lowPayload = lows := by
  induction items generalizing lows cur context with
  | nil =>
    cases lows with
    | nil =>
      obtain rfl : cur = [] := by simpa [lowFrames] using hspell
      exact ⟨rfl, rfl⟩
    | cons payload lows =>
      rw [lowFrames_cons] at hspell
      have hmem : 2 ∈ cur := by
        rw [← append_nil cur]
        exact hspell ▸ by simp
      exact absurd hmem hcur
  | cons item items ih =>
    have hhighs' : ∀ p, Item.high p ∈ items → (packedBody p).length ≤ 1024 :=
      fun p hp => hhighs p (mem_cons_of_mem item hp)
    cases item with
    -- A high frame comes and goes while the low buffer waits.
    | high payload =>
      have hshort := hhighs payload mem_cons_self
      obtain ⟨hfeed, hall⟩ := ih lows cur
        (callback payload true context).2 hspell hcur hlows hhighs'
      rw [flatMap_cons]
      refine ⟨?_, by simpa [messages, Message.lowPayload] using hall⟩
      rw [show Item.bytes (.high payload) = Js.pack payload true from rfl, feed_high hok _ _ hshort,
        hfeed]
      rfl
    | low byte =>
      obtain ⟨payload, lows', rfl, hbyte⟩ := open_frame hspell hcur
      have hshort := hlows payload mem_cons_self
      have hbytes : (Item.low byte :: items).flatMap Item.bytes
          = byte :: items.flatMap Item.bytes := rfl
      by_cases hend : byte = 2
      · rw [if_pos hend] at hbyte
        obtain ⟨rfl, hrest⟩ := hbyte
        have hstep := feedByte_end hok (s := ⟨packedBody payload, [], false⟩) context rfl hshort
        obtain ⟨hfeed, hall⟩ := ih lows' [] (callback payload false context).2 hrest (by simp)
          (fun p hp => hlows p (mem_cons_of_mem payload hp)) hhighs'
        rw [hbytes, hend, feed, hstep]
        simp only [messages, if_true]
        exact ⟨hfeed, by simpa [Message.lowPayload] using hall⟩
      · rw [if_neg hend] at hbyte
        obtain ⟨hmem, hlen⟩ := hbyte
        have hstep := feedByte_push callback ⟨cur, [], false⟩ context
          (packedBody_plain payload byte hmem) (show cur.length < 1025 by omega)
        have hcur' : 2 ∉ cur ++ [byte] := by
          intro h
          rcases mem_append.mp h with h | h
          · exact hcur h
          · exact hend (mem_singleton.mp h).symm
        obtain ⟨hfeed, hall⟩ := ih (payload :: lows') (cur ++ [byte]) context
          (by rw [append_assoc]; exact hspell) hcur' hlows hhighs'
        rw [hbytes, feed, hstep]
        simp only [messages, if_neg hend]
        exact ⟨hfeed, hall⟩

/-- **Demultiplexing.** Low frames with high frames inserted anywhere, cut into chunks anyhow: every
call succeeds, the callback gets every message once and in the order of the terminators, and the
stream ends as it began. -/
theorem stream_demultiplexes (hok : ∀ p high c, (callback p high c).1 = 0) (context : σ)
    {lows : List (List UInt8)} {items : List Item} {chunks : List (List UInt8)}
    (hspell : items.filterMap Item.lowByte = lowFrames lows)
    (hlows : ∀ p ∈ lows, bodyLength (Js.pack p false) ≤ 1024)
    (hhighs : ∀ p, Item.high p ∈ items → bodyLength (Js.pack p true) ≤ 1024)
    (hchunks : chunks.flatten = items.flatMap Item.bytes) :
    (∀ status ∈ (feedAll callback Stream.reset context chunks).1, status = 0) ∧
    (feedAll callback Stream.reset context chunks).2
      = (Stream.reset, deliver callback context (messages lows items)) ∧
    (messages lows items).filterMap Message.lowPayload = lows := by
  simp only [bodyLength_pack] at hlows hhighs
  obtain ⟨hfeed, hall⟩ := feed_items hok items lows [] context hspell (by simp) hlows hhighs
  rw [← hchunks] at hfeed
  have hstream : feed callback Stream.reset context chunks.flatten
      = ⟨0, Stream.reset, deliver callback context (messages lows items)⟩ := hfeed
  obtain ⟨hstatuses, hend⟩ := feedAll_flatten (by rw [hstream])
  rw [hstream] at hend
  exact ⟨hstatuses, hend, hall⟩

def collect (payload : List UInt8) (high : Bool) (ms : List Message) : Int × List Message :=
  (0, ms ++ [⟨payload, high⟩])

/-- The frame of `05`, interrupted after its first byte by the urgent frame of `01`. -/
def interrupted : List Item := [.low 7, .high [1], .low 6, .low 2]

theorem stream_demultiplexes_interrupted :
    (feedAll collect Stream.reset []
        [(interrupted.flatMap Item.bytes).take 2, [], (interrupted.flatMap Item.bytes).drop 2]).2
      = (Stream.reset, deliver collect [] (messages [[5]] interrupted)) := by
  have hlows : ∀ p ∈ [[(5 : UInt8)]], bodyLength (Js.pack p false) ≤ 1024 := by decide
  have hhighs : ∀ p, Item.high p ∈ interrupted → bodyLength (Js.pack p true) ≤ 1024 := by
    intro p hp
    obtain rfl : p = [1] := by simpa [interrupted] using hp
    decide
  exact (stream_demultiplexes (fun _ _ _ => rfl) [] (by decide) hlows hhighs (by simp)).2.1

/-!
## A decoder behind an error

Both decoders report a byte 3, a frame that is too long, and a frame that does not unpack. In C all
of them leave the decoder as `bw_spike_stream_reset` does. In JavaScript the last one is thrown by
`unpack`, from the middle of `push`: nobody resets the decoder, and it keeps the frame. So it is
reset behind an error exactly if no frame that ends in the chunk is one that `unpack` rejects.
-/

/-! ### In C -/

section C

/-- What the decoder itself finds fault with: a frame that does not unpack, a byte 3, or a frame
that gets too long. -/
def Stream.Faulty (s : Stream) (byte : UInt8) : Prop :=
  if byte = 1 then False
  else if byte = C.delimiterEnd then
    s.frame.length ≠ 0 ∧ (C.unpack (s.frame ++ [C.delimiterEnd]) Stream.payload).status ≠ .ok
  else byte = C.xor ∨ s.frame.length ≥ streamMaxFrame - 1

/-- A feed that stops because of a fault, and not because of what a callback returns. -/
def Reports (callback : List UInt8 → Bool → σ → Int × σ) (s : Stream) (context : σ) :
    List UInt8 → Prop
  | [] => False
  | byte :: data =>
    s.Faulty byte ∨ (feedByte callback s context byte).status = 0 ∧
      Reports callback (feedByte callback s context byte).stream
        (feedByte callback s context byte).context data

theorem feedByte_faulty {s : Stream} {byte : UInt8} (h : s.Faulty byte) (context : σ) :
    (feedByte callback s context byte).status ≠ 0 ∧
      (feedByte callback s context byte).stream = .reset := by
  unfold Stream.Faulty at h
  unfold feedByte
  split at h
  · exact h.elim
  · next hbegin =>
    rw [if_neg hbegin]
    split at h
    · next hend =>
      rw [if_pos hend, if_pos h.1]
      rw [if_pos h.2]
      refine ⟨?_, rfl⟩
      cases hstatus : (C.unpack (s.frame ++ [C.delimiterEnd]) Stream.payload).status with
      | ok => exact absurd hstatus h.2
      | invalid => exact (by decide : Status.invalid.code ≠ 0)
      | noSpace => exact (by decide : Status.noSpace.code ≠ 0)
    · next hend =>
      rw [if_neg hend, if_pos h]
      refine ⟨?_, rfl⟩
      by_cases hxor : byte = C.xor
      · rw [if_pos hxor]
        exact (by decide : Status.invalid.code ≠ 0)
      · rw [if_neg hxor]
        exact (by decide : Status.noSpace.code ≠ 0)

/-- **What `bw_spike_stream_feed` reports leaves nothing behind.** -/
theorem feed_reports {s : Stream} {context : σ} {data : List UInt8}
    (h : Reports callback s context data) :
    (feed callback s context data).status ≠ 0 ∧ (feed callback s context data).stream = .reset := by
  induction data generalizing s context with
  | nil => exact h.elim
  | cons byte data ih =>
    rw [feed]
    rcases h with hfaulty | ⟨hzero, hrest⟩
    · have hfed : (feedByte callback s context byte).status ≠ 0 ∧ _ :=
        feedByte_faulty hfaulty context
      rw [if_pos hfed.1]
      exact hfed
    · rw [if_neg (not_not.mpr hzero)]
      exact ih hrest

theorem feed_singleton (callback : List UInt8 → Bool → σ → Int × σ) (s : Stream) (context : σ)
    (byte : UInt8) : feed callback s context [byte] = feedByte callback s context byte := by
  rw [feed]
  split
  · rfl
  · next hzero =>
    have h0 : (feedByte callback s context byte).status = 0 := not_not.mp hzero
    cases hfed : feedByte callback s context byte with
    | mk status s' context' =>
      rw [hfed] at h0
      exact congrArg (Fed.mk · s' context') h0.symm

theorem feed_reset_pack (callback : List UInt8 → Bool → σ → Int × σ) (context : σ)
    {payload : List UInt8} {high : Bool} (hshort : bodyLength (Js.pack payload high) ≤ 1024) :
    feed callback .reset context (Js.pack payload high) =
      ⟨(callback payload high context).1, .reset, (callback payload high context).2⟩ := by
  rw [bodyLength_pack] at hshort
  have hbytes : Js.pack payload high = (if high then [1] else []) ++
      (packedBody payload ++ [2]) := by
    rw [pack_eq, append_assoc]
  have hframe : ∀ s : Stream, s.frame = [] →
      feed callback s context (packedBody payload ++ [2]) =
        feedByte callback (s.setFrame (packedBody payload)) context 2 := by
    intro s hempty
    have hbody := feed_body callback s context (packedBody_plain payload)
      (by rw [hempty, length_nil]; omega)
    rw [hempty, nil_append] at hbody
    rw [feed_append, hbody, if_neg (by simp)]
    exact feed_singleton callback _ context 2
  have hclose : ∀ s : Stream, s.frame = [] → s.low = [] → s.high = [] → s.highActive = high →
      feed callback s context (packedBody payload ++ [2]) =
        ⟨(callback payload high context).1, .reset, (callback payload high context).2⟩ := by
    intro s hempty hlow hhigh hactive
    have hend := feedByte_close callback context
      (Stream.frame_setFrame s (packedBody payload)) hshort
    rw [hframe s hempty, hend]
    obtain ⟨low, high', highActive⟩ := s
    subst hlow hhigh hactive
    cases highActive <;> rfl
  rw [hbytes]
  cases high with
  | false => exact hclose .reset rfl rfl rfl rfl
  | true => exact hclose ⟨[], [], true⟩ rfl rfl rfl rfl

end C

/-! ### In JavaScript -/

namespace Js.FrameDecoder

variable {τ : Type}

/-- The frames that end in `chunk`, without their terminator. What comes behind a byte 3 or a frame
that is too long is not looked at. -/
def ended (d : FrameDecoder τ) : List UInt8 → List (List UInt8)
  | [] => []
  | byte :: chunk =>
    if byte = 1 then ended { d with high := some [] } chunk
    else if byte = END then d.active :: d.close.ended chunk
    else if byte = 3 then []
    else if (d.append byte).active.length > d.maxFrameSize then []
    else (d.append byte).ended chunk

/-- A frame that `push` gives to `unpack`, and `unpack` throws. -/
def Rejected (frame : List UInt8) : Prop := frame ≠ [] ∧ unpack (frame ++ [END]) = none

instance (frame : List UInt8) : Decidable (Rejected frame) := inferInstanceAs (Decidable (_ ∧ _))

theorem ended_stamp (d : FrameDecoder τ) (t : Option τ) (chunk : List UInt8) :
    ended { d with lastByteAt := t } chunk = d.ended chunk := by
  induction chunk generalizing d with
  | nil => rfl
  | cons byte chunk ih =>
    have happend : FrameDecoder.append { d with lastByteAt := t } byte =
        { d.append byte with lastByteAt := t } := by
      unfold FrameDecoder.append
      cases d.high <;> rfl
    have hclose : FrameDecoder.close { d with lastByteAt := t } =
        { d.close with lastByteAt := t } := by
      unfold FrameDecoder.close
      cases d.high <;> rfl
    rw [ended, ended, happend, hclose, ih, ih, ← ih { d with high := some [] }]
    rfl

@[simp] theorem reset_append (d : FrameDecoder τ) (byte : UInt8) :
    (d.append byte).reset = d.reset := by
  unfold append
  cases d.high <;> rfl

@[simp] theorem reset_close (d : FrameDecoder τ) : d.close.reset = d.reset := by
  unfold close
  cases d.high <;> rfl

/-- What one byte can do: it is taken, it resets the decoder, or it ends a frame that is
rejected. -/
theorem pushByte_cases (d : FrameDecoder τ) (nowMs : τ) (byte : UInt8) (chunk : List UInt8) :
    (∃ d' more frames, d.pushByte nowMs byte = (d', .ok more) ∧ d'.reset = d.reset ∧
        d.ended (byte :: chunk) = frames ++ d'.ended chunk ∧ ∀ frame ∈ frames, ¬ Rejected frame) ∨
      (∃ e, d.pushByte nowMs byte = (d.reset, .error e) ∧ d.ended (byte :: chunk) = []) ∨
      ∃ d' frames, d.pushByte nowMs byte = (d', .error .unpack) ∧ d'.active ≠ [] ∧
        d.ended (byte :: chunk) = d'.active :: frames ∧ Rejected d'.active := by
  rw [← ended_stamp d (some nowMs)]
  unfold pushByte
  generalize hstamp : ({ d with lastByteAt := some nowMs } : FrameDecoder τ) = stamped
  have hreset : stamped.reset = d.reset := hstamp ▸ rfl
  rw [← hreset]
  rw [ended]
  by_cases hbegin : byte = 1
  · rw [if_pos hbegin, if_pos hbegin]
    exact .inl ⟨_, _, [], rfl, rfl, rfl, by simp⟩
  rw [if_neg hbegin, if_neg hbegin]
  by_cases hend : byte = END
  · rw [if_pos hend, if_pos hend]
    by_cases hempty : stamped.active.length > 0
    · rw [if_pos hempty]
      have hne : stamped.active ≠ [] := ne_nil_of_length_pos hempty
      cases hunpack : unpack (stamped.active ++ [END]) with
      | none => exact .inr (.inr ⟨_, _, rfl, hne, rfl, hne, hunpack⟩)
      | some payload =>
        refine .inl ⟨_, _, [stamped.active], rfl, reset_close stamped, rfl, ?_⟩
        intro frame hframe hrejected
        rw [mem_singleton.mp hframe, Rejected, hunpack] at hrejected
        exact Option.some_ne_none payload hrejected.2
    · rw [if_neg hempty]
      refine .inl ⟨_, _, [stamped.active], rfl, reset_close stamped, rfl, ?_⟩
      intro frame hframe hrejected
      rw [mem_singleton.mp hframe] at hrejected
      exact hempty (length_pos_of_ne_nil hrejected.1)
  rw [if_neg hend, if_neg hend]
  by_cases hcontrol : byte = 3
  · rw [if_pos hcontrol, if_pos hcontrol]
    exact .inr (.inl ⟨_, rfl, rfl⟩)
  rw [if_neg hcontrol, if_neg hcontrol]
  by_cases hlarge : (stamped.append byte).active.length > stamped.maxFrameSize
  · rw [if_pos hlarge, if_pos hlarge]
    exact .inr (.inl ⟨_, rfl, rfl⟩)
  · rw [if_neg hlarge, if_neg hlarge]
    exact .inl ⟨_, _, [], rfl, reset_append stamped byte, rfl, by simp⟩

theorem pushFrom_cases (d : FrameDecoder τ) (nowMs : τ) (payloads : List (List UInt8))
    (chunk : List UInt8) :
    (((∃ got, (pushFrom nowMs payloads d chunk).2 = .ok got) ∨
        ∃ e, pushFrom nowMs payloads d chunk = (d.reset, .error e)) ∧
          ∀ frame ∈ d.ended chunk, ¬ Rejected frame) ∨
      ((pushFrom nowMs payloads d chunk).2 = .error .unpack ∧
        (pushFrom nowMs payloads d chunk).1.active ≠ [] ∧
          ∃ frame ∈ d.ended chunk, Rejected frame) := by
  induction chunk generalizing d payloads with
  | nil => exact .inl ⟨.inl ⟨payloads, rfl⟩, by simp [ended]⟩
  | cons byte chunk ih =>
    rw [pushFrom]
    obtain ⟨d', more, frames, hpush, hreset, hended, hframes⟩ | ⟨e, hpush, hended⟩ |
      ⟨d', frames, hpush, hkept, hended, hrejected⟩ := d.pushByte_cases nowMs byte chunk
    · rw [hpush, hended, ← hreset]
      obtain ⟨hpushed, hnone⟩ | ⟨hthrown, hkept, frame, hframe, hrejected⟩ :=
        ih d' (payloads ++ more)
      · refine .inl ⟨hpushed, ?_⟩
        intro frame hframe
        rcases mem_append.mp hframe with hframe | hframe
        · exact hframes frame hframe
        · exact hnone frame hframe
      · exact .inr ⟨hthrown, hkept, frame, mem_append_right _ hframe, hrejected⟩
    · rw [hpush, hended]
      exact .inl ⟨.inr ⟨e, rfl⟩, by simp⟩
    · rw [hpush, hended]
      exact .inr ⟨rfl, hkept, d'.active, mem_cons_self, hrejected⟩

/-- A push that throws leaves the decoder as `reset` does, exactly if no frame is rejected. -/
theorem push_error_iff (d : FrameDecoder τ) (chunk : List UInt8) (nowMs : τ) :
    (∀ e, (d.push chunk nowMs).2 = .error e → (d.push chunk nowMs).1 = d.reset) ↔
      ∀ frame ∈ d.ended chunk, ¬ Rejected frame := by
  unfold push
  obtain ⟨hpushed, hnone⟩ | ⟨hthrown, hkept, frame, hframe, hrejected⟩ :=
    d.pushFrom_cases nowMs [] chunk
  · refine iff_of_true ?_ hnone
    intro e herror
    rcases hpushed with ⟨got, hok⟩ | ⟨_, hreset⟩
    · rw [hok] at herror
      exact absurd herror nofun
    · rw [hreset]
  · refine iff_of_false ?_ (fun hnone => hnone frame hframe hrejected)
    intro hreset
    rw [hreset _ hthrown] at hkept
    exact hkept rfl

/-! #### The next frame -/

theorem active_append (d : FrameDecoder τ) (byte : UInt8) :
    (d.append byte).active = d.active ++ [byte] := by
  unfold append active
  cases d.high <;> rfl

theorem close_append (d : FrameDecoder τ) (byte : UInt8) : (d.append byte).close = d.close := by
  unfold append close
  cases hhigh : d.high <;> simp

theorem pushFrom_frame (d : FrameDecoder τ) (nowMs : τ) (payloads : List (List UInt8))
    {body payload : List UInt8} (hplain : ∀ b ∈ body, b ≠ 1 ∧ b ≠ 2 ∧ b ≠ 3)
    (hroom : d.active.length + body.length ≤ d.maxFrameSize) (hne : d.active ++ body ≠ [])
    (hunpack : unpack (d.active ++ body ++ [END]) = some payload) :
    pushFrom nowMs payloads d (body ++ [END]) =
      ({ d.close with lastByteAt := some nowMs }, .ok (payloads ++ [payload])) := by
  induction body generalizing d payloads with
  | nil =>
    rw [append_nil] at hne hunpack
    have hstamp : (FrameDecoder.active { d with lastByteAt := some nowMs }) = d.active := rfl
    rw [nil_append, pushFrom, pushByte, if_neg (by decide), if_pos rfl]
    rw [hstamp, if_pos (length_pos_of_ne_nil hne), hunpack]
    unfold close
    cases d.high <;> rfl
  | cons b body ih =>
    obtain ⟨h1, h2, h3⟩ := hplain b mem_cons_self
    let d' : FrameDecoder τ := FrameDecoder.append { d with lastByteAt := some nowMs } b
    have hactive : d'.active = d.active ++ [b] := active_append _ b
    have hmax : d'.maxFrameSize = d.maxFrameSize := by
      show (FrameDecoder.append _ b).maxFrameSize = _
      cases d.high <;> rfl
    have hclose : { d'.close with lastByteAt := some nowMs } =
        { d.close with lastByteAt := some nowMs } := by
      rw [close_append]
      unfold close
      cases d.high <;> rfl
    have hpush : d.pushByte nowMs b = (d', .ok []) := by
      have hfits : ¬ d'.active.length > d.maxFrameSize := by
        rw [hactive, length_append]
        simp only [length_cons, length_nil] at hroom ⊢
        omega
      unfold pushByte
      rw [if_neg h1, if_neg (show b ≠ END from h2), if_neg h3]
      exact if_neg hfits
    rw [cons_append, pushFrom, hpush]
    dsimp only
    rw [ih d' (payloads ++ []) (fun x hx => hplain x (mem_cons_of_mem b hx)), hclose,
      append_nil]
    · rw [hactive, hmax, length_append]
      simp only [length_cons, length_nil] at hroom ⊢
      omega
    · rw [hactive]
      simp
    · rw [hactive, append_assoc d.active]
      exact hunpack

theorem push_reset_pack (d : FrameDecoder τ) (nowMs : τ) {payload : List UInt8} {high : Bool}
    (hshort : bodyLength (Js.pack payload high) ≤ d.maxFrameSize) :
    d.reset.push (Js.pack payload high) nowMs =
      ({ d.reset with lastByteAt := some nowMs }, .ok [payload]) := by
  rw [bodyLength_pack] at hshort
  have hne : packedBody payload ≠ [] := by
    intro hnil
    have hlonger := length_lt_packedBody payload
    rw [hnil] at hlonger
    exact absurd hlonger (Nat.not_lt_zero _)
  have hunpack : unpack (packedBody payload ++ [END]) = some payload := by
    have h := jsUnpack_pack payload false
    rw [pack_eq] at h
    exact h
  have hframe : ∀ start : FrameDecoder τ, start.active = [] → start.maxFrameSize = d.maxFrameSize →
      pushFrom nowMs [] start (packedBody payload ++ [2]) =
        ({ start.close with lastByteAt := some nowMs }, .ok [payload]) := by
    intro start hempty hmax
    refine start.pushFrom_frame nowMs [] (packedBody_plain payload) ?_ ?_ ?_
    · rw [hempty, length_nil, Nat.zero_add, hmax]
      exact hshort
    · rw [hempty]
      exact hne
    · rw [hempty]
      exact hunpack
  rw [pack_eq, push]
  cases high with
  | false => exact hframe d.reset rfl rfl
  | true => exact hframe ⟨d.maxFrameSize, d.timeoutMs, [], some [], some nowMs⟩ rfl rfl

end Js.FrameDecoder

/-! ### Both -/

/-- Behind a fault that is reported the stream is as after a reset, so that the next frame comes
through. -/
def Resynchronises {σ : Type} (callback : List UInt8 → Bool → σ → Int × σ) (s : Stream)
    (context : σ) (data : List UInt8) : Prop :=
  Reports callback s context data →
    (feed callback s context data).stream = .reset ∧
      ∀ c payload high, bodyLength (Js.pack payload high) ≤ 1024 →
        feed callback (feed callback s context data).stream c (Js.pack payload high) =
          ⟨(callback payload high c).1, .reset, (callback payload high c).2⟩

def Js.FrameDecoder.Resynchronises {τ : Type} (d : Js.FrameDecoder τ) (chunk : List UInt8)
    (nowMs : τ) : Prop :=
  ∀ e, (d.push chunk nowMs).2 = .error e →
    (d.push chunk nowMs).1 = d.reset ∧
      ∀ later payload high, bodyLength (Js.pack payload high) ≤ d.maxFrameSize →
        ((d.push chunk nowMs).1.push (Js.pack payload high) later).2 = .ok [payload]

theorem resynchronises_feed {σ : Type} (callback : List UInt8 → Bool → σ → Int × σ) (s : Stream)
    (context : σ) (data : List UInt8) : Resynchronises callback s context data := by
  intro hreports
  have hreset := (feed_reports hreports).2
  refine ⟨hreset, ?_⟩
  intro c payload high hshort
  rw [hreset]
  exact feed_reset_pack callback c hshort

/-- **The decoders resynchronise exactly if JavaScript's `unpack` rejects no frame that ends in the
chunk.** -/
theorem resynchronises {σ τ : Type} (callback : List UInt8 → Bool → σ → Int × σ) (s : Stream)
    (context : σ) (data : List UInt8) (d : Js.FrameDecoder τ) (chunk : List UInt8) (nowMs : τ) :
    Resynchronises callback s context data ∧ d.Resynchronises chunk nowMs ↔
      ∀ frame ∈ d.ended chunk, ¬ Js.FrameDecoder.Rejected frame := by
  rw [← d.push_error_iff chunk nowMs]
  constructor
  · rintro ⟨-, hjs⟩ e herror
    exact (hjs e herror).1
  · intro hreset
    refine ⟨resynchronises_feed callback s context data, ?_⟩
    intro e herror
    refine ⟨hreset e herror, ?_⟩
    intro later payload high hshort
    rw [hreset e herror, d.push_reset_pack later hshort]

/-- A code byte that is no code byte: the decoder that has just been made keeps it. -/
theorem not_resynchronises :
    ¬ ∀ (d : Js.FrameDecoder Nat) (chunk : List UInt8) (nowMs : Nat),
      d.Resynchronises chunk nowMs := by
  intro h
  exact absurd (h (.new 4096 5000) [5, 2] 0 .unpack (by decide +kernel)).1 (by decide +kernel)

end Brickwright.Protocol
