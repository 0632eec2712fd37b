import Brickwright.Protocol.Stream.Verified

/-!
# The hub protocol, and the daemon that speaks it

`hub_protocol.c` tells the two links apart: what comes over BLE goes to the stream decoder, what
comes over the Classic link is cut into records at a CR or an LF, and a byte 3 in front of a record
is one by itself. `daemon_transport.c` packs what it is asked to send.
-/

namespace Brickwright.Protocol

/-- `enum brickwright_protocol_kind`. -/
inductive Kind where
  | classicRecord
  | bleMessage
  deriving DecidableEq, Repr

/-- `enum brickwright_hub_link`. -/
inductive Link where
  | classic
  | ble
  deriving DecidableEq, Repr

def EINVAL : Int := 22
def EMSGSIZE : Int := 90

/-- `BRICKWRIGHT_CLASSIC_RECORD_MAX`. -/
def classicRecordMax : Nat := 1024

def cr : UInt8 := 13
def lf : UInt8 := 10
def interrupt : UInt8 := 3

/-- `struct brickwright_hub_protocol`, with the record as the bytes it holds. -/
structure HubProtocol where
  ble : Stream := .reset
  classic : List UInt8 := []
  classicDrop : Bool := false
  deriving DecidableEq, Repr

namespace HubProtocol

/-- `brickwright_hub_protocol_reset`. -/
def reset (p : HubProtocol) : HubProtocol :=
  { p with ble := .reset, classic := [], classicDrop := false }

variable {σ : Type} (callback : Kind → List UInt8 → Bool → σ → Int × σ)

/-- What the loop of `brickwright_hub_protocol_feed_classic` goes on with. Every `return` in it has
a status other than 0, so 0 stands for going on. -/
structure Turn (σ : Type) where
  status : Int := 0
  result : Int
  protocol : HubProtocol
  context : σ

def classicByte (p : HubProtocol) (context : σ) (result : Int) (byte : UInt8) : Turn σ :=
  if byte = cr ∨ byte = lf then
    if p.classicDrop then
      { result := -EMSGSIZE, protocol := { p with classicDrop := false, classic := [] }
        context := context }
    else if p.classic.length ≠ 0 then
      let (status, context) := callback .classicRecord p.classic false context
      ⟨status, result, { p with classic := [] }, context⟩
    else { result := result, protocol := p, context := context }
  else if byte = interrupt ∧ p.classic.length = 0 then
    let (status, context) := callback .classicRecord [byte] true context
    ⟨status, result, p, context⟩
  else if p.classicDrop then { result := result, protocol := p, context := context }
  else if p.classic.length = classicRecordMax then
    { result := result, protocol := { p with classicDrop := true }, context := context }
  else
    { result := result, protocol := { p with classic := p.classic ++ [byte] }, context := context }

def feedClassicFrom (p : HubProtocol) (context : σ) (result : Int) :
    List UInt8 → Int × HubProtocol × σ
  | [] => (result, p, context)
  | byte :: data =>
    let t := classicByte callback p context result byte
    if t.status ≠ 0 then (t.status, t.protocol, t.context)
    else feedClassicFrom t.protocol t.context t.result data

/-- `brickwright_hub_protocol_feed_classic`. -/
def feedClassic (p : HubProtocol) (context : σ) (data : List UInt8) : Int × HubProtocol × σ :=
  feedClassicFrom callback p context 0 data

/-- `brickwright_hub_protocol_feed_ble`. -/
def feedBle (p : HubProtocol) (context : σ) (data : List UInt8) : Int × HubProtocol × σ :=
  let r := feed (callback .bleMessage) p.ble context data
  (r.status, { p with ble := r.stream }, r.context)

/-- `receive_bytes` of the daemon, with the status that it throws away. -/
def receive (link : Link) (p : HubProtocol) (context : σ) (data : List UInt8) :
    Int × HubProtocol × σ :=
  match link with
  | .classic => feedClassic callback p context data
  | .ble => feedBle callback p context data

/-- One call for each chunk, with the statuses they return. -/
def receiveAll (link : Link) (p : HubProtocol) (context : σ) :
    List (List UInt8) → List Int × HubProtocol × σ
  | [] => ([], p, context)
  | chunk :: chunks =>
    let (status, p, context) := receive callback link p context chunk
    let (statuses, p, context) := receiveAll link p context chunks
    (status :: statuses, p, context)

end HubProtocol

/-- The local `frame` of `brickwright_daemon_transport_send`, of which only what is packed is
sent. -/
def sendFrame : Region where
  cells := List.replicate (streamMaxFrame + 3) 0
  capacity := streamMaxFrame + 3
  fits := Nat.le_of_eq List.length_replicate.symm

/-- `brickwright_daemon_transport_send`: what is handed to which link, or an error. -/
def transportSend (kind : Kind) (data : List UInt8) (highPriority : Bool) :
    Except Int (Link × List UInt8) :=
  if data.length > streamMaxFrame then .error (-EINVAL)
  else
    match kind with
    | .bleMessage =>
      let w := C.pack data highPriority sendFrame
      if w.status = .ok then .ok (.ble, w.cells.take w.length) else .error (-EMSGSIZE)
    | .classicRecord =>
      if data.length > classicRecordMax then .error (-EMSGSIZE)
      else .ok (.classic, data ++ [cr, lf])

/-!
## What the daemon sends, it can receive

The two sides limit different things. The sender takes a payload of at most 1026 bytes whose frame
fits a buffer of 1029, which leaves room for a body of up to 1028 bytes; the receiver takes a body
of at most 1024. `send_received` says that a frame is received exactly if its body is no longer than
that, and that every record of the Classic link is.
-/

open List

variable {σ : Type}

/-! ### The BLE link -/

section Ble

variable {callback : List UInt8 → Bool → σ → Int × σ}

theorem feed_packed (hok : ∀ p high c, (callback p high c).1 = 0) (context : σ)
    {payload : List UInt8} (hshort : (packedBody payload).length ≤ 1024) (high : Bool) :
    feed callback .reset context (Js.pack payload high)
      = ⟨0, .reset, (callback payload high context).2⟩ := by
  cases high with
  | true =>
    have hfeed := feed_high hok [] context hshort []
    rwa [append_nil] at hfeed
  | false =>
    have hbody := feed_body callback .reset context (packedBody_plain payload)
      (by rw [Stream.reset, Stream.frame, if_neg Bool.false_ne_true, length_nil]; omega)
    have hend := feedByte_end hok (s := ⟨packedBody payload, [], false⟩) context rfl hshort
    rw [pack_eq, if_neg Bool.false_ne_true, nil_append, feed_append, hbody]
    simp only [Stream.reset, Stream.frame, Stream.setFrame, Bool.false_eq_true, if_false,
      nil_append, ne_eq, not_true_eq_false]
    rw [feed, hend]
    rfl

theorem unpack_long {frame : List UInt8} (hlong : 1024 < bodyLength frame) (payload : Region) :
    (C.unpack frame payload).status = .invalid := by
  rw [C.unpack]
  split
  · rfl
  · rw [if_pos (.inr (by exact hlong))]

theorem feedByte_full (callback : List UInt8 → Bool → σ → Int × σ) {s : Stream} (context : σ)
    {byte : UInt8} (hfull : s.frame.length = 1025) (hplain : ∀ b ∈ s.frame, b ≠ 1)
    (hbyte : byte ≠ 1) : (feedByte callback s context byte).status ≠ 0 := by
  rw [feedByte, if_neg hbyte]
  by_cases hend : byte = C.delimiterEnd
  · have hlong : 1024 < bodyLength (s.frame ++ [C.delimiterEnd]) := by
      obtain ⟨b, rest, hframe⟩ := exists_cons_of_length_pos (l := s.frame) (by omega)
      have hb : b ≠ 1 := hplain b (hframe ▸ mem_cons_self)
      rw [bodyLength, length_append, hfull, hframe, cons_append, getD_cons_zero,
        if_neg hb]
      decide
    have hinvalid := unpack_long hlong Stream.payload
    rw [if_pos hend, if_pos (by rw [hfull]; decide)]
    simp only [hinvalid]
    exact (by decide : Status.invalid.code ≠ 0)
  · have hroom : byte = C.xor ∨ s.frame.length ≥ streamMaxFrame - 1 :=
      .inr (by rw [hfull]; decide)
    rw [if_neg hend, if_pos hroom]
    dsimp only
    split <;> decide

theorem feed_long_body (callback : List UInt8 → Bool → σ → Int × σ) {s : Stream} (context : σ)
    {body : List UInt8} (hempty : s.frame = []) (hplain : ∀ b ∈ body, b ≠ 1 ∧ b ≠ 2 ∧ b ≠ 3)
    (hlong : 1024 < body.length) : (feed callback s context (body ++ [2])).status ≠ 0 := by
  have htake : (body.take 1025).length = 1025 := by rw [length_take]; omega
  have hfirst := feed_body callback s context (fun b hb => hplain b (mem_of_mem_take hb))
    (by rw [hempty, htake]; exact Nat.le_refl 1025)
  rw [hempty, nil_append] at hfirst
  obtain ⟨byte, rest, hrest⟩ := exists_cons_of_ne_nil
    (show body.drop 1025 ++ [2] ≠ [] from append_ne_nil_of_right_ne_nil _ nofun)
  have hbyte : byte ≠ 1 := by
    have hmem : byte ∈ body.drop 1025 ++ [2] := hrest ▸ mem_cons_self
    rcases mem_append.mp hmem with hdrop | hend
    · exact (hplain byte (mem_of_mem_drop hdrop)).1
    · rw [mem_singleton.mp hend]
      decide
  have hstatus := feedByte_full callback (s := s.setFrame (body.take 1025)) context
    (by rw [Stream.frame_setFrame, htake])
    (by rw [Stream.frame_setFrame]; exact fun b hb => (hplain b (mem_of_mem_take hb)).1) hbyte
  rw [← take_append_drop 1025 body, append_assoc, feed_append, hfirst, hrest]
  rw [feed, if_pos hstatus]
  exact hstatus

/-- **A frame whose body is too long** is refused. -/
theorem feed_long (callback : List UInt8 → Bool → σ → Int × σ) (context : σ) {payload : List UInt8}
    (hlong : 1024 < (packedBody payload).length) (high : Bool) :
    (feed callback .reset context (Js.pack payload high)).status ≠ 0 := by
  have hplain := packedBody_plain payload
  cases high with
  | true =>
    have hopen : feedByte callback .reset context 1 = ⟨0, ⟨[], [], true⟩, context⟩ := rfl
    rw [pack_eq, if_pos rfl, append_assoc, singleton_append, feed, hopen]
    exact feed_long_body callback context rfl hplain hlong
  | false =>
    rw [pack_eq, if_neg Bool.false_ne_true, nil_append]
    exact feed_long_body callback context rfl hplain hlong

end Ble

/-! ### The Classic link -/

namespace HubProtocol

variable {callback : Kind → List UInt8 → Bool → σ → Int × σ} {p p' : HubProtocol}
  {context context' : σ} {result : Int} {data data' : List UInt8}

theorem classicByte_result (h : result ≠ 0) (byte : UInt8) :
    (classicByte callback p context result byte).result ≠ 0 := by
  unfold classicByte
  repeat' split
  all_goals first | exact h | exact (by decide : -EMSGSIZE ≠ 0)

theorem feedClassicFrom_error (h : result ≠ 0) :
    (feedClassicFrom callback p context result data).1 ≠ 0 := by
  induction data generalizing p context result with
  | nil => exact h
  | cons byte data ih =>
    rw [feedClassicFrom]
    by_cases hstop : (classicByte callback p context result byte).status ≠ 0
    · rw [if_pos hstop]
      exact hstop
    · rw [if_neg hstop]
      exact ih (classicByte_result h byte)

/-- **A chunk cut in two**: the rest is fed if the first part was taken, and nothing is taken
back. -/
theorem feedClassicFrom_append (p : HubProtocol) (context : σ) (result : Int)
    (data data' : List UInt8) :
    (feedClassicFrom callback p context result (data ++ data')).1 ≠ 0 ∨
      (feedClassicFrom callback p context result data).1 = 0 ∧
        feedClassicFrom callback p context result (data ++ data') =
          feedClassicFrom callback (feedClassicFrom callback p context result data).2.1
            (feedClassicFrom callback p context result data).2.2 0 data' := by
  induction data generalizing p context result with
  | nil =>
    by_cases hresult : result = 0
    · subst hresult
      exact .inr ⟨rfl, rfl⟩
    · exact .inl (feedClassicFrom_error hresult)
  | cons byte data ih =>
    rw [cons_append, feedClassicFrom, feedClassicFrom]
    by_cases hstop : (classicByte callback p context result byte).status ≠ 0
    · rw [if_pos hstop]
      exact .inl hstop
    · rw [if_neg hstop, if_neg hstop]
      exact ih _ _ _

theorem receiveAll_classic {chunks : List (List UInt8)}
    (h : (feedClassic callback p context chunks.flatten).1 = 0) :
    (∀ status ∈ (receiveAll callback .classic p context chunks).1, status = 0) ∧
      (receiveAll callback .classic p context chunks).2 =
        (feedClassic callback p context chunks.flatten).2 := by
  induction chunks generalizing p context with
  | nil => exact ⟨nofun, rfl⟩
  | cons chunk chunks ih =>
    rw [flatten_cons, feedClassic] at h ⊢
    rcases (@feedClassicFrom_append _ callback) p context 0 chunk chunks.flatten with
      herror | ⟨hzero, heq⟩
    · exact absurd h herror
    · rw [heq] at h ⊢
      obtain ⟨hall, hend⟩ := ih h
      exact ⟨forall_mem_cons.mpr ⟨hzero, hall⟩, hend⟩

theorem feedClassicFrom_record {record : List UInt8} (hplain : cr ∉ record ∧ lf ∉ record)
    (hdrop : p.classicDrop = false) (hfirst : p.classic = [] → record.head? ≠ some interrupt)
    (hroom : p.classic.length + record.length ≤ classicRecordMax) (rest : List UInt8) :
    feedClassicFrom callback p context result (record ++ rest) =
      feedClassicFrom callback { p with classic := p.classic ++ record } context result rest := by
  induction record generalizing p with
  | nil => simp
  | cons byte record ih =>
    have hbyte : ¬(byte = cr ∨ byte = lf) := by
      rintro (rfl | rfl)
      · exact hplain.1 mem_cons_self
      · exact hplain.2 mem_cons_self
    have hinterrupt : ¬(byte = interrupt ∧ p.classic.length = 0) := by
      rintro ⟨rfl, hnil⟩
      exact hfirst (length_eq_zero_iff.mp hnil) rfl
    rw [length_cons] at hroom
    have hspace : p.classic.length ≠ classicRecordMax := by omega
    have hpush : classicByte callback p context result byte =
        { result := result, protocol := { p with classic := p.classic ++ [byte] }
          context := context } := by
      rw [classicByte, if_neg hbyte, if_neg hinterrupt, hdrop, if_neg Bool.false_ne_true,
        if_neg hspace]
    rw [cons_append, feedClassicFrom, hpush]
    simp only [ne_eq, not_true_eq_false, if_false]
    rw [ih (p := { p with classic := p.classic ++ [byte] })
      ⟨fun h => hplain.1 (mem_cons_of_mem _ h), fun h => hplain.2 (mem_cons_of_mem _ h)⟩
      hdrop (by simp) (by rw [length_append, length_singleton]; omega)]
    simp only [append_assoc, singleton_append]

theorem feedClassic_record (hok : ∀ k d high c, (callback k d high c).1 = 0) {record : List UInt8}
    (hplain : cr ∉ record ∧ lf ∉ record) (hfirst : record.head? ≠ some interrupt)
    (hpos : 0 < record.length) (hroom : record.length ≤ classicRecordMax) (p : HubProtocol) :
    feedClassic callback p.reset context (record ++ [cr, lf]) =
      (0, p.reset, (callback .classicRecord record false context).2) := by
  have hne : record.length ≠ 0 := by omega
  have hrecord := (@feedClassicFrom_record _ callback p.reset context 0) hplain rfl
      (fun _ => hfirst) (by simpa [reset] using hroom) [cr, lf]
  rw [feedClassic, hrecord]
  simp [feedClassicFrom, classicByte, reset, hne, hok]

theorem receiveAll_ble {chunks : List (List UInt8)}
    (h : (feed (callback .bleMessage) p.ble context chunks.flatten).status = 0) :
    (∀ status ∈ (receiveAll callback .ble p context chunks).1, status = 0) ∧
      (receiveAll callback .ble p context chunks).2.2 =
        (feed (callback .bleMessage) p.ble context chunks.flatten).context := by
  induction chunks generalizing p context with
  | nil => exact ⟨nofun, rfl⟩
  | cons chunk chunks ih =>
    rw [flatten_cons, feed_append] at h ⊢
    by_cases hstop : (feed (callback .bleMessage) p.ble context chunk).status ≠ 0
    · rw [if_pos hstop] at h
      exact absurd h hstop
    · rw [if_neg hstop] at h ⊢
      obtain ⟨hall, hend⟩ := ih (p := (feedBle callback p context chunk).2.1) h
      exact ⟨forall_mem_cons.mpr ⟨not_not.mp hstop, hall⟩, hend⟩

end HubProtocol

/-! ### Both links -/

/-- A callback that takes every message. -/
def gather (kind : Kind) (data : List UInt8) (high : Bool) (ms : List (Kind × List UInt8 × Bool)) :
    Int × List (Kind × List UInt8 × Bool) :=
  (0, ms ++ [(kind, data, high)])

/-- However the bytes are cut, a receiver that has been reset takes them without error, as one
message. -/
def Received (link : Link) (kind : Kind) (payload : List UInt8) (high : Bool) (sent : List UInt8) :
    Prop :=
  ∀ (p : HubProtocol) (chunks : List (List UInt8)), chunks.flatten = sent →
    (∀ status ∈ (p.reset.receiveAll gather link [] chunks).1, status = 0) ∧
      (p.reset.receiveAll gather link [] chunks).2.2 = [(kind, payload, high)]

theorem length_packedBody (payload : List UInt8) :
    (packedBody payload).length = payload.length + scheme.fullBlocks 0 payload + 1 := by
  rw [packedBody, length_map, scheme.length_stuff]

theorem transportSend_ble {payload frame : List UInt8} {high : Bool} {link : Link} :
    transportSend .bleMessage payload high = .ok (link, frame) ↔
      (payload.length ≤ 1026 ∧ (Js.pack payload high).length ≤ 1029) ∧
        link = .ble ∧ frame = Js.pack payload high := by
  unfold transportSend
  by_cases hlong : payload.length > streamMaxFrame
  · have hnot : ¬payload.length ≤ 1026 := Nat.not_le.mpr hlong
    rw [if_pos hlong]
    simp [hnot]
  · have hle : payload.length ≤ 1026 := Nat.not_lt.mp hlong
    rw [if_neg hlong]
    by_cases hfits : (Js.pack payload high).length ≤ 1029
    · have hpack := (@C.pack_fits _ _ sendFrame) hfits
      simp only [hpack, if_true, C.take_filled, Except.ok.injEq, Prod.mk.injEq, hle, hfits,
        true_and]
      exact and_congr eq_comm eq_comm
    · obtain ⟨l, hpack, -⟩ := (@C.pack_overflows _ _ sendFrame) (Nat.not_le.mp hfits)
      simp [hpack, hfits]

/-- A frame is received exactly if the body fits. -/
theorem received_ble_iff {payload : List UInt8} {high : Bool} :
    Received .ble .bleMessage payload high (Js.pack payload high) ↔
      (packedBody payload).length ≤ 1024 := by
  constructor
  · intro h
    by_contra hlong
    have hstatus := (h {} [Js.pack payload high] (by simp)).1
    have herror := feed_long (gather .bleMessage) [] (Nat.not_le.mp hlong) high
    exact herror (hstatus _ mem_cons_self)
  · rintro hshort p chunks hchunks
    have hfeed := (@feed_packed _ (gather .bleMessage)) (fun _ _ _ => rfl) [] hshort high
    have hall := (@HubProtocol.receiveAll_ble _ gather p.reset [] chunks)
        (by rw [hchunks]; exact congrArg Fed.status hfeed)
    refine ⟨hall.1, hall.2.trans ?_⟩
    rw [hchunks]
    exact congrArg Fed.context hfeed

theorem received_classic {record : List UInt8} (hplain : cr ∉ record ∧ lf ∉ record)
    (hfirst : record.head? ≠ some interrupt) (hpos : 0 < record.length)
    (hroom : record.length ≤ classicRecordMax) :
    Received .classic .classicRecord record false (record ++ [cr, lf]) := by
  rintro p chunks hchunks
  have hfeed := (@HubProtocol.feedClassic_record _ gather [])
    (fun _ _ _ _ => rfl) hplain hfirst hpos hroom p
  have hall := (@HubProtocol.receiveAll_classic _ gather p.reset [] chunks) (by rw [hchunks, hfeed])
  refine ⟨hall.1, ?_⟩
  rw [hall.2, hchunks, hfeed]
  rfl

/-- **What is sent is received**: a frame that the daemon hands to the BLE link, exactly if the
payload with one byte more, and one more for each full block of 84 plain bytes, is at most 1024
bytes long; and every record that it can hand to the Classic link. -/
theorem send_received (payload record : List UInt8) (high : Bool) :
    (∀ link frame, transportSend .bleMessage payload high = .ok (link, frame) →
      (Received link .bleMessage payload high frame ↔
        payload.length + scheme.fullBlocks 0 payload + 1 ≤ 1024)) ∧
    (cr ∉ record ∧ lf ∉ record → record.head? ≠ some interrupt →
      0 < record.length → record.length ≤ 1024 →
      ∃ sent, transportSend .classicRecord record high = .ok (.classic, sent) ∧
        Received .classic .classicRecord record false sent) := by
  constructor
  · intro link frame hsent
    obtain ⟨-, rfl, rfl⟩ := transportSend_ble.mp hsent
    rw [← length_packedBody]
    exact received_ble_iff
  · intro hplain hfirst hpos hroom
    refine ⟨record ++ [cr, lf], ?_, received_classic hplain hfirst hpos hroom⟩
    have hframe : ¬record.length > streamMaxFrame := by rw [streamMaxFrame]; omega
    have hrecord : ¬record.length > classicRecordMax := by rw [classicRecordMax]; omega
    rw [transportSend, if_neg hframe]
    exact if_neg hrecord

theorem send_received_sample :
    (Received .ble .bleMessage [0, 1] true (Js.pack [0, 1] true) ↔ 2 + 0 + 1 ≤ 1024) ∧
      ∃ sent, transportSend .classicRecord [65, 66] false = .ok (.classic, sent) ∧
        Received .classic .classicRecord [65, 66] false sent :=
  ⟨(send_received [0, 1] [] true).1 .ble _ (by decide +kernel),
    (send_received [] [65, 66] false).2 (by decide) (by decide) (by decide) (by decide)⟩

/-- A payload of 1024 bytes 0 is sent, and its body is one byte longer than the receiver takes. -/
theorem not_send_received :
    ¬∀ payload high link frame, transportSend .bleMessage payload high = .ok (link, frame) →
      Received link .bleMessage payload high frame := by
  intro h
  have hbody : (packedBody (List.replicate 1024 0)).length = 1025 := by
    decide +kernel
  have hsent : transportSend .bleMessage (List.replicate 1024 0) false =
      .ok (.ble, Js.pack (List.replicate 1024 0) false) := by
    refine transportSend_ble.mpr ⟨⟨by rw [length_replicate]; decide, ?_⟩, rfl, rfl⟩
    rw [pack_eq, length_append, length_append, hbody]
    decide
  have hshort := received_ble_iff.mp (h _ _ _ _ hsent)
  omega

end Brickwright.Protocol
