import Brickwright.Bluetooth.Errno
import Brickwright.Bytes.Buffers
import Brickwright.Machine.Scanner

/-!
# H4 reassembly (`zephyr_compat/src/h4.c`)

The decoder takes an HCI byte stream apart into packets and hands each to its receiver, which is a
call here. Of the buffer the model keeps the bytes written since the last `reset`, so `used` is
their number; the cells behind them are not read before they are written.

The null pointers `brickwright_h4_feed` refuses are left out.
-/

namespace Brickwright.Bluetooth

open Calls

/-- `BRICKWRIGHT_H4_MAX_PACKET`. -/
def h4MaxPacket : Nat := 2048

/-- The function `header_length`; 0 for a type it does not know. -/
def headerLengthOf (type : UInt8) : Nat :=
  if type = 0x01 then 3
  else if type = 0x04 then 2
  else if type = 0x02 then 4
  else if type = 0x03 then 3
  else 0

structure Delivery where
  type : UInt8
  packet : List UInt8
  deriving DecidableEq, Repr

/-- `struct brickwright_h4`. -/
structure H4 where
  type : UInt8
  headerLength : Nat
  expected : Nat
  packet : List UInt8
  deriving DecidableEq, Repr

namespace H4

/-- What `reset` and `brickwright_h4_init` leave. -/
def reset : H4 := ⟨0, 0, 0, []⟩

def payloadLength (h4 : H4) : Nat :=
  if h4.type = 0x01 then (h4.packet.getD 2 0).toNat
  else if h4.type = 0x04 then (h4.packet.getD 1 0).toNat
  else if h4.type = 0x02 then (h4.packet.getD 2 0).toNat ||| (h4.packet.getD 3 0).toNat <<< 8
  else (h4.packet.getD 2 0).toNat

/-- The last `if` of the loop. -/
def complete (h4 : H4) : Calls Delivery Int (Int × H4) :=
  if h4.expected ≠ 0 ∧ h4.packet.length = h4.expected then do
    let result ← perform ⟨h4.type, h4.packet⟩
    pure (result, reset)
  else pure (0, h4)

/-- The body of the `for` loop. Every `return` in it has a status other than 0, so 0 stands for
going on with the next byte. -/
def feedByte (h4 : H4) (byte : UInt8) : Calls Delivery Int (Int × H4) :=
  if h4.type = 0 then
    if headerLengthOf byte = 0 then pure (-EPROTO, { h4 with headerLength := 0 })
    else pure (0, { h4 with headerLength := headerLengthOf byte, type := byte })
  else
    let h4 := { h4 with packet := h4.packet ++ [byte] }
    if h4.expected = 0 ∧ h4.packet.length = h4.headerLength then
      let expected := h4.headerLength + h4.payloadLength
      if expected > h4MaxPacket then pure (-EMSGSIZE, reset)
      else complete { h4 with expected := expected }
    else complete h4

/-- `brickwright_h4_feed`. -/
def feed (h4 : H4) (bytes : List UInt8) : Calls Delivery Int (Int × H4) :=
  Feeding.feed feedByte h4 bytes

def feedAll (h4 : H4) (chunks : List (List UInt8)) : Calls Delivery Int (List Int × H4) :=
  Feeding.feedAll feedByte h4 chunks

end H4

/-! ## HCI packets -/

/-- The packet types of the decoder; ISO data (type 5) is none of them. -/
inductive Kind where
  | command
  | acl
  | sco
  | event
  deriving DecidableEq, Repr

namespace Kind

def type : Kind → UInt8
  | command => 0x01
  | acl => 0x02
  | sco => 0x03
  | event => 0x04

/-- How many bytes come before the length: an opcode, a handle, or an event code. -/
def headSize : Kind → Nat
  | event => 1
  | _ => 2

def lengthSize : Kind → Nat
  | acl => 2
  | _ => 1

end Kind

structure Packet where
  kind : Kind
  head : List UInt8
  body : List UInt8
  head_size : head.length = kind.headSize
  body_fits : body.length < 256 ^ kind.lengthSize

namespace Packet

def header (p : Packet) : List UInt8 := p.head ++ Bytes.leBytes p.kind.lengthSize p.body.length

def bytes (p : Packet) : List UInt8 := p.header ++ p.body

/-- The packet as it comes over the wire. -/
def wire (p : Packet) : List UInt8 := p.kind.type :: p.bytes

def delivery (p : Packet) : Delivery := ⟨p.kind.type, p.bytes⟩

end Packet

/-!
## What the decoder delivers

* `feed_packet` — a packet that fits is delivered as soon as its last byte is there, and the decoder
  starts afresh.
* `Ok` — what holds of the decoder behind every byte. The next byte always has a cell in the buffer,
  and an error leaves the decoder as `reset` does.
-/

open List

theorem headerLengthOf_type (k : Kind) : headerLengthOf k.type = k.headSize + k.lengthSize := by
  cases k <;> rfl

theorem headerLengthOf_le (type : UInt8) : headerLengthOf type ≤ 4 := by
  unfold headerLengthOf
  repeat' split
  all_goals omega

namespace Packet

variable (p : Packet)

theorem type_ne_zero : p.kind.type ≠ 0 := by
  cases p.kind <;> decide

theorem length_header : p.header.length = headerLengthOf p.kind.type := by
  rw [header, length_append, Bytes.length_leBytes, p.head_size, headerLengthOf_type]

theorem length_header_pos : 0 < p.header.length := by
  rw [length_header, headerLengthOf_type]
  cases p.kind <;> decide

theorem length_bytes : p.bytes.length = headerLengthOf p.kind.type + p.body.length := by
  rw [bytes, length_append, length_header]

end Packet

namespace H4

theorem payloadLength_header (p : Packet) (hl expected : Nat) :
    (⟨p.kind.type, hl, expected, p.header⟩ : H4).payloadLength = p.body.length := by
  obtain ⟨kind, head, body, hhead, hfits⟩ := p
  have hread : Bytes.leNat (Bytes.leBytes kind.lengthSize body.length) = body.length := by
    rw [Bytes.leNat_leBytes, Nat.mod_eq_of_lt hfits]
  have hone : kind.lengthSize = 1 →
      ((Bytes.leBytes kind.lengthSize body.length).getD 0 0).toNat = body.length := by
    intro h
    rw [h] at hread ⊢
    simpa [Bytes.leBytes] using hread
  cases kind with
  | command | sco =>
    obtain ⟨a, b, rfl⟩ := length_eq_two.mp hhead
    exact hone rfl
  | event =>
    obtain ⟨a, rfl⟩ := length_eq_one_iff.mp hhead
    exact hone rfl
  | acl =>
    obtain ⟨a, b, rfl⟩ := length_eq_two.mp hhead
    simp only [Kind.lengthSize, Bytes.leBytes, Bytes.leNat_cons, Bytes.leNat_nil] at hread
    have hlow := (UInt8.ofNat body.length).toNat_lt
    show (UInt8.ofNat body.length).toNat ||| (UInt8.ofNat (body.length / 256)).toNat <<< 8 = _
    rw [Bytes.or_shiftLeft_eq_add hlow]
    omega

variable {h4 : H4}

theorem complete_of_ne (h : ¬ (h4.expected ≠ 0 ∧ h4.packet.length = h4.expected)) :
    h4.complete = ret (0, h4) :=
  if_neg h

theorem complete_of_eq (hne : h4.expected ≠ 0) (h : h4.packet.length = h4.expected) :
    h4.complete = call ⟨h4.type, h4.packet⟩ fun result => ret (result, reset) :=
  if_pos ⟨hne, h⟩

/-! ### Packet by packet -/

/-- The decoder behind the type and the next `n` bytes of a packet. -/
def midway (p : Packet) (n : Nat) : H4 where
  type := p.kind.type
  headerLength := headerLengthOf p.kind.type
  expected := if n < p.header.length then 0 else p.bytes.length
  packet := p.bytes.take n

variable (p : Packet)

/-- **One byte of a packet that fits**: the last one delivers it. -/
theorem feedByte_midway (hsize : p.bytes.length ≤ h4MaxPacket) {n : Nat}
    (hn : n < p.bytes.length) : (midway p n).feedByte p.bytes[n] =
      if n + 1 = p.bytes.length then call p.delivery fun result => ret (result, reset)
      else ret (0, midway p (n + 1)) := by
  have hheader := p.length_header
  have hlen := p.length_bytes
  have htake : p.bytes.take n ++ [p.bytes[n]] = p.bytes.take (n + 1) := take_append_getElem hn
  have hcount : (p.bytes.take (n + 1)).length = n + 1 := length_take_of_le hn
  have hwhole : n + 1 = p.bytes.length → p.bytes.take (n + 1) = p.bytes := fun h => by
    rw [h, take_length]
  rcases Nat.lt_trichotomy (n + 1) p.header.length with hlt | heq | hgt
  · -- in the header
    have hmid : midway p n = ⟨p.kind.type, headerLengthOf p.kind.type, 0, p.bytes.take n⟩ := by
      rw [midway, if_pos (by omega)]
    rw [hmid, feedByte, if_neg p.type_ne_zero]
    dsimp only
    rw [htake, if_neg (by omega), complete_of_ne (fun h => h.1 rfl),
      if_neg (by omega), midway, if_pos hlt]
  · -- its last byte
    have hmid : midway p n = ⟨p.kind.type, headerLengthOf p.kind.type, 0, p.bytes.take n⟩ := by
      rw [midway, if_pos (by omega)]
    have hpacket : p.bytes.take (n + 1) = p.header := by
      rw [heq, Packet.bytes, take_left]
    have hnext : midway p (n + 1) =
        ⟨p.kind.type, headerLengthOf p.kind.type, p.bytes.length, p.header⟩ := by
      rw [midway, if_neg (by omega), hpacket]
    rw [hmid, feedByte, if_neg p.type_ne_zero]
    rw [htake, hpacket, if_pos ⟨rfl, hheader⟩, payloadLength_header, ← hlen,
      if_neg (Nat.not_lt.mpr hsize), ← hnext]
    by_cases hdone : n + 1 = p.bytes.length
    · have hfull : (midway p (n + 1)).packet.length = (midway p (n + 1)).expected := by
        rw [hnext, ← heq, hdone]
      have hne : (midway p (n + 1)).expected ≠ 0 := by
        rw [hnext]
        exact Nat.ne_of_gt (Nat.zero_lt_of_lt hn)
      rw [if_pos hdone, complete_of_eq hne hfull, Packet.delivery, ← hwhole hdone]
      rfl
    · rw [if_neg hdone, complete_of_ne]
      rintro ⟨-, hfull⟩
      rw [hnext] at hfull
      exact hdone (heq.trans hfull)
  · -- in the body
    have hmid : ∀ k, n ≤ k → midway p k =
        ⟨p.kind.type, headerLengthOf p.kind.type, p.bytes.length, p.bytes.take k⟩ := by
      intro k hk
      rw [midway, if_neg (by omega)]
    have hne : p.bytes.length ≠ 0 := Nat.ne_of_gt (Nat.zero_lt_of_lt hn)
    rw [hmid n (Nat.le_refl n), feedByte, if_neg p.type_ne_zero]
    rw [htake, if_neg fun h => hne h.1]
    by_cases hdone : n + 1 = p.bytes.length
    · rw [if_pos hdone, complete_of_eq hne (hcount.trans hdone), hwhole hdone]
      rfl
    · rw [if_neg hdone, complete_of_ne fun h => hdone (hcount.symm.trans h.2),
        hmid (n + 1) (Nat.le_succ n)]

theorem feed_midway (hsize : p.bytes.length ≤ h4MaxPacket) (rest : List UInt8) {n : Nat}
    (hn : n < p.bytes.length) : (midway p n).feed (p.bytes.drop n ++ rest) =
      call p.delivery fun result =>
        if result ≠ 0 then ret (result, reset) else feed reset rest := by
  induction hleft : p.bytes.length - n generalizing n with
  | zero => omega
  | succ left ih =>
    rw [drop_eq_getElem_cons hn, cons_append, feed, Feeding.feed_cons,
      feedByte_midway p hsize hn]
    by_cases hdone : n + 1 = p.bytes.length
    · rw [if_pos hdone, hdone, drop_length]
      rfl
    · rw [if_neg hdone]
      exact ih (Nat.lt_of_le_of_ne hn hdone) (by omega)

theorem feedByte_type : reset.feedByte p.kind.type = ret (0, midway p 0) := by
  have hpos := p.length_header_pos
  have hne : headerLengthOf p.kind.type ≠ 0 := by
    rw [← p.length_header]
    exact Nat.ne_of_gt hpos
  rw [feedByte, if_pos (show reset.type = 0 from rfl), if_neg hne, midway, if_pos hpos]
  rfl

theorem feedByte_shape (h4 : H4) (byte : UInt8) :
    (∃ r, h4.feedByte byte = ret r) ∨
    ∃ d, h4.feedByte byte = call d fun result => ret (result, reset) := by
  have hcomplete : ∀ h4 : H4, (∃ r, h4.complete = ret r) ∨
      ∃ d, h4.complete = call d fun result => ret (result, reset) := by
    intro h4
    unfold complete
    split
    · exact .inr ⟨_, rfl⟩
    · exact .inl ⟨_, rfl⟩
  unfold feedByte
  split
  · split
    · exact .inl ⟨_, rfl⟩
    · exact .inl ⟨_, rfl⟩
  dsimp only
  split
  · split
    · exact .inl ⟨_, rfl⟩
    · exact hcomplete _
  · exact hcomplete _

/-- **A packet that fits**: it is delivered, and the decoder starts afresh. -/
theorem feed_packet (hsize : p.bytes.length ≤ h4MaxPacket) (rest : List UInt8) :
    reset.feed (p.wire ++ rest) = call p.delivery fun result =>
      if result ≠ 0 then ret (result, reset) else feed reset rest := by
  have hpos : 0 < p.bytes.length := by
    rw [p.length_bytes, ← p.length_header]
    exact Nat.add_pos_left p.length_header_pos _
  rw [Packet.wire, cons_append, feed, Feeding.feed_cons, feedByte_type]
  exact feed_midway p hsize rest hpos

/-! ### Every byte -/

/-- What holds of the decoder behind every byte. -/
structure Ok (h4 : H4) : Prop where
  idle : h4.type = 0 → h4 = reset
  header : h4.headerLength ≤ 4
  short : h4.type ≠ 0 → h4.expected = 0 → h4.packet.length < h4.headerLength
  within : h4.expected ≠ 0 → h4.packet.length < h4.expected ∧ h4.expected ≤ h4MaxPacket

theorem ok_reset : Ok reset :=
  ⟨fun _ => rfl, Nat.zero_le _, fun h => absurd rfl h, fun h => absurd rfl h⟩

theorem Ok.index_lt (h : Ok h4) : h4.packet.length < h4MaxPacket := by
  have hheader := h.header
  by_cases htype : h4.type = 0
  · rw [h.idle htype]
    decide
  by_cases hexpected : h4.expected = 0
  · have := h.short htype hexpected
    rw [h4MaxPacket]
    omega
  · exact Nat.lt_of_lt_of_le (h.within hexpected).1 (h.within hexpected).2

theorem complete_ok (htype : h4.type ≠ 0) (hheader : h4.headerLength ≤ 4)
    (hshort : h4.expected = 0 → h4.packet.length < h4.headerLength)
    (hwithin : h4.expected ≠ 0 → h4.packet.length ≤ h4.expected ∧ h4.expected ≤ h4MaxPacket) :
    h4.complete.Ensures fun r _ => Ok r.2 ∧ (r.1 ≠ 0 → r.2 = reset) := by
  by_cases h : h4.expected ≠ 0 ∧ h4.packet.length = h4.expected
  · rw [complete_of_eq h.1 h.2]
    intro result
    exact ⟨ok_reset, fun _ => rfl⟩
  · rw [complete_of_ne h]
    refine ⟨⟨fun hzero => absurd hzero htype, hheader, fun _ => hshort, ?_⟩,
      fun hne => absurd rfl hne⟩
    intro hne
    obtain ⟨hle, hmax⟩ := hwithin hne
    exact ⟨Nat.lt_of_le_of_ne hle fun heq => h ⟨hne, heq⟩, hmax⟩

/-- **One byte** keeps the decoder in order, and an error leaves it as `reset` does. -/
theorem feedByte_ok (h : Ok h4) (byte : UInt8) :
    (h4.feedByte byte).Ensures fun r _ => Ok r.2 ∧ (r.1 ≠ 0 → r.2 = reset) := by
  have hheader := h.header
  by_cases htype : h4.type = 0
  · obtain rfl := h.idle htype
    by_cases hbyte : headerLengthOf byte = 0
    · rw [feedByte, if_pos (show reset.type = 0 from rfl), if_pos hbyte]
      exact ⟨ok_reset, fun _ => rfl⟩
    · rw [feedByte, if_pos (show reset.type = 0 from rfl), if_neg hbyte]
      refine ⟨⟨fun hzero => ?_, headerLengthOf_le byte, fun _ _ => Nat.pos_of_ne_zero hbyte,
        fun hne => absurd rfl hne⟩, fun hne => absurd rfl hne⟩
      subst hzero
      exact absurd rfl hbyte
  · have hlen : (h4.packet ++ [byte]).length = h4.packet.length + 1 := length_append
    rw [feedByte, if_neg htype]
    dsimp only
    split
    · next hfull =>
      split
      · exact ⟨ok_reset, fun _ => rfl⟩
      · next hmax =>
        refine complete_ok htype hheader (fun hzero => ?_) fun _ => ⟨?_, Nat.not_lt.mp hmax⟩
        · dsimp only at hzero
          omega
        · rw [hfull.2]
          exact Nat.le_add_right _ _
    · next hfull =>
      refine complete_ok htype hheader (fun hzero => ?_) fun hne => ?_
      · have hshort := h.short htype hzero
        have hother : (h4.packet ++ [byte]).length ≠ h4.headerLength := fun heq =>
          hfull ⟨hzero, heq⟩
        dsimp only
        omega
      · obtain ⟨hlt, hle⟩ := h.within hne
        dsimp only
        omega

theorem feed_packets {packets : List Packet} (hsize : ∀ p ∈ packets, p.bytes.length ≤ h4MaxPacket) :
    (reset.feed (packets.flatMap Packet.wire)).Ensures fun r calls =>
      (∀ c ∈ calls, c.2 = 0) →
        r.1 = 0 ∧ r.2 = reset ∧ calls.map Prod.fst = packets.map Packet.delivery := by
  induction packets with
  | nil => exact fun _ => ⟨rfl, rfl, rfl⟩
  | cons p packets ih =>
    obtain ⟨hp, hpackets⟩ := forall_mem_cons.mp hsize
    rw [flatMap_cons, feed_packet p hp _, ensures_call]
    intro result
    by_cases hresult : result ≠ 0
    · rw [if_pos hresult]
      intro hgood
      exact absurd (hgood (p.delivery, result) mem_cons_self) hresult
    · rw [if_neg hresult]
      apply (ih hpackets).mono
      intro r calls hall hgood
      obtain ⟨hstatus, hstate, hcalls⟩ := hall (forall_mem_cons.mp hgood).2
      refine ⟨hstatus, hstate, ?_⟩
      rw [map_cons, hcalls, map_cons]

end H4

/-- **Reassembly.** Packets that fit, cut into chunks anyhow, are delivered as they are, each once
and in order, as long as the receiver returns 0, and the decoder ends as it began. Whatever is fed
and returned, the next byte has a cell in the buffer, and a call that returns an error leaves the
decoder as it began, so that the next packet is delivered. -/
theorem h4_reassembly {σ : Type} (receive : Delivery → σ → Int × σ) (context : σ) :
    (∀ (packets : List Packet) (chunks : List (List UInt8)),
      (∀ p ∈ packets, p.bytes.length ≤ h4MaxPacket) →
      chunks.flatten = packets.flatMap Packet.wire →
      let o := (H4.feedAll H4.reset chunks).exec receive context
      (∀ c ∈ o.calls, c.2 = 0) →
        o.calls.map Prod.fst = packets.map Packet.delivery ∧
        (∀ status ∈ o.value.1, status = 0) ∧ o.value.2 = H4.reset) ∧
    (∀ chunks, ((H4.feedAll H4.reset chunks).exec receive context).value.2.packet.length <
      h4MaxPacket) ∧
    ∀ chunks bytes,
      let before := (H4.feedAll H4.reset chunks).exec receive context
      let o := (before.value.2.feed bytes).exec receive before.context
      o.value.1 ≠ 0 → o.value.2 = H4.reset ∧
        ∀ p : Packet, p.bytes.length ≤ h4MaxPacket →
          ((o.value.2.feed p.wire).exec receive o.context).calls.map Prod.fst = [p.delivery] := by
  have hstep : ∀ h4 byte, H4.Ok h4 →
      (h4.feedByte byte).Ensures fun r _ => H4.Ok r.2 ∧ (r.1 ≠ 0 → r.2 = H4.reset) :=
    fun h4 byte h => H4.feedByte_ok h byte
  have hok : ∀ chunks, H4.Ok ((H4.feedAll H4.reset chunks).exec receive context).value.2 := by
    intro chunks
    have hkeep : (H4.feedAll H4.reset chunks).Ensures fun r _ => H4.Ok r.2 :=
      Feeding.feedAll_invariant (fun h4 byte h => (hstep h4 byte h).mono fun _ _ hr => hr.1)
        H4.ok_reset chunks
    exact hkeep.exec receive context
  refine ⟨?_, fun chunks => (hok chunks).index_lt, ?_⟩
  · intro packets chunks hsize hcut o hgood
    have hwhole : (Feeding.feed H4.feedByte H4.reset chunks.flatten).Ensures fun r calls =>
        (∀ c ∈ calls, c.2 = 0) →
          r.1 = 0 ∧ r.2 = H4.reset ∧ calls.map Prod.fst = packets.map Packet.delivery := by
      rw [hcut]
      exact H4.feed_packets hsize
    have hall := (Feeding.feedAll_of_feed (G := fun c => c.2 = 0)
      (P := fun h4 calls => h4 = H4.reset ∧ calls.map Prod.fst = packets.map Packet.delivery)
      hwhole).exec receive context
    obtain ⟨hstatuses, hstate, hcalls⟩ := hall hgood
    exact ⟨hcalls, hstatuses, hstate⟩
  · intro chunks bytes before o hstatus
    have herror : (before.value.2.feed bytes).Ensures fun r _ => r.1 ≠ 0 → r.2 = H4.reset :=
      Feeding.feed_error (P := fun h4 => h4 = H4.reset) hstep (hok chunks) bytes
    have hreset : o.value.2 = H4.reset := herror.exec receive before.context hstatus
    refine ⟨hreset, ?_⟩
    intro p hp
    have hnil : p.wire = p.wire ++ [] := (append_nil _).symm
    rw [hreset, hnil, H4.feed_packet p hp []]
    rw [exec_call, map_cons]
    split <;> rfl

/-- A SCO packet with nothing in it, and the event of a disconnection. -/
def scoAndEvent : List Packet :=
  [⟨.sco, [0x01, 0x00], [], rfl, by decide⟩, ⟨.event, [0x05], [0, 1, 0, 0x13], rfl, by decide⟩]

/-- `-ENOTSUP`, which `brickwright_h4_netbuf_receive` returns for a SCO packet. -/
def refuseSco (d : Delivery) (_ : Unit) : Int × Unit := (if d.type = 0x03 then -95 else 0, ())

theorem h4_reassembly_split :
    ((H4.feedAll H4.reset [[0x03, 0x01], [0x00, 0x00, 0x04, 0x05, 0x04], [0, 1, 0, 0x13]]).exec
        (fun _ _ => (0, ())) ()).calls.map Prod.fst = scoAndEvent.map Packet.delivery :=
  ((h4_reassembly (fun _ _ => (0, ())) ()).1 scoAndEvent _ (by decide) (by decide)
    (by decide)).1

/-- A packet in the same chunk behind one the receiver refuses is not delivered. -/
theorem refused_drops_next :
    ¬ ∀ (receive : Delivery → Unit → Int × Unit) (packets : List Packet)
      (chunks : List (List UInt8)), (∀ p ∈ packets, p.bytes.length ≤ h4MaxPacket) →
      chunks.flatten = packets.flatMap Packet.wire →
      ((H4.feedAll H4.reset chunks).exec receive ()).calls.map Prod.fst =
        packets.map Packet.delivery := by
  intro hclaim
  have h := hclaim refuseSco scoAndEvent [scoAndEvent.flatMap Packet.wire] (by decide) (by decide)
  exact absurd h (by decide)

end Brickwright.Bluetooth
