import Brickwright.Bluetooth.H4

/-!
# The eHCILL power protocol (`zephyr_compat/src/ehcill.c`)

The controller announces with single bytes between HCI packets that it goes to sleep or wakes up.
While it sleeps, frames are kept in a buffer, of which the model keeps the bytes up to
`pending_length`. The callback `write` and the receiver of the H4 decoder are calls here. A write is
named by the line that makes it, so that control bytes and frame bytes can be told apart.

The null pointers that the functions refuse are left out.
-/

namespace Brickwright.Bluetooth

open Calls

/-- `BRICKWRIGHT_EHCILL_PENDING_MAX`. -/
def ehcillPendingMax : Nat := 4096

inductive EhcillState where
  | awake
  | asleep
  | waking
  deriving DecidableEq, Repr

inductive EhcillCall where
  /-- `write` in `write_control`. -/
  | control (byte : UInt8)
  /-- `write` in `wake`. -/
  | flush (pending : List UInt8)
  /-- `write` in `brickwright_ehcill_send`. -/
  | frame (frame : List UInt8)
  /-- The receiver of the H4 decoder. -/
  | deliver (delivery : Delivery)
  deriving DecidableEq, Repr

/-- `struct brickwright_ehcill`, with the decoder it points to. -/
structure Ehcill where
  state : EhcillState
  h4 : H4
  pending : List UInt8
  deriving DecidableEq, Repr

namespace Ehcill

def sleepInd : UInt8 := 0x30
def sleepAck : UInt8 := 0x31
def wakeInd : UInt8 := 0x32
def wakeAck : UInt8 := 0x33

/-- `brickwright_ehcill_init`, with a fresh decoder. -/
def init : Ehcill := ⟨.awake, H4.reset, []⟩

variable (e : Ehcill)

def wake : Calls EhcillCall Int (Int × Ehcill) :=
  if e.pending.length = 0 then pure (0, { e with state := .awake })
  else do
    let result ← perform (.flush e.pending)
    if result = 0 then pure (result, { e with pending := [], state := .awake })
    else pure (result, e)

/-- The `switch` of `brickwright_ehcill_feed`. -/
def control (value : UInt8) : Calls EhcillCall Int (Int × Ehcill) :=
  if value = sleepInd then
    if e.state = .waking then pure (-EPROTO, e)
    else do
      let result ← perform (.control sleepAck)
      if result = 0 then pure (result, { e with state := .asleep }) else pure (result, e)
  else if value = sleepAck then pure (-EPROTO, e)
  else if value = wakeInd then do
    let result ← perform (.control wakeAck)
    if result = 0 then e.wake else pure (result, e)
  else
    if e.state = .awake then pure (0, e)
    else if e.state ≠ .waking then pure (-EPROTO, e)
    else e.wake

def IsControl (value : UInt8) : Prop := e.h4.type = 0 ∧ sleepInd ≤ value ∧ value ≤ wakeAck

instance (value : UInt8) : Decidable (e.IsControl value) :=
  inferInstanceAs (Decidable (e.h4.type = 0 ∧ sleepInd ≤ value ∧ value ≤ wakeAck))

/-- The body of the `for` loop. -/
def feedByte (value : UInt8) : Calls EhcillCall Int (Int × Ehcill) :=
  if e.IsControl value then e.control value
  else do
    let (result, h4) ← (e.h4.feed [value]).lift .deliver
    pure (result, { e with h4 := h4 })

/-- `brickwright_ehcill_feed`. -/
def feed (bytes : List UInt8) : Calls EhcillCall Int (Int × Ehcill) :=
  Feeding.feed feedByte e bytes

/-- `brickwright_ehcill_send`. -/
def send (frame : List UInt8) : Calls EhcillCall Int (Int × Ehcill) :=
  if frame.length = 0 then pure (-EINVAL, e)
  else if e.state = .awake then do
    let result ← perform (.frame frame)
    pure (result, e)
  else if frame.length > ehcillPendingMax - e.pending.length then pure (-ENOBUFS, e)
  else
    let e := { e with pending := e.pending ++ frame }
    if e.state = .asleep then do
      let result ← perform (.control wakeInd)
      if result ≠ 0 then
        pure (result, { e with pending := e.pending.take (e.pending.length - frame.length) })
      else pure (0, { e with state := .waking })
    else pure (0, e)

/-- `brickwright_ehcill_abort`. -/
def abort : Ehcill := { e with pending := [], state := .asleep }

end Ehcill

/-! ## Sends and received bytes -/

/-- The transport feeds the bytes it has read one at a time. -/
inductive EhcillRequest where
  | send (frame : List UInt8)
  | receive (byte : UInt8)
  deriving DecidableEq, Repr

def Ehcill.serve (e : Ehcill) : EhcillRequest → Calls EhcillCall Int (Int × Ehcill)
  | .send frame => e.send frame
  | .receive byte => e.feed [byte]

/-!
## Frames through sleep and wake

What the writes that succeeded have put out, followed by what is pending, is what the accepted sends
were given (`Inv.balance`), whatever the writes return. On the way up the control bytes are taken
out between packets and the H4 decoder sees the rest (`absorb`).
-/

open List

/-! ### What calls write and deliver -/

def EhcillCall.data : EhcillCall → List UInt8
  | flush bytes => bytes
  | frame bytes => bytes
  | _ => []

def EhcillCall.delivery? : EhcillCall → Option Delivery
  | deliver delivery => some delivery
  | _ => none

/-- Does a call write to the controller? -/
def EhcillCall.IsWrite : EhcillCall → Prop
  | deliver _ => False
  | _ => True

abbrev EhcillDone := EhcillCall × Int

/-- The frame bytes of the writes that succeeded. -/
def written (calls : List EhcillDone) : List UInt8 :=
  calls.flatMap fun c => if c.2 = 0 then c.1.data else []

def deliveries (calls : List EhcillDone) : List Delivery := calls.filterMap fun c => c.1.delivery?

theorem written_append (calls calls' : List EhcillDone) :
    written (calls ++ calls') = written calls ++ written calls' := flatMap_append

theorem deliveries_append (calls calls' : List EhcillDone) :
    deliveries (calls ++ calls') = deliveries calls ++ deliveries calls' := filterMap_append

namespace Ehcill

variable {e : Ehcill}

/-- Frames wait only while the controller is being woken. -/
def Settled (e : Ehcill) : Prop := e.state ≠ .waking → e.pending = []

def Aside (e : Ehcill) (r : Int × Ehcill) (calls : List EhcillDone) : Prop :=
  r.2.h4 = e.h4 ∧ deliveries calls = []

/-- What a received byte does to the frames. -/
structure Receives (e : Ehcill) (r : Int × Ehcill) (calls : List EhcillDone) : Prop where
  balance : written calls ++ r.2.pending = e.pending
  settled : r.2.Settled
  sends : ∀ frame result, (.frame frame, result) ∉ calls
  flushes : ∀ pending result, (.flush pending, result) ∈ calls →
    e.state = .waking ∧ pending = e.pending ∧ (result = 0 → r.2.state = .awake)
  /-- Only the last call has frame bytes. -/
  last : ∀ c ∈ calls.dropLast, c.1.data = []
  part : calls.flatMap (fun c => c.1.data) <+: e.pending

theorem Receives.of_plain {r : Int × Ehcill} {calls : List EhcillDone}
    (hplain : ∀ c ∈ calls, c.1.data = []) (hsends : ∀ frame result, (.frame frame, result) ∉ calls)
    (hflushes : ∀ pending result, (.flush pending, result) ∉ calls)
    (hpending : r.2.pending = e.pending) (hsettled : r.2.Settled) : Receives e r calls where
  balance := by
    have hnil : written calls = [] := by
      refine flatMap_eq_nil_iff.mpr fun c hc => ?_
      rw [hplain c hc, ite_self]
    rw [hnil, hpending, nil_append]
  settled := hsettled
  sends := hsends
  flushes pending result h := absurd h (hflushes pending result)
  last c hc := hplain c (dropLast_subset calls hc)
  part := by
    rw [flatMap_eq_nil_iff.mpr hplain]
    exact List.nil_prefix

theorem Receives.cons_control {r : Int × Ehcill} {calls : List EhcillDone} {byte : UInt8}
    {result : Int} (h : Receives e r calls) : Receives e r ((.control byte, result) :: calls) where
  balance := by
    have hnil : written [(.control byte, result)] = [] := by simp [written, EhcillCall.data]
    rw [← singleton_append, written_append, hnil, nil_append]
    exact h.balance
  settled := h.settled
  sends frame result hmem := by
    rcases mem_cons.mp hmem with heq | hmem
    · cases heq
    · exact h.sends frame result hmem
  flushes pending result hmem := by
    rcases mem_cons.mp hmem with heq | hmem
    · cases heq
    · exact h.flushes pending result hmem
  last c hc := by
    cases calls with
    | nil => exact absurd hc not_mem_nil
    | cons d calls =>
      rcases mem_cons.mp hc with rfl | hc
      · rfl
      · exact h.last c hc
  part := h.part

theorem wake_receives (hs : e.Settled) :
    e.wake.Ensures fun r calls => Receives e r calls ∧ Aside e r calls := by
  unfold wake
  split
  · next hempty =>
    have hnil : e.pending = [] := eq_nil_of_length_eq_zero hempty
    exact ⟨.of_plain nofun nofun nofun rfl fun _ => hnil, rfl, rfl⟩
  · next hpending =>
    have hwaking : e.state = .waking := by
      by_contra hne
      exact hpending (by rw [hs hne]; rfl)
    rw [perform_bind, ensures_call]
    intro result
    have hpart : [(EhcillCall.flush e.pending, result)].flatMap (fun c => c.1.data) <+:
        e.pending := by simp [EhcillCall.data]
    split
    · next hresult =>
      refine ⟨⟨?_, fun _ => rfl, ?_, ?_, nofun, hpart⟩, rfl, rfl⟩
      · simp [written, EhcillCall.data, hresult]
      · simp
      · intro pending result' hmem
        obtain ⟨hcall, -⟩ := Prod.mk.inj (mem_singleton.mp hmem)
        cases hcall
        exact ⟨hwaking, rfl, fun _ => rfl⟩
    · next hresult =>
      refine ⟨⟨?_, hs, ?_, ?_, nofun, hpart⟩, rfl, rfl⟩
      · simp [written, hresult]
      · simp
      · intro pending result' hmem
        obtain ⟨hcall, rfl⟩ := Prod.mk.inj (mem_singleton.mp hmem)
        cases hcall
        exact ⟨hwaking, rfl, fun hzero => absurd hzero hresult⟩

theorem control_receives (hs : e.Settled) (value : UInt8) :
    (e.control value).Ensures fun r calls => Receives e r calls ∧ Aside e r calls := by
  have hstill : ∀ rc : Int, Receives e (rc, e) [] ∧ Aside e (rc, e) [] := fun rc =>
    ⟨.of_plain nofun nofun nofun rfl hs, rfl, rfl⟩
  have hnothing : ∀ (rc : Int) (byte : UInt8),
      Receives e (rc, e) [(.control byte, rc)] ∧ Aside e (rc, e) [(.control byte, rc)] :=
    fun rc byte => ⟨(hstill rc).1.cons_control, rfl, rfl⟩
  unfold control
  split
  · split
    · exact hstill _
    · next hwaking =>
      rw [perform_bind, ensures_call]
      intro result
      split
      · refine ⟨Receives.cons_control ?_, rfl, rfl⟩
        exact .of_plain nofun nofun nofun rfl fun _ => hs hwaking
      · exact hnothing result _
  split
  · exact hstill _
  split
  · rw [perform_bind, ensures_call]
    intro result
    split
    · apply (wake_receives hs).mono
      rintro r calls ⟨hr, haside⟩
      exact ⟨hr.cons_control, haside⟩
    · exact hnothing result _
  split
  · exact hstill _
  split
  · exact hstill _
  · exact wake_receives hs

end Ehcill

/-! ### The way up -/

/-- One received byte, for the decoder: a control byte between packets is taken out. -/
def absorb (h4 : H4) (byte : UInt8) : H4 × List Delivery :=
  if h4.type = 0 ∧ Ehcill.sleepInd ≤ byte ∧ byte ≤ Ehcill.wakeAck then (h4, [])
  else
    match h4.feedByte byte with
    | .ret r => (r.2, [])
    | .call d _ => (H4.reset, [d])

def absorbAll (h4 : H4) : List UInt8 → H4 × List Delivery
  | [] => (h4, [])
  | byte :: bytes =>
    let rest := absorbAll (absorb h4 byte).1 bytes
    (rest.1, (absorb h4 byte).2 ++ rest.2)

theorem absorbAll_append (h4 : H4) (bytes bytes' : List UInt8) :
    absorbAll h4 (bytes ++ bytes') = ((absorbAll (absorbAll h4 bytes).1 bytes').1,
      (absorbAll h4 bytes).2 ++ (absorbAll (absorbAll h4 bytes).1 bytes').2) := by
  induction bytes generalizing h4 with
  | nil => rfl
  | cons byte bytes ih =>
    rw [cons_append, absorbAll, ih]
    simp only [absorbAll, append_assoc]

/-- What comes in: a packet, or one of the control bytes. -/
inductive Item where
  | packet (p : Packet)
  | control (byte : UInt8) (h : Ehcill.sleepInd ≤ byte ∧ byte ≤ Ehcill.wakeAck)

def Item.bytes : Item → List UInt8
  | packet p => p.wire
  | control byte _ => [byte]

def Item.delivery? : Item → Option Delivery
  | packet p => some p.delivery
  | control .. => none

theorem absorb_midway (p : Packet) (hsize : p.bytes.length ≤ h4MaxPacket) {n : Nat}
    (hn : n < p.bytes.length) : absorb (H4.midway p n) p.bytes[n] =
      if n + 1 = p.bytes.length then (H4.reset, [p.delivery])
      else (H4.midway p (n + 1), []) := by
  rw [absorb, if_neg fun h => p.type_ne_zero h.1, H4.feedByte_midway p hsize hn]
  by_cases hdone : n + 1 = p.bytes.length
  · simp only [if_pos hdone]
  · simp only [if_neg hdone]

theorem absorbAll_midway (p : Packet) (hsize : p.bytes.length ≤ h4MaxPacket) {n : Nat}
    (hn : n < p.bytes.length) :
    absorbAll (H4.midway p n) (p.bytes.drop n) = (H4.reset, [p.delivery]) := by
  induction hleft : p.bytes.length - n generalizing n with
  | zero => omega
  | succ left ih =>
    rw [drop_eq_getElem_cons hn, absorbAll, absorb_midway p hsize hn]
    by_cases hdone : n + 1 = p.bytes.length
    · rw [if_pos hdone, hdone, drop_length]
      rfl
    · rw [if_neg hdone]
      rw [ih (Nat.lt_of_le_of_ne hn hdone) (by omega)]
      rfl

theorem absorbAll_wire (p : Packet) (hsize : p.bytes.length ≤ h4MaxPacket) :
    absorbAll H4.reset p.wire = (H4.reset, [p.delivery]) := by
  have hpos : 0 < p.bytes.length := by
    rw [p.length_bytes, ← p.length_header]
    exact Nat.add_pos_left p.length_header_pos _
  have htype : ¬ (H4.reset.type = 0 ∧ Ehcill.sleepInd ≤ p.kind.type ∧
      p.kind.type ≤ Ehcill.wakeAck) := by
    cases p.kind <;> decide
  have hfirst : absorb H4.reset p.kind.type = (H4.midway p 0, []) := by
    rw [absorb, if_neg htype, H4.feedByte_type]
  rw [Packet.wire, absorbAll, hfirst]
  have hrest := absorbAll_midway p hsize hpos
  rw [drop_zero] at hrest
  rw [hrest]
  rfl

/-- **Control bytes between packets** do not show above. -/
theorem absorbAll_items {items : List Item}
    (hsize : ∀ p, Item.packet p ∈ items → p.bytes.length ≤ h4MaxPacket) :
    absorbAll H4.reset (items.flatMap Item.bytes) =
      (H4.reset, items.filterMap Item.delivery?) := by
  induction items with
  | nil => rfl
  | cons item items ih =>
    have hrest := ih fun p hp => hsize p (mem_cons_of_mem _ hp)
    rw [flatMap_cons, absorbAll_append]
    cases item with
    | packet p =>
      have hp := absorbAll_wire p (hsize p mem_cons_self)
      simp only [Item.bytes, hp, hrest, filterMap_cons, Item.delivery?]
      rfl
    | control byte h =>
      have hone : absorbAll H4.reset [byte] = (H4.reset, []) := by
        rw [absorbAll, absorb, if_pos ⟨rfl, h⟩]
        rfl
      simp only [Item.bytes, hone, hrest, filterMap_cons, Item.delivery?]
      rfl

/-! ### One request -/

namespace Ehcill

variable {e : Ehcill}

theorem feed_h4 (h4 : H4) (byte : UInt8)
    (hplain : ¬ (h4.type = 0 ∧ sleepInd ≤ byte ∧ byte ≤ wakeAck)) :
    (h4.feed [byte]).Ensures fun r calls => absorb h4 byte = (r.2, calls.map Prod.fst) := by
  rw [H4.feed, Feeding.feed_cons, ensures_bind, absorb, if_neg hplain]
  rcases h4.feedByte_shape byte with ⟨r, hr⟩ | ⟨d, hd⟩
  · rw [hr]
    show Ensures _ (if r.1 ≠ 0 then ret r else ret (0, r.2))
    by_cases hstatus : r.1 ≠ 0
    · rw [if_pos hstatus]
      rfl
    · rw [if_neg hstatus]
      rfl
  · rw [hd]
    intro result
    show Ensures _ (if result ≠ 0 then ret (result, H4.reset) else ret (0, H4.reset))
    by_cases hstatus : result ≠ 0
    · rw [if_pos hstatus]
      rfl
    · rw [if_neg hstatus]
      rfl

theorem feedByte_receives (hs : e.Settled) (value : UInt8) : (e.feedByte value).Ensures
    fun r calls => Receives e r calls ∧ absorb e.h4 value = (r.2.h4, deliveries calls) := by
  unfold feedByte
  split
  · next hcontrol =>
    apply (control_receives hs value).mono
    rintro r calls ⟨hr, hh4, hnone⟩
    have hbyte : e.h4.type = 0 ∧ sleepInd ≤ value ∧ value ≤ wakeAck := hcontrol
    refine ⟨hr, ?_⟩
    rw [absorb, if_pos hbyte, hh4, hnone]
  · next hplain =>
    rw [ensures_bind, ensures_lift]
    apply (feed_h4 e.h4 value hplain).mono
    rintro ⟨result, h4⟩ calls habsorb
    show Receives _ _ _ ∧ _
    rw [append_nil]
    refine ⟨.of_plain ?_ ?_ ?_ rfl hs, ?_⟩
    · intro c hc
      obtain ⟨d, -, rfl⟩ := mem_map.mp hc
      rfl
    · intro frame result hmem
      obtain ⟨d, -, heq⟩ := mem_map.mp hmem
      cases heq
    · intro pending result hmem
      obtain ⟨d, -, heq⟩ := mem_map.mp hmem
      cases heq
    · have hall : deliveries (calls.map (Prod.map EhcillCall.deliver id)) =
          calls.map Prod.fst := by
        rw [deliveries, filterMap_map, ← filterMap_eq_map]
        rfl
      rw [habsorb, hall]

/-- **One received byte.** -/
theorem receive_receives (hs : e.Settled) (byte : UInt8) : (e.feed [byte]).Ensures
    fun r calls => Receives e r calls ∧ absorb e.h4 byte = (r.2.h4, deliveries calls) := by
  rw [feed, Feeding.feed_cons]
  apply (feedByte_receives hs byte).bind
  rintro r calls ⟨hr, habsorb⟩
  split
  · rw [ensures_ret, append_nil]
    exact ⟨hr, habsorb⟩
  · rw [Feeding.feed_nil, ensures_ret, append_nil]
    exact ⟨⟨hr.balance, hr.settled, hr.sends, hr.flushes, hr.last, hr.part⟩, habsorb⟩

structure Sends (e : Ehcill) (frame : List UInt8) (r : Int × Ehcill) (calls : List EhcillDone) :
    Prop where
  balance : written calls ++ r.2.pending = e.pending ++ if r.1 = 0 then frame else []
  settled : r.2.Settled
  sends : ∀ bytes result, (.frame bytes, result) ∈ calls → e.state = .awake
  flushes : ∀ pending result, (.flush pending, result) ∉ calls
  /-- Only the last call has frame bytes. -/
  last : ∀ c ∈ calls.dropLast, c.1.data = []
  part : calls.flatMap (fun c => c.1.data) <+: e.pending ++ frame
  failed : (∃ c ∈ calls, c.2 ≠ 0) → r.2.pending = e.pending ∧ r.1 ≠ 0
  aside : Aside e r calls

/-- A send that is refused, or only keeps the frame. -/
theorem Sends.quiet {frame : List UInt8} {rc : Int} {e' : Ehcill}
    (hpending : e'.pending = e.pending ++ if rc = 0 then frame else []) (hsettled : e'.Settled)
    (hh4 : e'.h4 = e.h4) : Sends e frame (rc, e') [] where
  balance := hpending
  settled := hsettled
  sends := nofun
  flushes := nofun
  last := nofun
  part := List.nil_prefix
  failed := nofun
  aside := ⟨hh4, rfl⟩

theorem send_sends (hs : e.Settled) (frame : List UInt8) :
    (e.send frame).Ensures (Sends e frame) := by
  have hrefused : ∀ rc : Int, rc ≠ 0 → Sends e frame (rc, e) [] := fun rc hrc =>
    .quiet (by rw [if_neg hrc, append_nil]) hs rfl
  unfold send
  split
  · exact hrefused _ (by decide)
  split
  · next hawake =>
    have hnil : e.pending = [] := hs (by rw [hawake]; decide)
    intro result
    refine ⟨?_, hs, fun _ _ _ => hawake, by simp, nofun, ?_, ?_, rfl, rfl⟩
    · simp [written, EhcillCall.data, hnil]
    · simp [EhcillCall.data, hnil]
    · rintro ⟨c, hc, hne⟩
      rw [mem_singleton.mp hc] at hne
      exact ⟨rfl, hne⟩
  split
  · exact hrefused _ (by decide)
  dsimp only
  split
  · next hasleep =>
    rw [perform_bind, ensures_call]
    intro result
    split
    · next hresult =>
      have hback : (e.pending ++ frame).take ((e.pending ++ frame).length - frame.length) =
          e.pending := by
        rw [length_append, Nat.add_sub_cancel, take_left]
      rw [hback]
      refine ⟨?_, hs, by simp, by simp, nofun, ?_, fun _ => ⟨rfl, hresult⟩, rfl, rfl⟩
      · simp [written, EhcillCall.data, hresult]
      · simp [EhcillCall.data]
    · next hresult =>
      refine ⟨?_, fun hne => absurd rfl hne, by simp, by simp, nofun, ?_, ?_, rfl, rfl⟩
      · simp [written, EhcillCall.data]
      · simp [EhcillCall.data]
      · rintro ⟨c, hc, hne⟩
        rw [mem_singleton.mp hc] at hne
        exact absurd hne hresult
  · next hasleep =>
    have hwaking : e.state = .waking := by
      cases hstate : e.state <;> simp_all
    exact .quiet rfl (fun hne => absurd hwaking hne) rfl

end Ehcill

/-! ### Whole runs -/

/-- A request of a run, with what it returned and its calls. -/
abbrev EhcillServed := EhcillRequest × Int × List EhcillDone

/-- The frames whose send returned 0, one after the other. -/
def accepted (h : List EhcillServed) : List UInt8 :=
  h.flatMap fun e => match e.1 with
    | .send frame => if e.2.1 = 0 then frame else []
    | .receive _ => []

def receivedBytes (h : List EhcillServed) : List UInt8 :=
  h.filterMap fun e => match e.1 with
    | .send _ => none
    | .receive byte => some byte

namespace Ehcill

/-- What holds of the protocol and its history between two requests. -/
structure Inv (h : List EhcillServed) (e : Ehcill) : Prop where
  balance : written (made h) ++ e.pending = accepted h
  settled : e.Settled
  upward : absorbAll H4.reset (receivedBytes h) = (e.h4, deliveries (made h))

variable {h : List EhcillServed} {e : Ehcill}

/-- **One request**, whatever its calls return. -/
theorem Inv.step (hi : Inv h e) (request : EhcillRequest) :
    (e.serve request).Ensures fun r calls => Inv (h ++ [(request, r.1, calls)]) r.2 := by
  cases request with
  | send frame =>
    apply (send_sends hi.settled frame).mono
    intro r calls hr
    refine ⟨?_, hr.settled, ?_⟩
    · rw [made_concat, written_append, append_assoc, hr.balance, ← append_assoc,
        hi.balance]
      simp [accepted]
    · rw [made_concat, deliveries_append, hr.aside.2, append_nil, hr.aside.1, ← hi.upward]
      simp [receivedBytes]
  | receive byte =>
    apply (receive_receives hi.settled byte).mono
    rintro r calls ⟨hr, habsorb⟩
    refine ⟨?_, hr.settled, ?_⟩
    · rw [made_concat, written_append, append_assoc, hr.balance, hi.balance]
      simp [accepted]
    · have hreceived : receivedBytes (h ++ [(.receive byte, r.1, calls)]) =
          receivedBytes h ++ [byte] := by simp [receivedBytes]
      rw [hreceived, made_concat, deliveries_append, absorbAll_append, hi.upward]
      simp [absorbAll, habsorb]

theorem inv_init : Inv [] init := ⟨rfl, fun _ => rfl, rfl⟩

end Ehcill

/-! ### What goes out -/

/-- The controller's side of `write`, with the H4 receiver: what is called, and the frame bytes that
have gone out. A write that returns 0 has put out all of its bytes, any other some of them from the
first on. -/
structure Device (σ : Type) where
  answer : EhcillCall → σ → Int × σ
  out : σ → List UInt8
  puts : ∀ c s, ∃ n, out (answer c s).2 = out s ++ c.data.take n
  whole : ∀ c s, (answer c s).1 = 0 → out (answer c s).2 = out s ++ c.data

namespace Device

variable {σ α : Type} (d : Device σ)

theorem out_done {c : EhcillCall} {s : σ} (h : c.IsWrite → (d.answer c s).1 = 0) :
    d.out (d.answer c s).2 = d.out s ++ written [(c, (d.answer c s).1)] := by
  cases c with
  | deliver delivery =>
    obtain ⟨n, hn⟩ := d.puts (.deliver delivery) s
    rw [hn]
    simp [written, EhcillCall.data]
  | control byte | flush pending | frame frame =>
    have hzero := h trivial
    rw [d.whole _ _ hzero]
    simp [written, hzero]

/-- **Without a failed write** just what was written has gone out. -/
theorem out_exec (x : Calls EhcillCall Int α) (s : σ)
    (h : ∀ c ∈ (x.exec d.answer s).calls, c.1.IsWrite → c.2 = 0) :
    d.out (x.exec d.answer s).context = d.out s ++ written (x.exec d.answer s).calls := by
  induction x generalizing s with
  | ret a => exact (append_nil _).symm
  | call c k ih =>
    rw [exec_call] at h ⊢
    obtain ⟨hc, hrest⟩ := forall_mem_cons.mp h
    rw [ih _ _ hrest, d.out_done hc, append_assoc, ← written_append]
    rfl

/-- Where only the last call has frame bytes, what goes out is a part of them from the first on. -/
theorem out_part (x : Calls EhcillCall Int α) (s : σ)
    (h : ∀ c ∈ (x.exec d.answer s).calls.dropLast, c.1.data = []) :
    ∃ part, part <+: (x.exec d.answer s).calls.flatMap (fun c => c.1.data) ∧
      d.out (x.exec d.answer s).context = d.out s ++ part := by
  induction x generalizing s with
  | ret a => exact ⟨[], List.nil_prefix, (append_nil _).symm⟩
  | call c k ih =>
    rw [exec_call] at h ⊢
    obtain ⟨n, hn⟩ := d.puts c s
    cases hcalls : ((k (d.answer c s).1).exec d.answer (d.answer c s).2).calls with
    | nil =>
      obtain ⟨part, hpart, hout⟩ := ih (d.answer c s).1 (d.answer c s).2 (by
        rw [hcalls]
        exact nofun)
      rw [hcalls] at hpart
      obtain rfl := prefix_nil.mp hpart
      refine ⟨c.data.take n, ?_, ?_⟩
      · simp [List.take_prefix]
      · rw [hout, hn, append_nil]
    | cons e calls =>
      rw [hcalls] at h
      obtain ⟨hc, hrest⟩ := forall_mem_cons.mp h
      obtain ⟨part, hpart, hout⟩ := ih (d.answer c s).1 (d.answer c s).2 (by
        rw [hcalls]
        exact hrest)
      rw [hcalls] at hpart
      have hdata : c.data = [] := hc
      refine ⟨part, ?_, ?_⟩
      · rw [flatMap_cons, hdata, nil_append]
        exact hpart
      · rw [hout, hn, hdata, take_nil, append_nil]

theorem out_run (e : Ehcill) (s : σ) (requests : List EhcillRequest)
    (h : ∀ c ∈ made ((serving Ehcill.serve d.answer).trace (e, s) requests),
      c.1.IsWrite → c.2 = 0) :
    d.out ((serving Ehcill.serve d.answer).run (e, s) requests).2 = d.out s ++
      written (made ((serving Ehcill.serve d.answer).trace (e, s) requests)) := by
  induction requests generalizing e s with
  | nil => exact (append_nil _).symm
  | cons request requests ih =>
    obtain ⟨hfirst, hrest⟩ := forall_mem_append.mp h
    rw [Machine.run_cons, Machine.trace_cons, made, flatMap_cons, written_append,
      ← append_assoc]
    have hout := d.out_exec (e.serve request) s hfirst
    exact (ih _ _ hrest).trans (congrArg (· ++ _) hout)

end Device

/-- **Frames through sleep and wake.** In every run of sends and received bytes: the bytes of the
writes that succeeded, followed by what is pending, are the frames whose send returned 0; only while
the controller is being woken is anything pending; and the packets delivered are those received,
without the control bytes between them. As long as no write fails, just those bytes go out. A next
request writes a frame of its own only while awake, and the pending ones only while waking, which
makes it awake; a send in which a write fails leaves what is pending and reports the error; and if
no write failed before, what has gone out behind it is from the first byte on a part of the accepted
frames and its own. -/
theorem ehcill_protocol {σ : Type} (d : Device σ) (context : σ) (requests : List EhcillRequest) :
    let m := serving Ehcill.serve d.answer
    let h : List EhcillServed := m.trace (Ehcill.init, context) requests
    let s := m.run (Ehcill.init, context) requests
    written (made h) ++ s.1.pending = accepted h ∧
    (s.1.state = .awake ∨ s.1.state = .asleep → s.1.pending = []) ∧
    (∀ items : List Item, receivedBytes h = items.flatMap Item.bytes →
      (∀ p, Item.packet p ∈ items → p.bytes.length ≤ h4MaxPacket) →
        deliveries (made h) = items.filterMap Item.delivery?) ∧
    ((∀ c ∈ made h, c.1.IsWrite → c.2 = 0) → d.out s.2 = d.out context ++ written (made h)) ∧
    ∀ request,
      let o := (s.1.serve request).exec d.answer s.2
      (∀ frame result, (.frame frame, result) ∈ o.calls → s.1.state = .awake) ∧
      (∀ pending result, (.flush pending, result) ∈ o.calls →
        s.1.state = .waking ∧ pending = s.1.pending ∧
          (result = 0 → o.value.2.state = .awake)) ∧
      (∀ frame, request = .send frame → (∃ c ∈ o.calls, c.2 ≠ 0) →
        o.value.2.pending = s.1.pending ∧ o.value.1 ≠ 0) ∧
      ((∀ c ∈ made h, c.1.IsWrite → c.2 = 0) →
        d.out o.context <+: d.out context ++ accepted h ++
          match request with
          | .send frame => frame
          | .receive _ => []) := by
  intro m h s
  have hi : Ehcill.Inv h s.1 := serving_invariant
    (fun h e request (hi : Ehcill.Inv h e) => hi.step request) Ehcill.inv_init context requests
  have hout : (∀ c ∈ made h, c.1.IsWrite → c.2 = 0) →
      d.out s.2 = d.out context ++ written (made h) :=
    d.out_run Ehcill.init context requests
  refine ⟨hi.balance, ?_, ?_, hout, ?_⟩
  · intro hstate
    apply hi.settled
    rcases hstate with hstate | hstate <;> rw [hstate] <;> decide
  · intro items hitems hsize
    have hup := hi.upward
    rw [hitems, absorbAll_items hsize] at hup
    exact (Prod.mk.inj hup).2.symm
  · intro request o
    -- only the last call of a request writes, so a failure leaves a part of one write
    have hpart : (∀ c ∈ o.calls.dropLast, c.1.data = []) →
        ∀ frame, o.calls.flatMap (fun c => c.1.data) <+: s.1.pending ++ frame →
        (∀ c ∈ made h, c.1.IsWrite → c.2 = 0) →
          d.out o.context <+: d.out context ++ accepted h ++ frame := by
      intro hlast frame hle hgood
      obtain ⟨part, hbegins, heq⟩ := d.out_part (s.1.serve request) s.2 hlast
      obtain ⟨rest, hrest⟩ := hbegins.trans hle
      rw [show d.out o.context = d.out s.2 ++ part from heq, hout hgood, ← hi.balance]
      refine ⟨rest, ?_⟩
      simp only [append_assoc]
      rw [hrest]
    cases request with
    | send frame =>
      have hsend : Ehcill.Sends s.1 frame o.value o.calls :=
        (Ehcill.send_sends hi.settled frame).exec d.answer s.2
      refine ⟨hsend.sends, ?_, ?_, hpart hsend.last frame hsend.part⟩
      · intro pending result hmem
        exact absurd hmem (hsend.flushes pending result)
      · intro _ _ hfailed
        exact hsend.failed hfailed
    | receive byte =>
      obtain ⟨hreceive, -⟩ :=
        (Ehcill.receive_receives hi.settled byte).exec d.answer s.2
      refine ⟨?_, hreceive.flushes, nofun, hpart hreceive.last [] ?_⟩
      · intro frame result hmem
        exact absurd hmem (hreceive.sends frame result)
      · rw [append_nil]
        exact hreceive.part

/-! ### A flush that fails half-way -/

/-- A device that fails the first flush once four bytes of it have gone out. -/
def halfway : Device (Bool × List UInt8) where
  answer c s := match c, s.1 with
    | .flush pending, false => (- EIO, true, s.2 ++ pending.take 4)
    | c, failed => (0, failed, s.2 ++ c.data)
  out := Prod.snd
  puts c s := by
    obtain ⟨failed, out⟩ := s
    cases c <;> cases failed
    all_goals first
      | exact ⟨4, rfl⟩
      | exact ⟨_, congrArg (out ++ ·) (take_length).symm⟩
  whole c s h := by
    obtain ⟨failed, out⟩ := s
    cases c <;> cases failed
    all_goals first
      | rfl
      | exact absurd (show - EIO = 0 from h) (by decide)

/-- Two commands are sent while the controller sleeps, and two acknowledgements of the wake-up
arrive. -/
def wokenTwice : List EhcillRequest :=
  [.receive Ehcill.sleepInd, .send [0x01, 0x03, 0x0c, 0x00], .send [0x01, 0x09, 0x10, 0x00],
    .receive Ehcill.wakeAck, .receive Ehcill.wakeAck]

/-- The failed flush is repeated as a whole, and the first command goes out twice. -/
theorem frame_written_twice :
    ¬ ∀ (σ : Type) (d : Device σ) (context : σ) (requests : List EhcillRequest) (f : List UInt8),
      d.out context = [] → requests.count (.send f) = 1 →
        ∀ a b c, d.out ((serving Ehcill.serve d.answer).run (Ehcill.init, context) requests).2 ≠
          a ++ f ++ b ++ f ++ c := by
  intro hclaim
  apply hclaim _ halfway (false, []) wokenTwice [0x01, 0x03, 0x0c, 0x00] rfl (by decide)
    [] [] [0x01, 0x09, 0x10, 0x00]
  decide

end Brickwright.Bluetooth
