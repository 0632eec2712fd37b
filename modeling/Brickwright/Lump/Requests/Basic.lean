import Brickwright.Lump.ExtMode

/-!
# Requests to transmit (`lump_select_mode`, `lump_send_data`, `lump_drain_tx_requests`)

A producer decides under `info_lock` and posts under `tx_lock`, so a request between the two is a
value of its own (`Request`). The port thread takes both slots at once and transmits what it took
packet by packet. Modes and payloads are kept apart from their encoding: `Packet.bytes` is the frame
on the wire.
-/

namespace Brickwright.Lump

/-! ## Producers -/

/-- A request that has passed its checks and is not yet posted. -/
inductive Request where
  | select (mode : UInt8)
  | send (mode : UInt8) (buf : List UInt8) (needSelect : Bool)
  deriving DecidableEq, Repr

namespace Engine

/-- The part of `lump_select_mode` under `info_lock`. -/
def checkSelect (e : Engine) (mode : UInt8) : Int × Option Request :=
  if e.info.flags &&& flagSynced = 0 then (-EAGAIN, none)
  else if mode ≥ e.info.numModes then (-EINVAL, none)
  else (OK, some (.select mode))

/-- `info.modes[mode].writable`. -/
def writable (e : Engine) (mode : UInt8) : Bool :=
  (e.info.modes.getD mode.toNat ModeInfo.zero).writable ≠ 0

/-- `lump_send_data` up to the release of `info_lock`. -/
def checkSend (e : Engine) (mode : UInt8) (buf : List UInt8) : Int × Option Request :=
  if buf.length = 0 ∨ buf.length > maxPayload then (-EINVAL, none)
  else if e.info.flags &&& flagSynced = 0 then (-EAGAIN, none)
  else if mode ≥ e.info.numModes then (-EINVAL, none)
  else if ¬ e.writable mode then (-ENOTSUP, none)
  -- Compared with the mode the device was last heard in, not with a SELECT on its way.
  else (OK, some (.send mode buf (e.info.currentMode ≠ mode)))

def postSelect (e : Engine) (mode : UInt8) : Engine :=
  { e with pendingSelect := true, pendingSelectMode := mode }

/-- The SELECT of the default mode that `lump_sync` posts after it has exposed `SYNCED`. -/
def autoSelect (e : Engine) : Engine :=
  if e.info.currentMode < e.info.numModes then e.postSelect e.info.currentMode else e

/-- The part of both calls under `tx_lock`. -/
def post (e : Engine) : Request → Engine
  | .select mode => e.postSelect mode
  | .send mode buf needSelect =>
    { (if needSelect then e.postSelect mode else e) with
      pendingSend := true, pendingSendMode := mode, pendingSendBuf := buf }

end Engine

/-! ## The port thread -/

inductive Packet where
  | extMode (mode : UInt8)
  | select (mode : UInt8)
  | data (mode : UInt8) (buf : List UInt8)
  deriving DecidableEq, Repr

/-- The smallest payload class that holds `len` bytes, and its size. -/
def sizeClass (len : Nat) : UInt8 × Nat :=
  if len ≤ 1 then (0, 1)
  else if len ≤ 2 then (1, 2)
  else if len ≤ 4 then (2, 4)
  else if len ≤ 8 then (3, 8)
  else if len ≤ 16 then (4, 16)
  else (5, 32)

/-- What `lump_send_msg` writes for a header and a payload. -/
def sendMsg (header : UInt8) (payload : List UInt8) : List UInt8 :=
  header :: payload ++ [xorChecksum (header :: payload)]

/-- `lump_send_ext_mode`, `lump_send_select` and `lump_send_data_frame`. -/
def Packet.bytes : Packet → List UInt8
  | .extMode mode => sendMsg (0x40 ||| cmdExtMode) [if mode > 7 then 8 else 0]
  | .select mode => sendMsg (0x40 ||| cmdSelect) [mode &&& 0x07]
  | .data mode buf =>
    sendMsg ((0xc0 : UInt8) ||| ((sizeClass buf.length).1 <<< 3 &&& 0x38) ||| (mode &&& 0x07))
      (buf ++ List.replicate ((sizeClass buf.length).2 - buf.length) 0)

namespace Engine

/-- What `lump_drain_tx_requests` takes from the slots, as the packets it then transmits in
order. -/
def taken (e : Engine) : List Packet :=
  (if e.pendingSelect then [.extMode e.pendingSelectMode, .select e.pendingSelectMode] else []) ++
    if e.pendingSend then [.extMode e.pendingSendMode, .data e.pendingSendMode e.pendingSendBuf]
    else []

/-- The slots after the port thread has taken both. -/
def take (e : Engine) : Engine := { e with pendingSelect := false, pendingSend := false }

end Engine

/-!
## Producers and the port thread, interleaved

One synchronized session, from the moment it is published. A producer's call is two events, its
check and its post, and the port thread's drain is one event for taking the slots and one for each
packet, so every interleaving of the critical sections is a list of events of `tx`.

`wire` is the history of what was transmitted. It decides which mode the device has been told to
select.
-/

inductive Thread where
  /-- `SYNCED` is exposed, the automatic SELECT is not yet posted. -/
  | published
  | idle
  /-- In a drain, with these packets left. -/
  | draining (packets : List Packet)
  /-- A write has failed. -/
  | ended
  deriving DecidableEq, Repr

structure Session where
  engine : Engine
  thread : Thread
  inFlight : List Request
  wire : List Packet

inductive TxEvent where
  /-- `lump_select_mode` up to the release of `info_lock`. -/
  | select (mode : UInt8)
  /-- `lump_send_data` up to the release of `info_lock`. -/
  | send (mode : UInt8) (buf : List UInt8)
  /-- The `i`-th request in flight is posted. -/
  | post (i : Nat)
  | autoSelect
  /-- The thread calls `lump_recv_msg`, and parses what it has received. -/
  | receive (reads : List Read)
  /-- The thread takes the slots. -/
  | drain
  /-- The thread writes the next packet, with this result. -/
  | transmit (write : Int)
  deriving DecidableEq

/-- The length check of `lump_send_data_frame`. -/
def Packet.sendable : Packet → Bool
  | .data _ buf => 0 < buf.length ∧ buf.length ≤ maxPayload
  | _ => true

namespace Session

/-- A session that has just been published. -/
def start (e : Engine) : Session := ⟨e, .published, [], []⟩

def request (s : Session) : Option Request → Session
  | none => s
  | some r => { s with inFlight := s.inFlight ++ [r] }

def posted (s : Session) (i : Nat) (r : Request) : Session :=
  { s with engine := s.engine.post r, inFlight := s.inFlight.eraseIdx i }

def autoSelected (s : Session) : Session :=
  { s with engine := s.engine.autoSelect, thread := .idle }

def heard (s : Session) (reads : List Read) : Session :=
  { s with engine := s.engine.listen reads }

def continueWith (s : Session) (packets : List Packet) : Session :=
  { s with thread := if packets = [] then .idle else .draining packets }

def drained (s : Session) : Session :=
  { s with engine := s.engine.take }.continueWith s.engine.taken

def written (s : Session) (p : Packet) : Session := { s with wire := s.wire ++ [p] }

/-- What happens, and the packet that is transmitted. -/
def next (s : Session) : TxEvent → Session × Option Packet
  | .select mode => (s.request (s.engine.checkSelect mode).2, none)
  | .send mode buf => (s.request (s.engine.checkSend mode buf).2, none)
  | .post i =>
    match s.inFlight[i]? with
    | none => (s, none)
    | some r => (s.posted i r, none)
  | .autoSelect => if s.thread = .published then (s.autoSelected, none) else (s, none)
  | .receive reads => if s.thread = .idle then (s.heard reads, none) else (s, none)
  | .drain => if s.thread = .idle then (s.drained, none) else (s, none)
  | .transmit write =>
    match s.thread with
    | .draining (p :: packets) =>
      -- A drain that fails drops the packets behind the failure.
      if ¬ p.sendable then ({ s with thread := .ended }, none)
      else if write < 0 then ({ s.written p with thread := .ended }, some p)
      else ((s.written p).continueWith packets, some p)
    | _ => (s, none)

end Session

/-- Every interleaving of producers and port thread. -/
def tx : Machine Session TxEvent (Option Packet) where
  step := Session.next

/-! ### The events -/

/-- What an event can do: the guards that were passed, the session after it and what was
transmitted. -/
inductive Move (s : Session) : TxEvent → Session × Option Packet → Prop where
  /-- Nothing: there is no such request, or the thread is elsewhere. -/
  | none (event : TxEvent) : Move s event (s, none)
  | select (mode : UInt8) :
      Move s (.select mode) (s.request (s.engine.checkSelect mode).2, none)
  | send (mode : UInt8) (buf : List UInt8) :
      Move s (.send mode buf) (s.request (s.engine.checkSend mode buf).2, none)
  | post (i : Nat) (r : Request) (hr : s.inFlight[i]? = some r) :
      Move s (.post i) (s.posted i r, none)
  | autoSelect (hpub : s.thread = .published) : Move s .autoSelect (s.autoSelected, none)
  | receive (reads : List Read) (hidle : s.thread = .idle) :
      Move s (.receive reads) (s.heard reads, none)
  | drain (hidle : s.thread = .idle) : Move s .drain (s.drained, none)
  /-- `lump_send_data_frame` refuses the payload. -/
  | refuse (write : Int) : Move s (.transmit write) ({ s with thread := .ended }, none)
  | fail (write : Int) (p : Packet) (packets : List Packet)
      (hthread : s.thread = .draining (p :: packets)) :
      Move s (.transmit write) ({ s.written p with thread := .ended }, some p)
  | write (write : Int) (p : Packet) (packets : List Packet)
      (hthread : s.thread = .draining (p :: packets)) :
      Move s (.transmit write) ((s.written p).continueWith packets, some p)

/-- **Everything an event can do.** -/
theorem next_move (s : Session) (event : TxEvent) : Move s event (s.next event) := by
  cases event with
  | select mode => exact .select mode
  | send mode buf => exact .send mode buf
  | post i =>
    simp only [Session.next]
    split
    · exact .none _
    next r hr => exact .post i r hr
  | autoSelect =>
    simp only [Session.next]
    split
    next hpub => exact .autoSelect hpub
    · exact .none _
  | receive reads =>
    simp only [Session.next]
    split
    next hidle => exact .receive reads hidle
    · exact .none _
  | drain =>
    simp only [Session.next]
    split
    next hidle => exact .drain hidle
    · exact .none _
  | transmit write =>
    simp only [Session.next]
    split
    next p packets hthread =>
      split
      · exact .refuse write
      · split
        · exact .fail write p packets hthread
        · exact .write write p packets hthread
    · exact .none _

end Brickwright.Lump
