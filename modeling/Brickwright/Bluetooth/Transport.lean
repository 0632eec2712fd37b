import Brickwright.Bluetooth.Ehcill
import Brickwright.Machine.Threads

/-!
# The transport below H4 (`zephyr_compat/src/h4_transport.c`)

One thread receives and any number of threads send, between `brickwright_h4_transport_open` and
`close`. A thread stands between two sections of its code: where it waits for the lock, where it has
called the device, or inside the eHCILL protocol, whose next call it is about to make. The input of
a step is the call that begins, or what the device answers.

A section under the lock works on the protocol state as it was when the lock was taken and leaves
what it made of it when it releases the lock; the decoder belongs to the receiving thread, which
feeds it packet bytes without the lock.

The arguments that are refused because a pointer is null or the transport is not open are left out,
as are the timeouts, which only the device sees.
-/

namespace Brickwright.Bluetooth

open Calls

/-- `struct brickwright_h4_transport`, with its lock. -/
structure Transport where
  ehcill : Ehcill
  fault : Int
  locked : Bool

/-- What `brickwright_h4_transport_open` leaves. -/
def Transport.opened : Transport := ⟨Ehcill.init, 0, false⟩

namespace Transport

/-- Who runs the eHCILL protocol: `send` and the control bytes of `receive` under the lock, its
other bytes without. -/
inductive Role where
  | send
  | control (rest : List UInt8)
  | packet (rest : List UInt8)
  deriving DecidableEq, Repr

abbrev Protocol := Calls EhcillCall Int (Int × Ehcill)

inductive Point where
  /-- Outside of `send`. -/
  | ready
  /-- Outside of `receive`. -/
  | listening
  /-- In `send`, before the lock. -/
  | sending (frame : List UInt8)
  /-- In `receive`, before `get_fault`. -/
  | entered
  /-- In `brickwright_h4_io_poll` for input. -/
  | polling
  /-- Before the lock for `waking`. -/
  | polled (result : Int)
  /-- In `brickwright_h4_io_read`. -/
  | reading
  /-- Before `latch_fault`. -/
  | latching (fault : Int)
  /-- In the `for` loop. -/
  | looping (bytes : List UInt8)
  /-- Before the lock for a control byte. -/
  | locking (byte : UInt8) (rest : List UInt8)
  /-- In the eHCILL protocol. -/
  | inside (role : Role) (p : Protocol)
  /-- In `raw_write`, with what is left to write. -/
  | writing (role : Role) (data : List UInt8) (k : Int → Protocol)
  /-- In `brickwright_h4_io_poll` for output. -/
  | waiting (role : Role) (data : List UInt8) (k : Int → Protocol)

inductive Input where
  | send (frame : List UInt8)
  | receive
  /-- What the device or the receiver of the decoder answers: the result, `errno`, the bytes. -/
  | answer (value errno : Int) (bytes : List UInt8)
  deriving DecidableEq, Repr

inductive Note where
  | began
  | returned (result : Int)
  /-- Bytes the device has taken. -/
  | wrote (bytes : List UInt8)
  | delivered (delivery : Delivery)
  deriving DecidableEq, Repr

variable (t : Transport)

/-- `if (!transport->fault) transport->fault = fault;` -/
def latch (fault : Int) : Transport := if t.fault = 0 then { t with fault := fault } else t

/-- The end of the eHCILL protocol in each of the roles. -/
def finish (result : Int) (e : Ehcill) : Role → Transport × List Note × Point
  | .send =>
    ({ ehcill := { t.ehcill with state := e.state, pending := e.pending }
       fault := if result ≠ 0 ∧ result ≠ -ENOBUFS then result else t.fault
       locked := false }, [.returned result], .ready)
  | .control rest =>
    let t := { t with ehcill := { t.ehcill with state := e.state, pending := e.pending } }
    let t := { t.latch result with locked := false }
    if result ≠ 0 then (t, [.returned result], .listening) else (t, [], .looping rest)
  | .packet rest =>
    let t := { t with ehcill := { t.ehcill with h4 := e.h4 } }
    (t, [], if result ≠ 0 then .latching result else .looping rest)

/-- The next call of the protocol, or its end. -/
def runProtocol (role : Role) (p : Protocol) (input : Input) : Transport × List Note × Point :=
  match p, input with
  | .ret r, _ => t.finish r.1 r.2 role
  | .call (.control byte) k, _ => (t, [], .writing role [byte] k)
  | .call (.flush pending) k, _ => (t, [], .writing role pending k)
  | .call (.frame frame) k, _ => (t, [], .writing role frame k)
  | .call (.deliver delivery) k, .answer value _ _ =>
    (t, [.delivered delivery], .inside role (k value))
  | .call (.deliver _) _, _ => (t, [], .inside role p)

/-- One section of a thread. A thread that needs the lock stays where it is while the lock is
taken. -/
def body (t : Transport) (pc : Point) (input : Input) : Transport × List Note × Point :=
  match pc, input with
  -- `brickwright_h4_transport_send`
  | .ready, .send frame =>
    if frame = [] then (t, [.began, .returned (-EINVAL)], .ready) else (t, [.began], .sending frame)
  | .sending frame, _ =>
    if t.locked then (t, [], pc)
    else if t.fault ≠ 0 then (t, [.returned t.fault], .ready)
    else ({ t with locked := true }, [], .inside .send (t.ehcill.send frame))
  -- `brickwright_h4_transport_receive`
  | .listening, .receive => (t, [.began], .entered)
  | .entered, _ =>
    if t.locked then (t, [], pc)
    else if t.fault ≠ 0 then (t, [.returned t.fault], .listening)
    else (t, [], .polling)
  | .polling, .answer value _ _ => (t, [], if value ≠ 0 then .polled value else .reading)
  | .polled result, _ =>
    if t.locked then (t, [], pc)
    else if result = -ETIMEDOUT ∧ t.ehcill.state ≠ .waking then
      (t, [.returned result], .listening)
    else if result ≠ -EAGAIN then (t, [], .latching result)
    else (t, [.returned (-EAGAIN)], .listening)
  | .reading, .answer value errno bytes =>
    if value < 0 ∧ errno = EINTR then (t, [], .reading)
    else if value < 0 then
      if errno = EAGAIN then (t, [.returned (-EAGAIN)], .listening) else (t, [], .latching (-errno))
    else if value = 0 then (t, [], .latching (-EPIPE))
    else (t, [], .looping bytes)
  | .latching fault, _ =>
    if t.locked then (t, [], pc)
    else (t.latch fault, [.returned (t.latch fault).fault], .listening)
  | .looping [], _ => (t, [.returned 0], .listening)
  | .looping (byte :: rest), _ =>
    if t.ehcill.IsControl byte then (t, [], .locking byte rest)
    else (t, [], .inside (.packet rest) (t.ehcill.feed [byte]))
  | .locking byte rest, _ =>
    if t.locked then (t, [], pc)
    else ({ t with locked := true }, [], .inside (.control rest) (t.ehcill.feed [byte]))
  | .inside role p, input => t.runProtocol role p input
  -- `raw_write`
  | .writing role [] k, _ => (t, [], .inside role (k 0))
  | .writing role data k, .answer value errno _ =>
    if value < 0 ∧ errno = EINTR then (t, [], pc)
    else if value < 0 ∧ errno = EAGAIN then (t, [], .waiting role data k)
    else if value ≤ 0 then (t, [], .inside role (k (if value < 0 then -errno else - EIO)))
    else (t, [.wrote (data.take value.toNat)], .writing role (data.drop value.toNat) k)
  | .waiting role data k, .answer value _ _ =>
    if value ≠ 0 then (t, [], .inside role (k value)) else (t, [], .writing role data k)
  | _, _ => (t, [], pc)

def threads : Threads Transport Point Input Note where
  body := body

/-- After `brickwright_h4_transport_open`: thread 0 is the one that receives. -/
def initial : Threads.State Transport Point where
  shared := opened
  pc i := if i = 0 then .listening else .ready

end Transport

/-!
## A latched fault

The fault is set under the lock and only where it was 0: `send` and the control bytes of `receive`
hold the lock from their first look at it (`Inv`). While it is set, `send` and `receive` turn back
at once. What may still write is a control byte a receiver has read before: it takes the lock
without a look at the fault (`Allowed` excludes it).

* `effect` and `silent_step` — what one section can do to the lock and the fault, and to the device.
* `fault_latched` — the runs in which no such byte is answered.
-/

open List

/-! ### The bytes that are answered -/

/-- A control byte whose handling writes. -/
def Ehcill.Answers (e : Ehcill) (byte : UInt8) : Prop :=
  byte = sleepInd ∧ e.state ≠ .waking ∨ byte = wakeInd ∨
    byte ≠ sleepAck ∧ e.state = .waking ∧ e.pending ≠ []

instance (e : Ehcill) (byte : UInt8) : Decidable (e.Answers byte) :=
  inferInstanceAs (Decidable (_ ∨ _ ∨ _))

/-- The protocol does not write, whatever it is answered. -/
def Transport.Silent (p : Transport.Protocol) : Prop :=
  p.Ensures fun _ calls => ∀ c ∈ calls, ¬ c.1.IsWrite

namespace Ehcill

variable {e : Ehcill} {byte : UInt8}

theorem silent_wake (h : e.pending = []) : Transport.Silent e.wake := by
  rw [Transport.Silent, wake, if_pos (length_eq_zero_iff.mpr h)]
  nofun

theorem silent_control (h : ¬ e.Answers byte) : Transport.Silent (e.control byte) := by
  simp only [Answers, not_or, not_and, not_not] at h
  obtain ⟨hsleep, hwake, hpending⟩ := h
  rw [Transport.Silent, control]
  split
  · next hbyte =>
    rw [if_pos (hsleep hbyte)]
    nofun
  split
  · nofun
  · next hack =>
    split
    · nofun
    split
    · nofun
    · next hwaking => exact silent_wake (hpending hack (not_not.mp hwaking))

theorem silent_feedByte (h : e.IsControl byte → ¬ e.Answers byte) :
    Transport.Silent (e.feedByte byte) := by
  rw [feedByte]
  split
  · next hcontrol => exact silent_control (h hcontrol)
  · rw [Transport.Silent, ensures_bind, ensures_lift]
    refine Ensures.of_forall fun a calls c hc => ?_
    rw [append_nil] at hc
    obtain ⟨d, -, rfl⟩ := mem_map.mp hc
    exact id

theorem silent_feed (h : e.IsControl byte → ¬ e.Answers byte) :
    Transport.Silent (e.feed [byte]) := by
  rw [Transport.Silent, feed, Feeding.feed_cons, ensures_bind]
  refine (silent_feedByte h).mono fun r calls hcalls => ?_
  split
  · simpa using hcalls
  · simpa using hcalls

end Ehcill

namespace Transport

variable {t : Transport} {pc : Point} {input : Input}

/-! ### Where a thread stands -/

def Role.Locks : Role → Prop
  | .packet _ => False
  | _ => True

def Point.role? : Point → Option Role
  | .inside role _ => some role
  | .writing role _ _ => some role
  | .waiting role _ _ => some role
  | _ => none

def Point.Holds (pc : Point) : Prop := ∃ role, pc.role? = some role ∧ role.Locks

/-- The thread cannot write before it looks at the fault again or takes the lock for a control
byte. -/
def Point.Silent : Point → Prop
  | .inside _ p => Transport.Silent p
  | .writing .. => False
  | .waiting .. => False
  | _ => True

/-! ### What a section does -/

/-- What a section does to the lock and the fault. -/
inductive Effect (t : Transport) (pc : Point) (t' : Transport) (pc' : Point) : Prop
  /-- Nothing; a thread in the protocol stays there. -/
  | stays (hholds : pc'.Holds ↔ pc.Holds) (hrole : pc.Holds → pc'.role? = pc.role?)
      (hfault : t'.fault = t.fault) (hlocked : t'.locked = t.locked)
  | locks (hpc : ¬ pc.Holds) (hpc' : pc'.Holds) (hfree : t.locked = false)
      (hlocked : t'.locked = true) (hfault : t'.fault = t.fault)
      (hsend : pc'.role? = some .send → t.fault = 0)
  | unlocks (hpc : pc.Holds) (hpc' : pc'.role? = none) (hlocked : t'.locked = false)
      (hfault : t.fault ≠ 0 → pc.role? ≠ some .send → t'.fault = t.fault)
  | latches (hpc : ¬ pc.Holds) (hpc' : ¬ pc'.Holds) (hfree : t.locked = false)
      (hlocked : t'.locked = false) (hfault : t.fault ≠ 0 → t'.fault = t.fault)

theorem holds_iff {role : Role} (h : pc.role? = some role) : pc.Holds ↔ role.Locks := by
  rw [Point.Holds, h]
  simp

theorem not_holds (h : pc.role? = none) : ¬ pc.Holds := by
  rw [Point.Holds, h]
  simp

theorem not_holds_packet {rest : List UInt8} (h : pc.role? = some (.packet rest)) : ¬ pc.Holds :=
  fun hpc => (holds_iff h).mp hpc

theorem silent_of_role (h : pc.role? = none) : pc.Silent := by
  cases pc with
  | inside | writing | waiting => cases h
  | _ => trivial

theorem latch_locked (t : Transport) (fault : Int) : (t.latch fault).locked = t.locked := by
  rw [latch]
  split <;> rfl

theorem latch_fault_of_ne (t : Transport) (h : t.fault ≠ 0) (fault : Int) :
    (t.latch fault).fault = t.fault := by
  rw [latch, if_neg h]

theorem effect_finish (t : Transport) (role : Role) (p : Protocol) (result : Int) (e : Ehcill) :
    Effect t (.inside role p) (t.finish result e role).1 (t.finish result e role).2.2 := by
  cases role with
  | send =>
    exact .unlocks ⟨.send, rfl, trivial⟩ rfl rfl fun _ hsend => absurd rfl hsend
  | control rest =>
    rw [finish]
    have hfault (h : t.fault ≠ 0) :
        (latch ⟨⟨e.state, t.ehcill.h4, e.pending⟩, t.fault, t.locked⟩ result).fault = t.fault :=
      latch_fault_of_ne ⟨⟨e.state, t.ehcill.h4, e.pending⟩, t.fault, t.locked⟩ h result
    split
    · exact .unlocks ⟨.control rest, rfl, trivial⟩ rfl rfl fun h _ => hfault h
    · exact .unlocks ⟨.control rest, rfl, trivial⟩ rfl rfl fun h _ => hfault h
  | packet rest =>
    rw [finish]
    have hpc : ¬ (Point.inside (.packet rest) p).Holds := not_holds_packet rfl
    refine .stays (iff_of_false ?_ hpc) (fun h => absurd h hpc) rfl rfl
    split
    all_goals exact not_holds rfl

theorem effect_runProtocol (t : Transport) (role : Role) (p : Protocol) (input : Input) :
    Effect t (.inside role p) (t.runProtocol role p input).1
      (t.runProtocol role p input).2.2 := by
  have hmoves {pc' : Point} (h' : pc'.role? = some role) : Effect t (.inside role p) t pc' :=
    .stays (by rw [holds_iff h', holds_iff rfl]) (fun _ => h') rfl rfl
  unfold runProtocol
  split
  · exact effect_finish ..
  all_goals exact hmoves rfl

/-- **The step lemma for the lock and the fault.** -/
theorem effect (t : Transport) (pc : Point) (input : Input) :
    Effect t pc (body t pc input).1 (body t pc input).2.2 := by
  have hstays {pc pc' : Point} (h : pc.role? = none) (h' : pc'.role? = none) :
      Effect t pc t pc' :=
    .stays (iff_of_false (not_holds h') (not_holds h)) (fun hpc => absurd hpc (not_holds h)) rfl rfl
  have hmoves {pc pc' : Point} {role : Role} (h : pc.role? = some role)
      (h' : pc'.role? = some role) : Effect t pc t pc' :=
    .stays (by rw [holds_iff h, holds_iff h']) (fun _ => by rw [h, h']) rfl rfl
  unfold body
  split
  · split
    all_goals exact hstays rfl rfl
  · -- `send` at the lock
    split
    · exact hstays rfl rfl
    split
    · exact hstays rfl rfl
    · next hfree hfault =>
      exact .locks (not_holds rfl) ⟨.send, rfl, trivial⟩ (Bool.eq_false_iff.mpr hfree) rfl rfl
        fun _ => not_not.mp hfault
  · exact hstays rfl rfl
  · split
    · exact hstays rfl rfl
    split
    all_goals exact hstays rfl rfl
  · refine hstays rfl ?_
    split
    all_goals rfl
  · repeat' split
    all_goals exact hstays rfl rfl
  · repeat' split
    all_goals exact hstays rfl rfl
  · -- `latch_fault`
    split
    · exact hstays rfl rfl
    · next hfree =>
      exact .latches (not_holds rfl) (not_holds rfl) (Bool.eq_false_iff.mpr hfree)
        ((latch_locked t _).trans (Bool.eq_false_iff.mpr hfree))
        fun hfault => latch_fault_of_ne t hfault _
  · exact hstays rfl rfl
  · split
    · exact hstays rfl rfl
    · -- a packet byte, without the lock
      exact .stays (iff_of_false (not_holds_packet rfl) (not_holds rfl))
        (fun hpc => absurd hpc (not_holds rfl)) rfl rfl
  · -- a control byte at the lock
    split
    · exact hstays rfl rfl
    · next hfree =>
      exact .locks (not_holds rfl) ⟨.control _, rfl, trivial⟩ (Bool.eq_false_iff.mpr hfree) rfl
        rfl nofun
  · exact effect_runProtocol ..
  · exact hmoves rfl rfl
  · repeat' split
    all_goals exact hmoves rfl rfl
  · split
    all_goals exact hmoves rfl rfl
  · exact .stays Iff.rfl (fun _ => rfl) rfl rfl

/-- What a silent section leaves of the silence: it writes nothing and stays silent, unless it takes
the lock. -/
structure SilentStep (t : Transport) (pc : Point) (notes : List Note) (pc' : Point) : Prop where
  writes_nothing : ∀ bytes, .wrote bytes ∉ notes
  silent : pc'.Silent ∨ pc'.Holds ∧ t.locked = false ∧
    (t.fault = 0 ∨ ∃ byte rest, pc = .locking byte rest ∧ t.ehcill.Answers byte)

theorem silentStep_of_silent {notes : List Note} {pc' : Point}
    (hnotes : ∀ bytes, .wrote bytes ∉ notes) (h : pc'.Silent) : SilentStep t pc notes pc' :=
  ⟨hnotes, .inl h⟩

theorem Silent.of_call {c : EhcillCall} {k : Int → Protocol} (h : Silent (.call c k)) :
    ¬ c.IsWrite ∧ ∀ result, Silent (k result) := by
  constructor
  · -- any answers will do
    have hexec := (ensures_call.mp h 0).exec (fun _ u => (0, u)) ()
    exact hexec _ mem_cons_self
  · intro result
    exact (ensures_call.mp h result).mono fun _ calls hcalls c hc =>
      hcalls c (mem_cons_of_mem _ hc)

theorem silent_step_runProtocol {role : Role} {p : Protocol} (h : Silent p) (input : Input) :
    (∀ bytes, .wrote bytes ∉ (t.runProtocol role p input).2.1) ∧
      (t.runProtocol role p input).2.2.Silent := by
  unfold runProtocol
  split
  · cases role with
    | send => exact ⟨by simp [finish], trivial⟩
    | control rest =>
      rw [finish]
      split
      · exact ⟨by simp, trivial⟩
      · exact ⟨by simp, trivial⟩
    | packet rest =>
      rw [finish]
      refine ⟨by simp, ?_⟩
      split <;> trivial
  · exact absurd trivial h.of_call.1
  · exact absurd trivial h.of_call.1
  · exact absurd trivial h.of_call.1
  · exact ⟨by simp, h.of_call.2 _⟩
  · exact ⟨by simp, h⟩

/-- **The step lemma for the device.** -/
theorem silent_step (h : pc.Silent) (input : Input) :
    SilentStep t pc (body t pc input).2.1 (body t pc input).2.2 := by
  unfold body
  split
  · split
    · exact silentStep_of_silent (by simp) trivial
    · exact silentStep_of_silent (by simp) trivial
  · -- `send` takes the lock
    split
    · exact silentStep_of_silent (by simp) trivial
    split
    · exact silentStep_of_silent (by simp) trivial
    · next hfree hfault =>
      exact ⟨by simp, .inr ⟨⟨.send, rfl, trivial⟩, Bool.eq_false_iff.mpr hfree,
        .inl (not_not.mp hfault)⟩⟩
  · exact silentStep_of_silent (by simp) trivial
  · repeat' split
    all_goals exact silentStep_of_silent (by simp) trivial
  · refine silentStep_of_silent (by simp) ?_
    split <;> trivial
  · repeat' split
    all_goals exact silentStep_of_silent (by simp) trivial
  · repeat' split
    all_goals exact silentStep_of_silent (by simp) trivial
  · repeat' split
    all_goals exact silentStep_of_silent (by simp) trivial
  · exact silentStep_of_silent (by simp) trivial
  · split
    · exact silentStep_of_silent (by simp) trivial
    · next hpacket =>
      exact silentStep_of_silent (by simp)
        (Ehcill.silent_feed fun hcontrol => absurd hcontrol hpacket)
  · -- a control byte takes the lock
    split
    · exact silentStep_of_silent (by simp) trivial
    · next byte rest hfree =>
      by_cases hanswers : t.ehcill.Answers byte
      · exact ⟨by simp, .inr ⟨⟨.control rest, rfl, trivial⟩, Bool.eq_false_iff.mpr hfree,
          .inr ⟨byte, rest, rfl, hanswers⟩⟩⟩
      · exact silentStep_of_silent (by simp) (Ehcill.silent_feed fun _ => hanswers)
  · exact silentStep_of_silent (silent_step_runProtocol h _).1 (silent_step_runProtocol h _).2
  · exact absurd h id
  · exact absurd h id
  · exact absurd h id
  · exact silentStep_of_silent (by simp) h

/-! ### Every interleaving -/

/-- One thread at most holds the lock; the fault is 0 while a frame is sent; and no thread can write
that is not under the lock, or that is there with a fault set. -/
structure Inv (s : Threads.State Transport Point) : Prop where
  locked : ∀ i, (s.pc i).Holds → s.shared.locked = true
  unique : ∀ i j, (s.pc i).Holds → (s.pc j).Holds → i = j
  sends : ∀ i, (s.pc i).role? = some .send → s.shared.fault = 0
  silent : ∀ i, s.shared.fault ≠ 0 ∨ ¬ (s.pc i).Holds → (s.pc i).Silent

/-- A control byte that is answered must not come to the lock with a fault set, and nobody then
sends an empty frame. -/
def Allowed (s : Threads.State Transport Point) (e : Nat × Input) : Prop :=
  s.shared.fault ≠ 0 →
    (∀ byte rest, s.pc e.1 = .locking byte rest → s.shared.locked = false →
      ¬ s.shared.ehcill.Answers byte) ∧
    ¬ (s.pc e.1 = .ready ∧ e.2 = .send [])

theorem inv_initial : Inv initial := by
  have hpc (i : Nat) : (initial.pc i).role? = none ∧ (initial.pc i).Silent := by
    rw [initial]
    dsimp only
    split
    · exact ⟨rfl, trivial⟩
    · exact ⟨rfl, trivial⟩
  exact ⟨fun i h => absurd h (not_holds (hpc i).1), fun i j h => absurd h (not_holds (hpc i).1),
    fun i h => (by rw [(hpc i).1] at h; cases h), fun i _ => (hpc i).2⟩

variable {s : Threads.State Transport Point} {i : Nat}

theorem fault_step (h : Inv s) (hfault : s.shared.fault ≠ 0) (i : Nat) (input : Input) :
    (threads.step s i input).shared.fault = s.shared.fault := by
  cases effect s.shared (s.pc i) input with
  | stays _ _ hsame => exact hsame
  | locks _ _ _ _ hsame => exact hsame
  | unlocks _ _ _ hsame => exact hsame hfault fun hsend => hfault (h.sends i hsend)
  | latches _ _ _ _ hsame => exact hsame hfault

/-- With a fault set, a thread that cannot write still cannot. -/
theorem silent_step_of_fault (hallowed : Allowed s (i, input)) (hfault : s.shared.fault ≠ 0)
    (hsilent : (s.pc i).Silent) : (body s.shared (s.pc i) input).2.2.Silent := by
  rcases (silent_step (t := s.shared) hsilent input).silent with
    h | ⟨-, hfree, hzero | ⟨byte, rest, hpc, hanswers⟩⟩
  · exact h
  · exact absurd hzero hfault
  · exact absurd hanswers ((hallowed hfault).1 byte rest hpc hfree)

theorem Inv.not_holds (h : Inv s) (hfree : s.shared.locked = false) (j : Nat) :
    ¬ (s.pc j).Holds := fun hj => by
  rw [h.locked j hj] at hfree
  cases hfree

theorem not_holds_of_latched (h : Inv s) {j : Nat} {input : Input} (hj : j ≠ i)
    (hzero : s.shared.fault = 0) (hfault : (threads.step s i input).shared.fault ≠ 0) :
    ¬ (s.pc j).Holds := by
  cases effect s.shared (s.pc i) input with
  | stays _ _ hsame => exact absurd (hsame.trans hzero) hfault
  | locks _ _ _ _ hsame => exact absurd (hsame.trans hzero) hfault
  | unlocks hpc => exact fun hholds => hj (h.unique j i hholds hpc)
  | latches _ _ hfree => exact h.not_holds hfree j

theorem silent_after (h : Inv s) (input : Input) (hallowed : Allowed s (i, input)) (j : Nat)
    (hj : (threads.step s i input).shared.fault ≠ 0 ∨
      ¬ ((threads.step s i input).pc j).Holds) : ((threads.step s i input).pc j).Silent := by
  by_cases hji : j = i
  · subst hji
    have hself : (threads.step s j input).pc j = (body s.shared (s.pc j) input).2.2 :=
      Threads.step_pc_self j input
    rw [hself] at hj ⊢
    -- the thread that moved
    by_cases hfault : s.shared.fault ≠ 0
    · exact silent_step_of_fault hallowed hfault (h.silent j (.inl hfault))
    have hzero := not_not.mp hfault
    by_cases hpc : (s.pc j).Holds
    · cases effect s.shared (s.pc j) input with
      | stays hholds _ hsame =>
        exact (hj.elim (fun hj => hj (hsame.trans hzero)) fun hj => hj (hholds.mpr hpc)).elim
      | locks hnot => exact absurd hpc hnot
      | unlocks _ hpc' => exact silent_of_role hpc'
      | latches hnot => exact absurd hpc hnot
    · rcases (silent_step (t := s.shared) (h.silent j (.inr hpc)) input).silent with
        hsilent | ⟨hpc', -⟩
      · exact hsilent
      · cases effect s.shared (s.pc j) input with
        | stays hholds => exact absurd (hholds.mp hpc') hpc
        | locks _ _ _ _ hsame =>
          exact (hj.elim (fun hj => hj (hsame.trans hzero)) fun hj => hj hpc').elim
        | unlocks hnot => exact absurd hnot hpc
        | latches _ hnot => exact absurd hpc' hnot
  · have hother : (threads.step s i input).pc j = s.pc j := Threads.step_pc_of_ne hji input
    rw [hother] at hj ⊢
    refine h.silent j ?_
    rcases hj with hj | hj
    · by_cases hfault : s.shared.fault ≠ 0
      · exact .inl hfault
      · exact .inr (not_holds_of_latched h hji (not_not.mp hfault) hj)
    · exact .inr hj

/-- **The step.** -/
theorem inv_step (h : Inv s) (i : Nat) (input : Input) (hallowed : Allowed s (i, input)) :
    Inv (threads.step s i input) := by
  have hself : (threads.step s i input).pc i = (body s.shared (s.pc i) input).2.2 :=
    Threads.step_pc_self i input
  have hother {j : Nat} (hj : j ≠ i) : (threads.step s i input).pc j = s.pc j :=
    Threads.step_pc_of_ne hj input
  have hsend {j : Nat} (hj : ((threads.step s i input).pc j).role? = some .send) :
      ((threads.step s i input).pc j).Holds := ⟨.send, hj, trivial⟩
  -- who holds the lock then, if the one that moved does not
  have hothers (hi : ¬ ((threads.step s i input).pc i).Holds) {j : Nat}
      (hj : ((threads.step s i input).pc j).Holds) : j ≠ i ∧ (s.pc j).Holds := by
    have hji : j ≠ i := by
      rintro rfl
      exact hi hj
    rw [hother hji] at hj
    exact ⟨hji, hj⟩
  cases effect s.shared (s.pc i) input with
  | stays hholds hrole hfault hlocked =>
    rw [← hself] at hholds hrole
    have hiff (j : Nat) : ((threads.step s i input).pc j).Holds ↔ (s.pc j).Holds := by
      by_cases hj : j = i
      · rw [hj, hholds]
      · rw [hother hj]
    refine ⟨fun j hj => hlocked.trans (h.locked j ((hiff j).mp hj)),
      fun j k hj hk => h.unique j k ((hiff j).mp hj) ((hiff k).mp hk), fun j hj => ?_,
      silent_after h input hallowed⟩
    refine hfault.trans (h.sends j ?_)
    by_cases hji : j = i
    · subst hji
      rw [← hrole (hholds.mp (hsend hj))]
      exact hj
    · rwa [hother hji] at hj
  | locks hpc hpc' hfree hlocked hfault hsendfault =>
    rw [← hself] at hpc' hsendfault
    have honly {j : Nat} (hj : ((threads.step s i input).pc j).Holds) : j = i := by
      by_contra hji
      rw [hother hji] at hj
      exact h.not_holds hfree j hj
    refine ⟨fun _ _ => hlocked, fun j k hj hk => (honly hj).trans (honly hk).symm, fun j hj => ?_,
      silent_after h input hallowed⟩
    obtain rfl := honly (hsend hj)
    exact hfault.trans (hsendfault hj)
  | unlocks hpc hpc' hlocked hfault =>
    rw [← hself] at hpc'
    have hnone (j : Nat) : ¬ ((threads.step s i input).pc j).Holds := fun hj => by
      obtain ⟨hji, hj⟩ := hothers (not_holds hpc') hj
      exact hji (h.unique j i hj hpc)
    exact ⟨fun j hj => absurd hj (hnone j), fun j k hj => absurd hj (hnone j),
      fun j hj => absurd (hsend hj) (hnone j), silent_after h input hallowed⟩
  | latches hpc hpc' hfree hlocked hfault =>
    rw [← hself] at hpc'
    have hnone (j : Nat) : ¬ ((threads.step s i input).pc j).Holds := fun hj =>
      h.not_holds hfree j (hothers hpc' hj).2
    exact ⟨fun j hj => absurd hj (hnone j), fun j k hj => absurd hj (hnone j),
      fun j hj => absurd (hsend hj) (hnone j), silent_after h input hallowed⟩

/-! ### Runs with a fault set -/

/-- A fault is set, and the threads are as `Inv` says. -/
structure Faulty (fault : Int) (s : Threads.State Transport Point) : Prop where
  inv : Inv s
  fault_eq : s.shared.fault = fault
  ne : fault ≠ 0

variable {fault : Int} {events : List (Nat × Input)}

theorem Faulty.fault_ne (h : Faulty fault s) : s.shared.fault ≠ 0 := h.fault_eq ▸ h.ne

theorem faulty_step (h : Faulty fault s) (i : Nat) (input : Input)
    (hallowed : Allowed s (i, input)) : Faulty fault (threads.step s i input) :=
  ⟨inv_step h.inv i input hallowed, (fault_step h.inv h.fault_ne i input).trans h.fault_eq, h.ne⟩

theorem faulty_run (h : Faulty fault s) (hall : threads.machine.Throughout Allowed s events) :
    Faulty fault (threads.machine.run s events) :=
  Threads.run_invariant_of (Faulty fault) (fun _ i input h => faulty_step h i input) h hall

theorem writes_nothing_run (h : Faulty fault s)
    (hall : threads.machine.Throughout Allowed s events) (i : Nat) (bytes : List UInt8) :
    (i, .wrote bytes) ∉ threads.history s events := by
  induction events generalizing s with
  | nil => exact not_mem_nil
  | cons e events ih =>
    rw [Threads.history_cons, mem_append, not_or]
    refine ⟨fun hmem => ?_, ih (faulty_step h e.1 e.2 hall.1) hall.2⟩
    have hsilent : (s.pc e.1).Silent := h.inv.silent e.1 (.inl h.fault_ne)
    exact (silent_step (t := s.shared) hsilent e.2).writes_nothing bytes
      (Threads.mem_notes.mp hmem).2

/-- The thread has called and not looked at the fault yet. -/
def Point.Begun : Point → Prop
  | .sending _ => True
  | .entered => True
  | _ => False

theorem returns_of_begun (h : Faulty fault s) (hbegun : (s.pc i).Begun)
    (hfree : s.shared.locked = false) (input : Input) :
    threads.notes s i input = [(i, .returned fault)] := by
  have hbody : (body s.shared (s.pc i) input).2.1 = [.returned fault] := by
    cases hpc : s.pc i with
    | sending frame => simp [body, hfree, h.fault_eq, h.ne]
    | entered => simp [body, hfree, h.fault_eq, h.ne]
    | _ =>
      rw [hpc] at hbegun
      exact hbegun.elim
  change ((body s.shared (s.pc i) input).2.1).map (Prod.mk i) = _
  rw [hbody]
  rfl

theorem waits_of_begun (hbegun : (s.pc i).Begun) (htaken : s.shared.locked = true)
    (input : Input) : threads.step s i input = s ∧ threads.notes s i input = [] := by
  apply Threads.step_of_still
  change body s.shared (s.pc i) input = _
  cases hpc : s.pc i with
  | sending frame => simp [body, htaken]
  | entered => simp [body, htaken]
  | _ =>
    rw [hpc] at hbegun
    exact hbegun.elim

theorem first_note (h : Faulty fault s) (hbegun : (s.pc i).Begun)
    (hall : threads.machine.Throughout Allowed s events) {n : Nat × Note}
    (hn : (threads.history s events).find? (fun n => n.1 = i) = some n) :
    n.2 = .returned fault := by
  induction events generalizing s with
  | nil => cases hn
  | cons e events ih =>
    obtain ⟨j, input⟩ := e
    have hnext := faulty_step h j input hall.1
    rw [Threads.history_cons, List.find?_append] at hn
    by_cases hj : j = i
    · subst hj
      cases hlocked : s.shared.locked with
      | false =>
        rw [returns_of_begun h hbegun hlocked] at hn
        simp at hn
        rw [← hn]
      | true =>
        obtain ⟨hstep, hnotes⟩ := waits_of_begun hbegun hlocked input
        rw [hnotes] at hn
        refine ih hnext ?_ hall.2 (by simpa using hn)
        rwa [hstep]
    · have hnone : (threads.notes s j input).find? (fun n => n.1 = i) = none := by
        refine List.find?_eq_none.mpr fun n hmem => ?_
        rw [(Threads.mem_notes (i := j) (j := n.1) (n := n.2).mp hmem).1]
        simpa using hj
      rw [hnone] at hn
      refine ih hnext ?_ hall.2 (by simpa using hn)
      rwa [Threads.step_pc_of_ne (Ne.symm hj)]

theorem began_body (h : .began ∈ (body t pc input).2.1) :
    (pc = .ready ∧ ∃ frame, input = .send frame) ∨ (pc = .listening ∧ input = .receive) := by
  unfold body at h
  split at h
  · exact .inl ⟨rfl, _, rfl⟩
  · repeat' split at h
    all_goals simp at h
  · exact .inr ⟨rfl, rfl⟩
  · repeat' split at h
    all_goals simp at h
  · simp at h
  · repeat' split at h
    all_goals simp at h
  · repeat' split at h
    all_goals simp at h
  · repeat' split at h
    all_goals simp at h
  · simp at h
  · split at h
    all_goals simp at h
  · split at h
    all_goals simp at h
  · -- the protocol notes deliveries, and at its end what it returns
    unfold runProtocol finish at h
    repeat' split at h
    all_goals simp at h
  · simp at h
  · repeat' split at h
    all_goals simp at h
  · split at h
    all_goals simp at h
  · simp at h

theorem begun_of_began (hfault : s.shared.fault ≠ 0) {j : Nat} {input : Input}
    (hallowed : Allowed s (j, input)) {pre post : List (Nat × Note)}
    (h : threads.notes s j input = pre ++ (i, .began) :: post) :
    j = i ∧ post = [] ∧ ((threads.step s j input).pc i).Begun := by
  have hmem : (i, Note.began) ∈ threads.notes s j input := by
    rw [h]
    exact mem_append_right _ mem_cons_self
  obtain ⟨rfl, hbegan⟩ := Threads.mem_notes.mp hmem
  have hpost (pc : Point) (hbody : body s.shared (s.pc i) input = (s.shared, [.began], pc)) :
      post = [] ∧ (threads.step s i input).pc i = pc := by
    constructor
    · have hnotes : threads.notes s i input = [(i, .began)] := by
        change ((body s.shared (s.pc i) input).2.1).map (Prod.mk i) = _
        rw [hbody]
        rfl
      rw [hnotes] at h
      cases pre with
      | nil => exact (List.cons.inj h).2.symm
      | cons n pre => simp at h
    · rw [Threads.step_pc_self]
      change (body s.shared (s.pc i) input).2.2 = pc
      rw [hbody]
  rcases began_body hbegan with ⟨hpc, frame, rfl⟩ | ⟨hpc, rfl⟩
  · have hframe : frame ≠ [] := by
      rintro rfl
      exact (hallowed hfault).2 ⟨hpc, rfl⟩
    obtain ⟨hnil, hnext⟩ := hpost (.sending frame) (by rw [hpc, body, if_neg hframe])
    exact ⟨rfl, hnil, by rw [hnext]; trivial⟩
  · obtain ⟨hnil, hnext⟩ := hpost .entered (by rw [hpc, body])
    exact ⟨rfl, hnil, by rw [hnext]; trivial⟩

/-- What a latched fault is to mean from here on. -/
structure Latched (s : Threads.State Transport Point) (events : List (Nat × Input)) : Prop where
  constant : (threads.machine.run s events).shared.fault = s.shared.fault
  writes_nothing : ∀ i bytes, (i, .wrote bytes) ∉ threads.history s events
  /-- Of a call that begins, the thread next notes that the fault was returned. -/
  answers : ∀ i pre post, threads.history s events = pre ++ (i, .began) :: post →
    ∀ n, post.find? (fun n => n.1 = i) = some n → n.2 = .returned s.shared.fault
  /-- And it is with the next section for which the lock is free. -/
  returns : ∀ i input, ((threads.machine.run s events).pc i).Begun →
    (threads.machine.run s events).shared.locked = false →
      threads.notes (threads.machine.run s events) i input = [(i, .returned s.shared.fault)]

theorem latched_of_faulty (h : Faulty fault s)
    (hall : threads.machine.Throughout Allowed s events) : Latched s events := by
  obtain rfl := h.fault_eq
  have hrun := faulty_run h hall
  refine ⟨hrun.fault_eq, writes_nothing_run h hall, fun i pre post hhistory n hn => ?_,
    fun i input hbegun hfree => returns_of_begun hrun hbegun hfree input⟩
  obtain ⟨before, e, after, l, r, rfl, hnotes, -, rfl⟩ :=
    Threads.exists_step_of_history hhistory
  obtain ⟨hbefore, hallowed, hafter⟩ := threads.machine.throughout_append.mp hall
  have hreached := faulty_run h hbefore
  obtain ⟨-, rfl, hbegun⟩ := begun_of_began hreached.fault_ne hallowed hnotes
  exact first_note (faulty_step hreached e.1 e.2 hallowed) hbegun hafter hn

/-- **Fault latching**, in every run in which no control byte that is answered comes to the lock
with a fault set. -/
theorem fault_latched (before after : List (Nat × Input))
    (hall : threads.machine.Throughout Allowed initial (before ++ after))
    (hfault : (threads.machine.run initial before).shared.fault ≠ 0) :
    Latched (threads.machine.run initial before) after := by
  obtain ⟨hbefore, hafter⟩ := threads.machine.throughout_append.mp hall
  have hinv : Inv (threads.machine.run initial before) :=
    Threads.run_invariant_of Inv (fun _ i input h => inv_step h i input) inv_initial hbefore
  exact latched_of_faulty ⟨hinv, rfl, hfault⟩ hafter

/-- A frame whose write fails with `EIO`. -/
def failedSend : List (Nat × Input) :=
  [(1, .send [7]), (1, .receive), (1, .receive), (1, .answer (-1) EIO []), (1, .receive)]

theorem fault_latched_failedSend :
    Latched (threads.machine.run initial failedSend) [(0, .receive), (0, .receive)] := by
  have hzero {s : Threads.State Transport Point} {e : Nat × Input} (h : s.shared.fault = 0) :
      Allowed s e := fun hfault => absurd h hfault
  refine fault_latched failedSend [(0, .receive), (0, .receive)] ?_ (by decide)
  refine ⟨hzero rfl, hzero rfl, hzero rfl, hzero rfl, hzero rfl, fun _ => ⟨?_, ?_⟩,
    fun _ => ⟨?_, ?_⟩, trivial⟩
  · intro byte rest h
    cases h
  · rintro ⟨h, -⟩
    cases h
  · intro byte rest h
    cases h
  · rintro ⟨h, -⟩
    cases h

/-- A receiver that has read a byte that announces sleep. -/
def sleepRead : List (Nat × Input) :=
  [(0, .receive), (0, .receive), (0, .answer 0 0 []), (0, .answer 1 0 [0x30]), (0, .receive)]

/-- It answers after a send has failed. -/
theorem sleep_answered_after_fault :
    (threads.machine.run initial (sleepRead ++ failedSend)).shared.fault = - EIO ∧
      ¬ Latched (threads.machine.run initial (sleepRead ++ failedSend))
        [(0, .receive), (0, .receive), (0, .answer 1 0 [])] := by
  refine ⟨by decide, fun h => h.writes_nothing 0 [0x31] ?_⟩
  decide

end Transport

end Brickwright.Bluetooth
