import Brickwright.Lump.Engine
import Brickwright.Machine.Basic
import Brickwright.Ring.Basic
import Brickwright.Ring.DropOldest

/-!
# The ring of DATA frames is a queue that drops its oldest frame (`lump_data_queue.h`)

The operations of the ring are a machine, with the null pointers its callers may pass. Beside it
stands what the ring is for: a `SessionFifo` remembers every frame pushed since the latest `begin`
and the number of `begin`s that succeeded, and answers from that history.

* `Refines` — the cells from `tail` on are what the history holds.
* `refines_step` — one operation of both machines keeps the relation, and both answer alike.
* `data_queue_refines` — the result for every sequence of operations from boot.
-/

namespace Brickwright.Lump

open List

/-! ## The machine of the ring -/

/-- `struct lump_data_session_frame_s`. -/
structure SessionFrame where
  session : UInt64
  frame : DataFrame
  reserved : UInt32
  deriving DecidableEq, Repr

/-- One call. A pointer that may be null is an option: the frame to push, the record to fill. -/
inductive QueueOp where
  | begin
  | invalidate
  | push (frame : Option DataFrame)
  | pop (out : Option SessionFrame)
  deriving DecidableEq, Repr

/-- The return value (`OK` for a `void` function) and the caller's record afterwards. -/
structure QueueAnswer where
  rc : Int
  out : Option SessionFrame
  deriving DecidableEq, Repr

namespace DataQueue

def boot : DataQueue :=
  ⟨List.replicate queueDepth.toNat ⟨0, 0, List.replicate maxPayload 0⟩, 0, 0, 0, 0, 0, false⟩

/-- `lump_data_queue_push` of a pointer. -/
def pushFrom (q : DataQueue) : Option DataFrame → Int × DataQueue
  | none => (-EINVAL, q)
  | some frame => q.push frame

/-- `lump_data_queue_pop` into the caller's record. -/
def popInto (q : DataQueue) : Option SessionFrame → Int × Option SessionFrame × DataQueue
  | none => (-EINVAL, none, q)
  | some out =>
    match q.pop with
    | (none, q) => (-EAGAIN, some out, q)
    | (some (session, frame), q) => (0, some ⟨session, frame, 0⟩, q)

/-- What pop after pop returns, until one is refused. -/
def poppable : Nat → DataQueue → List SessionFrame
  | 0, _ => []
  | k + 1, q =>
    match q.pop with
    | (none, _) => []
    | (some (session, frame), q) => ⟨session, frame, 0⟩ :: poppable k q

/-- The operations under the port mutex. -/
def machine : Machine DataQueue QueueOp QueueAnswer where
  step q
    | .begin => let (rc, q) := q.begin; (q, ⟨rc, none⟩)
    | .invalidate => (q.invalidate, ⟨OK, none⟩)
    | .push frame => let (rc, q) := q.pushFrom frame; (q, ⟨rc, none⟩)
    | .pop out => let (rc, out, q) := q.popInto out; (q, ⟨rc, out⟩)

/-- The session numbers of the `begin`s of a run that succeeded, in order. -/
def begunSessions : DataQueue → List QueueOp → List UInt64
  | _, [] => []
  | q, .begin :: ops =>
    let (rc, q) := q.begin
    if rc = 0 then q.session :: begunSessions q ops else begunSessions q ops
  | q, op :: ops => begunSessions (machine.step q op).1 ops

end DataQueue

/-! ## What the ring is for -/

/-- The frames pushed since the latest `begin`, each under the number of the `begin` it belongs to
and with whether it has been popped. -/
structure SessionFifo where
  /-- How many `begin`s succeeded so far. -/
  begun : Nat
  /-- The latest `begin` succeeded and nothing was invalidated since. -/
  live : Bool
  pushed : List ((Nat × DataFrame) × Bool)

namespace SessionFifo

def depth : Nat := 16

/-- `session` is a `uint64_t` and never starts again. -/
def maxSession : Nat := 2 ^ 64 - 1

def zero : SessionFifo := ⟨0, false, []⟩

def Valid (frame : DataFrame) : Prop :=
  frame.len ≠ 0 ∧ frame.len.toNat ≤ maxPayload ∧ frame.mode < maxModes

instance (frame : DataFrame) : Decidable (Valid frame) :=
  inferInstanceAs (Decidable (_ ∧ _ ∧ _))

/-- The frames a consumer can still get: of the last 16 pushed, those not popped. -/
def held (s : SessionFifo) : List (Nat × DataFrame) :=
  if s.live then DropOldest.held depth s.pushed else []

def evicted (s : SessionFifo) : List (Nat × DataFrame) := DropOldest.evicted depth s.pushed

def record (e : Nat × DataFrame) : SessionFrame := ⟨UInt64.ofNat e.1, e.2, 0⟩

def begin (s : SessionFifo) : Int × SessionFifo :=
  if s.begun = maxSession then (-EOVERFLOW, { s with live := false, pushed := [] })
  else (0, ⟨s.begun + 1, true, []⟩)

def push (s : SessionFifo) : Option DataFrame → Int × SessionFifo
  | none => (-EINVAL, s)
  | some frame =>
    if ¬ Valid frame then (-EINVAL, s)
    else if s.live = false then (-EAGAIN, s)
    else (0, { s with pushed := DropOldest.push s.pushed (s.begun, frame) })

def pop (s : SessionFifo) : Option SessionFrame → Int × Option SessionFrame × SessionFifo
  | none => (-EINVAL, none, s)
  | some out =>
    match s.held with
    | [] => (-EAGAIN, some out, s)
    | e :: _ => (0, some (record e), { s with pushed := DropOldest.pop depth s.pushed })

def machine : Machine SessionFifo QueueOp QueueAnswer where
  step s
    | .begin => let (rc, s) := s.begin; (s, ⟨rc, none⟩)
    | .invalidate => ({ s with live := false }, ⟨OK, none⟩)
    | .push frame => let (rc, s) := s.push frame; (s, ⟨rc, none⟩)
    | .pop out => let (rc, out, s) := s.pop out; (s, ⟨rc, out⟩)

end SessionFifo

/-! ## The ring holds what the history says -/

/-- The frame a cell outside the ring would hold. -/
def noFrame : DataFrame := ⟨0, 0, []⟩

/-- **The simulation relation.** -/
structure Refines (q : DataQueue) (s : SessionFifo) : Prop where
  cells : q.frames.length = SessionFifo.depth
  ring : Ring.Holds noFrame q.frames q.head.toNat q.tail.toNat q.count.toNat (s.held.map Prod.snd)
  live : q.active = s.live
  begun : q.session.toNat = s.begun
  dropped : q.dropped = UInt32.ofNat s.evicted.length
  ordered : DropOldest.Ordered SessionFifo.depth s.pushed
  /-- Everything in the history belongs to the latest session. -/
  stamps : ∀ e ∈ s.pushed.map Prod.fst, e.1 = s.begun

theorem queueDepth_toNat : queueDepth.toNat = SessionFifo.depth := rfl

theorem next_toNat (c : UInt8) :
    ((c + 1) % queueDepth).toNat = (c.toNat + 1) % SessionFifo.depth := by
  rw [UInt8.toNat_mod, UInt8.toNat_add, queueDepth_toNat, SessionFifo.depth]
  show (c.toNat + 1) % 256 % 16 = _
  omega

namespace Refines

variable {q : DataQueue} {s : SessionFifo}

theorem zero : Refines .boot .zero where
  cells := rfl
  ring := Ring.Holds.empty (by decide)
  live := rfl
  begun := rfl
  dropped := rfl
  ordered := DropOldest.ordered_nil
  stamps := fun _ h => absurd h not_mem_nil

theorem count_toNat (hr : Refines q s) : q.count.toNat = s.held.length := by
  rw [hr.ring.count_eq, length_map]

theorem next_cell (hr : Refines q s) (c : UInt8) :
    ((c + 1) % queueDepth).toNat = (c.toNat + 1) % q.frames.length := by
  rw [next_toNat, hr.cells]

theorem held_live (s : SessionFifo) (hlive : s.live = true) :
    s.held = DropOldest.held SessionFifo.depth s.pushed := by
  rw [SessionFifo.held, if_pos hlive]

theorem emptied (hr : Refines q s) {active : Bool} {session : UInt64} {dropped : UInt32}
    {s' : SessionFifo} (hlive : active = s'.live) (hbegun : session.toNat = s'.begun)
    (hdropped : dropped = UInt32.ofNat s'.evicted.length)
    (hord : DropOldest.Ordered SessionFifo.depth s'.pushed)
    (hstamps : ∀ e ∈ s'.pushed.map Prod.fst, e.1 = s'.begun) (hheld : s'.held = []) :
    Refines ⟨q.frames, session, dropped, 0, 0, 0, active⟩ s' where
  cells := hr.cells
  ring := by
    rw [hheld]
    apply Ring.Holds.empty
    rw [hr.cells]
    decide
  live := hlive
  begun := hbegun
  dropped := hdropped
  ordered := hord
  stamps := hstamps

theorem invalidate (hr : Refines q s) : Refines q.invalidate { s with live := false } :=
  hr.emptied rfl hr.begun hr.dropped hr.ordered hr.stamps rfl

theorem begin (hr : Refines q s) :
    q.begin.1 = s.begin.1 ∧ Refines q.begin.2 s.begin.2 := by
  have hnone (n : Nat) : ∀ e ∈ ([] : List (Nat × DataFrame)), e.1 = n :=
    fun _ h => absurd h not_mem_nil
  rw [DataQueue.begin, SessionFifo.begin]
  by_cases hmax : q.session = 0xffffffffffffffff
  · have hbegun : s.begun = SessionFifo.maxSession := by
      rw [← hr.begun, hmax]
      rfl
    rw [if_pos (by simpa [DataQueue.invalidate] using hmax), if_pos hbegun]
    exact ⟨rfl, hr.emptied rfl hr.begun rfl DropOldest.ordered_nil (hnone _) rfl⟩
  · have hlt : q.session.toNat < 2 ^ 64 - 1 := by
      have hne : q.session.toNat ≠ (0xffffffffffffffff : UInt64).toNat :=
        fun h => hmax (UInt64.toNat_inj.mp h)
      have hbound := q.session.toNat_lt
      have hval : (0xffffffffffffffff : UInt64).toNat = 2 ^ 64 - 1 := rfl
      omega
    have hbegun : s.begun ≠ SessionFifo.maxSession := by
      rw [← hr.begun, SessionFifo.maxSession]
      omega
    have hnext : (q.session + 1).toNat = s.begun + 1 := by
      rw [UInt64.toNat_add, ← hr.begun]
      show (q.session.toNat + 1) % 2 ^ 64 = _
      omega
    rw [if_neg (by simpa [DataQueue.invalidate] using hmax), if_neg hbegun]
    exact ⟨rfl, hr.emptied rfl hnext rfl DropOldest.ordered_nil (hnone _) rfl⟩

theorem update (hr : Refines q s) (hlive : s.live = true) {frames : List DataFrame}
    {dropped : UInt32} {head tail count : UInt8} {pushed : List ((Nat × DataFrame) × Bool)}
    (hcells : frames.length = SessionFifo.depth)
    (hring : Ring.Holds noFrame frames head.toNat tail.toNat count.toNat
      ((DropOldest.held SessionFifo.depth pushed).map Prod.snd))
    (hdropped : dropped = UInt32.ofNat (DropOldest.evicted SessionFifo.depth pushed).length)
    (hord : DropOldest.Ordered SessionFifo.depth pushed)
    (hstamps : ∀ e ∈ pushed.map Prod.fst, e.1 = s.begun) :
    Refines ⟨frames, q.session, dropped, head, tail, count, q.active⟩
      { s with pushed := pushed } where
  cells := hcells
  ring := by
    rw [SessionFifo.held, if_pos hlive]
    exact hring
  live := hr.live
  begun := hr.begun
  dropped := hdropped
  ordered := hord
  stamps := hstamps

/-! ### Pop -/

variable {e : Nat × DataFrame}

theorem record_eq (hr : Refines q s) (he : e ∈ s.held) :
    SessionFifo.record e = ⟨q.session, e.2, 0⟩ := by
  have hmem : e ∈ s.pushed.map Prod.fst := by
    rw [SessionFifo.held] at he
    split at he
    · exact DropOldest.mem_of_mem_held he
    · exact absurd he not_mem_nil
  rw [SessionFifo.record, hr.stamps e hmem, ← hr.begun, UInt64.ofNat_toNat]

variable {rest : List (Nat × DataFrame)}

/-- Something is held only in a live session. -/
theorem live_of_held (hheld : s.held = e :: rest) : s.live = true := by
  by_contra h
  rw [SessionFifo.held, if_neg h] at hheld
  cases hheld

theorem pop_none (hr : Refines q s) (hheld : s.held = []) : q.pop = (none, q) := by
  have hcount : q.count = 0 := by
    have h := hr.count_toNat
    rw [hheld] at h
    exact UInt8.toNat_inj.mp h
  rw [DataQueue.pop, if_pos (.inr hcount)]

theorem advance (hr : Refines q s)
    (hheld : s.held = e :: rest) : q.frames.getD q.tail.toNat noFrame = e.2 ∧
      Ring.Holds noFrame q.frames q.head.toNat ((q.tail + 1) % queueDepth).toNat
        (q.count - 1).toNat (rest.map Prod.snd) := by
  have hring := hr.ring
  rw [hheld, map_cons] at hring
  obtain ⟨holdest, hrest⟩ := hring.pop
  have hcount : q.count.toNat = rest.length + 1 := by
    rw [hr.count_toNat, hheld, length_cons]
  have hless : (q.count - 1).toNat = q.count.toNat - 1 := by
    apply UInt8.toNat_sub_of_le
    rw [UInt8.le_iff_toNat_le, hcount]
    exact Nat.le_add_left 1 _
  refine ⟨holdest, ?_⟩
  rw [hr.next_cell, hless]
  exact hrest

theorem pop_some (hr : Refines q s) (hheld : s.held = e :: rest) : q.pop.1 = some (q.session, e.2) ∧
      Refines q.pop.2 { s with pushed := DropOldest.pop SessionFifo.depth s.pushed } := by
  have hlive := live_of_held hheld
  have hpos : ¬ (q.active = false ∨ q.count = 0) := by
    have hcount := hr.count_toNat
    rw [hr.live, hlive, ← UInt8.toNat_inj, hcount, hheld]
    simp
  obtain ⟨holdest, hring⟩ := hr.advance hheld
  rw [held_live s hlive] at hheld
  obtain ⟨hord, hpop, hev⟩ := DropOldest.pop_of_held hr.ordered hheld
  rw [DataQueue.pop, if_neg hpos]
  refine ⟨by rw [← holdest]; rfl, ?_⟩
  apply hr.update hlive hr.cells
  · rw [hpop]
    exact hring
  · rw [hr.dropped, SessionFifo.evicted, hev]
  · exact hord
  · rw [DropOldest.map_fst_pop]
    exact hr.stamps

/-! ### Push -/

variable {frame : DataFrame}

theorem valid_iff : SessionFifo.Valid frame ↔
    ¬ (frame.len = 0 ∨ frame.len.toNat > maxPayload ∨ frame.mode ≥ maxModes) := by
  rw [SessionFifo.Valid, not_or, not_or, Nat.not_lt, ge_iff_le, UInt8.not_le]

theorem push_invalid (h : ¬ SessionFifo.Valid frame) :
    q.push frame = (-EINVAL, q) := by
  rw [DataQueue.push, if_pos (not_not.mp (valid_iff.not.mp h))]

/-- A push in a session: the frame is appended, a full ring first loses its oldest entry. -/
theorem push_valid (hr : Refines q s) (hvalid : SessionFifo.Valid frame)
    (hlive : s.live = true) : (q.push frame).1 = 0 ∧ Refines (q.push frame).2
      { s with pushed := DropOldest.push s.pushed (s.begun, frame) } := by
  have hactive : ¬ q.active = false := by
    rw [hr.live, hlive]
    exact Bool.noConfusion
  have hstamps : ∀ e ∈ (DropOldest.push s.pushed (s.begun, frame)).map Prod.fst,
      e.1 = s.begun := by
    intro e he
    rw [DropOldest.push, map_append, mem_append] at he
    rcases he with he | he
    · exact hr.stamps e he
    · obtain rfl := mem_singleton.mp he
      rfl
  have hcount := hr.count_toNat
  rw [held_live s hlive] at hcount
  rw [DataQueue.push, if_neg (valid_iff.mp hvalid), if_neg hactive]
  refine ⟨rfl, ?_⟩
  by_cases hfull : q.count = queueDepth
  · rw [if_pos hfull]
    have hlen : (DropOldest.held SessionFifo.depth s.pushed).length = SessionFifo.depth := by
      rw [← hcount, hfull, queueDepth_toNat]
    -- full: the oldest entry goes, and its cell is where the new one is written
    obtain ⟨hord, hheld, hev⟩ :=
      DropOldest.push_of_full (x := (s.begun, frame)) hr.ordered (by decide) hlen
    cases hkept : DropOldest.held SessionFifo.depth s.pushed with
    | nil =>
      rw [hkept] at hlen
      cases hlen
    | cons e rest =>
      obtain ⟨-, hring⟩ := hr.advance ((held_live s hlive).trans hkept)
      rw [hkept, length_cons] at hlen
      have hless : (q.count - 1 + 1).toNat = (q.count - 1).toNat + 1 := by
        rw [hfull]
        rfl
      apply hr.update hlive
      · exact (length_set ..).trans hr.cells
      · rw [hheld, hkept, tail_cons, map_append, hless, hr.next_cell]
        apply hring.push
        rw [length_map, hr.cells]
        omega
      · rw [hev, hr.dropped, SessionFifo.evicted]
        exact (UInt32.ofNat_add _ 1).symm
      · exact hord
      · exact hstamps
  · rw [if_neg hfull]
    have hlen : (DropOldest.held SessionFifo.depth s.pushed).length < SessionFifo.depth := by
      apply Nat.lt_of_le_of_ne DropOldest.length_held_le
      rw [← hcount, ← queueDepth_toNat]
      exact fun h => hfull (UInt8.toNat_inj.mp h)
    -- room: the counter of the entries stays below the depth, so it does not wrap
    obtain ⟨hord, hheld, hev⟩ := DropOldest.push_of_lt (x := (s.begun, frame)) hr.ordered hlen
    have hmore : (q.count + 1).toNat = q.count.toNat + 1 := by
      rw [UInt8.toNat_add, hcount]
      apply Nat.mod_eq_of_lt
      exact Nat.lt_trans (Nat.succ_lt_succ hlen) (by decide)
    have hring := hr.ring
    rw [held_live s hlive] at hring
    apply hr.update hlive
    · exact (length_set ..).trans hr.cells
    · rw [hheld, map_append, hmore, hr.next_cell]
      apply hring.push
      rw [length_map, hr.cells]
      exact hlen
    · rw [hev]
      exact hr.dropped
    · exact hord
    · exact hstamps

end Refines

/-! ## One operation -/

open Refines

variable {q : DataQueue} {s : SessionFifo}

theorem refines_push (hr : Refines q s) (frame : Option DataFrame) :
    (q.pushFrom frame).1 = (s.push frame).1 ∧ Refines (q.pushFrom frame).2 (s.push frame).2 := by
  cases frame with
  | none => exact ⟨rfl, hr⟩
  | some frame =>
    rw [DataQueue.pushFrom, SessionFifo.push]
    by_cases hvalid : SessionFifo.Valid frame
    · rw [if_neg (not_not.mpr hvalid)]
      by_cases hlive : s.live = false
      · rw [if_pos hlive, DataQueue.push, if_neg (valid_iff.mp hvalid),
          if_pos (hr.live.trans hlive)]
        exact ⟨rfl, hr⟩
      · rw [if_neg hlive]
        exact hr.push_valid hvalid (Bool.eq_true_of_not_eq_false hlive)
    · rw [if_pos hvalid, push_invalid hvalid]
      exact ⟨rfl, hr⟩

theorem refines_pop (hr : Refines q s) (out : Option SessionFrame) :
    (q.popInto out).1 = (s.pop out).1 ∧ (q.popInto out).2.1 = (s.pop out).2.1 ∧
      Refines (q.popInto out).2.2 (s.pop out).2.2 := by
  cases out with
  | none => exact ⟨rfl, rfl, hr⟩
  | some out =>
    rw [DataQueue.popInto, SessionFifo.pop]
    cases hheld : s.held with
    | nil =>
      rw [hr.pop_none hheld]
      exact ⟨rfl, rfl, hr⟩
    | cons e rest =>
      obtain ⟨hout, hnext⟩ := hr.pop_some hheld
      have hpop : q.pop = (some (q.session, e.2), q.pop.2) := Prod.ext hout rfl
      have hrecord := hr.record_eq (hheld ▸ mem_cons_self)
      rw [hpop]
      exact ⟨rfl, congrArg some hrecord.symm, hnext⟩

/-- **One operation** of both machines: the same answer, and the relation again. -/
theorem refines_step (hr : Refines q s) (op : QueueOp) :
    (DataQueue.machine.step q op).2 = (SessionFifo.machine.step s op).2 ∧
      Refines (DataQueue.machine.step q op).1 (SessionFifo.machine.step s op).1 := by
  cases op with
  | begin =>
    obtain ⟨hrc, hnext⟩ := hr.begin
    exact ⟨congrArg (QueueAnswer.mk · none) hrc, hnext⟩
  | invalidate => exact ⟨rfl, hr.invalidate⟩
  | push frame =>
    obtain ⟨hrc, hnext⟩ := refines_push hr frame
    exact ⟨congrArg (QueueAnswer.mk · none) hrc, hnext⟩
  | pop out =>
    obtain ⟨hrc, hout, hnext⟩ := refines_pop hr out
    exact ⟨congrArg₂ QueueAnswer.mk hrc hout, hnext⟩

/-- **Every run** of both machines. -/
theorem refines_run (hr : Refines q s) (ops : List QueueOp) :
    DataQueue.machine.trace q ops = SessionFifo.machine.trace s ops ∧
      Refines (DataQueue.machine.run q ops) (SessionFifo.machine.run s ops) := by
  induction ops generalizing q s with
  | nil => exact ⟨rfl, hr⟩
  | cons op ops ih =>
    obtain ⟨hanswer, hnext⟩ := refines_step hr op
    obtain ⟨htrace, hrun⟩ := ih hnext
    refine ⟨?_, hrun⟩
    rw [Machine.trace_cons, Machine.trace_cons, hanswer, htrace]

theorem Refines.poppable_eq (hr : Refines q s) (k : Nat) :
    q.poppable k = (s.held.map SessionFifo.record).take k := by
  induction k generalizing q s with
  | zero => rfl
  | succ k ih =>
    rw [DataQueue.poppable]
    cases hheld : s.held with
    | nil =>
      rw [hr.pop_none hheld]
      rfl
    | cons e rest =>
      obtain ⟨hout, hnext⟩ := hr.pop_some hheld
      have hpop : q.pop = (some (q.session, e.2), q.pop.2) := Prod.ext hout rfl
      have hrecord := hr.record_eq (hheld ▸ mem_cons_self)
      have hlive := live_of_held hheld
      have hrest : SessionFifo.held
          { s with pushed := DropOldest.pop SessionFifo.depth s.pushed } = rest := by
        rw [held_live s hlive] at hheld
        rw [SessionFifo.held, if_pos hlive]
        exact (DropOldest.pop_of_held hr.ordered hheld).2.1
      rw [hpop]
      show (⟨q.session, e.2, 0⟩ : SessionFrame) :: DataQueue.poppable k q.pop.2 = _
      rw [ih hnext, hrest, ← hrecord, map_cons, take_succ_cons]

/-! ## Sessions -/

theorem begin_session (hrc : q.begin.1 = 0) : q.session < q.begin.2.session := by
  rw [DataQueue.begin] at hrc ⊢
  split at hrc
  · cases hrc
  · rename_i hmax
    rw [if_neg hmax]
    show q.session < q.session + 1
    have hne : q.session.toNat ≠ (0xffffffffffffffff : UInt64).toNat :=
      fun h => hmax (UInt64.toNat_inj.mp h)
    have hbound := q.session.toNat_lt
    rw [UInt64.lt_iff_toNat_lt, UInt64.toNat_add]
    show _ < (q.session.toNat + 1) % 2 ^ 64
    have hval : (0xffffffffffffffff : UInt64).toNat = 2 ^ 64 - 1 := rfl
    omega

theorem begin_failed (hrc : q.begin.1 ≠ 0) : q.begin.2.session = q.session := by
  rw [DataQueue.begin] at hrc ⊢
  split at hrc
  · rename_i hmax
    rw [if_pos hmax]
    rfl
  · exact absurd rfl hrc

theorem step_session {op : QueueOp} (hop : op ≠ .begin) :
    (DataQueue.machine.step q op).1.session = q.session := by
  cases op with
  | begin => exact absurd rfl hop
  | invalidate => rfl
  | push frame =>
    cases frame with
    | none => rfl
    | some frame =>
      show (q.push frame).2.session = q.session
      rw [DataQueue.push]
      split
      · rfl
      split
      · rfl
      split <;> rfl
  | pop out =>
    cases out with
    | none => rfl
    | some out =>
      show (q.popInto (some out)).2.2.session = q.session
      rw [DataQueue.popInto, DataQueue.pop]
      split <;> rename_i h <;> split at h <;> cases h <;> rfl

theorem begunSessions_increasing (q : DataQueue) (ops : List QueueOp) :
    (q.session :: q.begunSessions ops).Pairwise (· < ·) := by
  induction ops generalizing q with
  | nil => exact pairwise_singleton ..
  | cons op ops ih =>
    by_cases hop : op = .begin
    · subst hop
      by_cases hrc : q.begin.1 = 0
      · have hlt := begin_session hrc
        have hnext := ih q.begin.2
        show (q.session :: if q.begin.1 = 0 then _ else _).Pairwise (· < ·)
        rw [if_pos hrc]
        refine List.Pairwise.cons ?_ hnext
        intro n hn
        rcases mem_cons.mp hn with rfl | hn
        · exact hlt
        · exact UInt64.lt_trans hlt (rel_of_pairwise_cons hnext hn)
      · show (q.session :: if q.begin.1 = 0 then _ else _).Pairwise (· < ·)
        rw [if_neg hrc, ← begin_failed hrc]
        exact ih q.begin.2
    · have hnext := ih (DataQueue.machine.step q op).1
      rw [step_session hop] at hnext
      cases op with
      | begin => exact absurd rfl hop
      | invalidate => exact hnext
      | push frame => exact hnext
      | pop out => exact hnext

/-! ## The result -/

theorem einval_neg : -EINVAL < 0 := by decide

theorem eagain_neg : -EAGAIN < 0 := by decide

theorem push_refused (hlive : q.active = false) (frame : Option DataFrame) :
    (q.pushFrom frame).1 < 0 ∧ (q.pushFrom frame).2 = q := by
  cases frame with
  | none => exact ⟨einval_neg, rfl⟩
  | some frame =>
    rw [DataQueue.pushFrom]
    by_cases hvalid : SessionFifo.Valid frame
    · rw [DataQueue.push, if_neg (valid_iff.mp hvalid), if_pos hlive]
      exact ⟨eagain_neg, rfl⟩
    · rw [push_invalid hvalid]
      exact ⟨einval_neg, rfl⟩

theorem pop_refused (hlive : q.active = false) (out : Option SessionFrame) :
    (q.popInto out).1 < 0 ∧ (q.popInto out).2 = (out, q) := by
  cases out with
  | none => exact ⟨einval_neg, rfl⟩
  | some out =>
    rw [DataQueue.popInto, DataQueue.pop, if_pos (.inl hlive)]
    exact ⟨eagain_neg, rfl⟩

/-- The ring after a sequence of operations from boot. -/
def DataQueue.after (ops : List QueueOp) : DataQueue := DataQueue.machine.run .boot ops

/-- The history after the same sequence. -/
def SessionFifo.after (ops : List QueueOp) : SessionFifo := SessionFifo.machine.run .zero ops

/-- **The ring is a bounded queue that drops its oldest frame, with session stamps.** After every
sequence of operations from boot:

* every answer so far was the answer of the queue that remembers its history;
* what successive pops return is what is held: in a session, the frames among the last 16 pushed
  since its `begin` that were not popped, in push order;
* each of them is returned under the number of the `begin` it was pushed under, and the numbers of
  the successful `begin`s go up and none is 0;
* `dropped` counts the evicted frames modulo `2 ^ 32`;
* outside a session every push and pop is refused, the caller's record and the ring unchanged. -/
theorem data_queue_refines (ops : List QueueOp) :
    DataQueue.machine.trace .boot ops = SessionFifo.machine.trace .zero ops ∧
    (∀ k, (DataQueue.after ops).poppable k =
      ((SessionFifo.after ops).held.map SessionFifo.record).take k) ∧
    ((SessionFifo.after ops).held = if (SessionFifo.after ops).live
      then DropOldest.held 16 (SessionFifo.after ops).pushed else []) ∧
    ((DataQueue.after ops).session.toNat = (SessionFifo.after ops).begun ∧
      ∀ e ∈ (SessionFifo.after ops).pushed.map Prod.fst, e.1 = (SessionFifo.after ops).begun) ∧
    ((DataQueue.begunSessions .boot ops).Pairwise (· < ·) ∧
      ∀ n ∈ DataQueue.begunSessions .boot ops, n ≠ 0) ∧
    (DataQueue.after ops).dropped =
      UInt32.ofNat (DropOldest.evicted 16 (SessionFifo.after ops).pushed).length ∧
    ((SessionFifo.after ops).live = false → ∀ frame out,
      ((DataQueue.after ops).pushFrom frame).1 < 0 ∧
      ((DataQueue.after ops).pushFrom frame).2 = DataQueue.after ops ∧
      ((DataQueue.after ops).popInto out).1 < 0 ∧
      ((DataQueue.after ops).popInto out).2 = (out, DataQueue.after ops)) := by
  obtain ⟨htrace, hr⟩ := refines_run Refines.zero ops
  have hsessions := begunSessions_increasing .boot ops
  refine ⟨htrace, hr.poppable_eq, rfl, ⟨hr.begun, hr.stamps⟩, ⟨List.Pairwise.of_cons hsessions, ?_⟩,
    hr.dropped, ?_⟩
  · rintro n hn rfl
    have hlt : DataQueue.boot.session < 0 := rel_of_pairwise_cons hsessions hn
    exact absurd hlt (by decide)
  · intro hlive frame out
    have hactive : (DataQueue.after ops).active = false := hr.live.trans hlive
    obtain ⟨hpush, hsame⟩ := push_refused hactive frame
    obtain ⟨hpop, hout⟩ := pop_refused hactive out
    exact ⟨hpush, hsame, hpop, hout⟩

end Brickwright.Lump
