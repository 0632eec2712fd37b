import Brickwright.Bits.Words
import Brickwright.Drivebase.Chardev.Basic
import Brickwright.Ring.Coalescing

/-!
# The command ring as a queue with STOPs

`db_push_envelope` and `db_pop_envelope` are the two ends of a queue of at most seven envelopes in
which the STOPs are urgent (`Coalescing`). `queues_push` and `queues_pop` say so of a single call,
and `ledger_run` of every run: the balance of what was pushed, popped, shed and replaced.

The sequence number of an envelope is the number of its push among those that succeeded, in 32 bits;
so it only grows until there have been that many pushes.
-/

namespace Brickwright.Drivebase.Chardev

open List

/-- `DB_CMD_RING_DEPTH - 1`: one cell stays free. -/
def ringRoom : Nat := 7

/-- What is called on the ring. A push is given what `nxmutex_lock` returned. -/
inductive RingOp where
  | push (lock : Int) (cmdKind : Cmd) (epoch : UInt32) (payload : List UInt8)
  | pop (outOk : Bool) (lock : Int)
  deriving DecidableEq

inductive RingNote where
  /-- A push returned 0. -/
  | accepted (cmdKind : Cmd) (epoch : UInt32) (payload : List UInt8)
  /-- A push found no room. -/
  | full
  /-- A push failed for another reason. -/
  | failed (ret : Int)
  | popped (env : Envelope)
  /-- An envelope made room for a STOP. -/
  | shed (env : Envelope)
  /-- A STOP was written over by a STOP. -/
  | replaced (env : Envelope)
  deriving DecidableEq

def Dev.envelope (dev : Dev) (cmdKind : Cmd) (epoch : UInt32) (payload : List UInt8) : Envelope :=
  ⟨cmdKind, dev.cmdSeq + 1, epoch, payloadCell payload⟩

/-- A call, with what becomes of envelopes when the ring is taken for the queue it is. -/
def Dev.ringStep (dev : Dev) : RingOp → Dev × List RingNote
  | .push lock cmdKind epoch payload =>
    let (dev', ret) := dev.pushEnvelope lock cmdKind epoch payload
    let env := dev.envelope cmdKind epoch payload
    (dev',
      if ret = 0 then
        (Coalescing.shed Envelope.isStop ringRoom dev.queue env).map .shed ++
          (Coalescing.replaced Envelope.isStop dev.queue env).map .replaced ++
          [.accepted cmdKind epoch payload]
      else if payload.length ≤ cmdPayloadBytes ∧ 0 ≤ lock then [.full]
      else [.failed ret])
  | .pop outOk lock =>
    match dev.popEnvelope outOk lock with
    | (dev', .ok env) => (dev', [.popped env])
    | (dev', .error _) => (dev', [])

def ringMachine : Machine Dev RingOp (List RingNote) where
  step := Dev.ringStep

/-! ## What is said of a run -/

def acceptedOf (h : List RingNote) : List (Cmd × UInt32 × List UInt8) :=
  h.filterMap fun
    | .accepted cmdKind epoch payload => some (cmdKind, epoch, payload)
    | _ => none

/-- Their envelopes, numbered from 1 on. -/
def stamped (h : List RingNote) : List Envelope :=
  (acceptedOf h).mapIdx fun n a => ⟨a.1, n + 1, a.2.1, Dev.payloadCell a.2.2⟩

def poppedOf (h : List RingNote) : List Envelope :=
  h.filterMap fun
    | .popped env => some env
    | _ => none

def shedOf (h : List RingNote) : List Envelope :=
  h.filterMap fun
    | .shed env => some env
    | _ => none

def replacedOf (h : List RingNote) : List Envelope :=
  h.filterMap fun
    | .replaced env => some env
    | _ => none

/-- The pushes that were refused because the ring was full. -/
def busyOf (h : List RingNote) : List RingNote := h.filter (· == .full)

/-- `cmd_seq` of an envelope, in the 32 bits it has in the ring. -/
def Envelope.seqWord (env : Envelope) : UInt32 := UInt32.ofNat env.cmdSeq

structure Ledger (h : List RingNote) (dev : Dev) : Prop where
  queues : dev.Queues dev.queue
  seq : dev.cmdSeq = (stamped h).length
  accounts : Coalescing.Accounts Envelope.isStop ringRoom (stamped h) (poppedOf h) dev.queue
    (shedOf h) (replacedOf h)
  depth : dev.status.cmdRingDepth = dev.queue.length
  drops : dev.status.cmdDropCount = (busyOf h).length + (shedOf h).length

variable {dev : Dev} {q : List Envelope} {h : List RingNote} {lock : Int} {cmdKind : Cmd}
  {epoch : UInt32} {payload : List UInt8}

/-! ## Single calls -/

namespace Dev.Queues

theorem endsUrgent (hq : dev.Queues q) :
    Coalescing.endsUrgent Envelope.isStop q = dev.newestIsStop := by
  rw [Bool.eq_iff_iff, hq.newestIsStop_iff]
  rcases eq_nil_or_concat q with rfl | ⟨l, old, rfl⟩
  · simp [Coalescing.endsUrgent]
  · rw [concat_eq_append, Coalescing.endsUrgent_concat]
    constructor
    · intro hstop
      exact ⟨l, old, rfl, hstop⟩
    · rintro ⟨l', old', heq, hstop⟩
      obtain ⟨-, hold⟩ := append_inj' heq rfl
      rw [singleton_inj] at hold
      exact hold ▸ hstop

theorem full_eq (hq : dev.Queues q) : (dev.full = true) = (q.length = ringRoom) := by
  rw [eq_iff_iff, hq.full_iff]
  exact Nat.succ_inj

theorem depth_store (hq : dev.Queues q) (hroom : q.length + 1 < cmdRingDepth) :
    (dev.store cmdKind epoch payload).status.cmdRingDepth = q.length + 1 := by
  have hstored := hq.store hroom cmdKind epoch payload
  have hcount := hstored.holds.count_of_indices hstored.room'
  rw [hstored.depth, length_append, length_singleton] at hcount
  exact hcount

end Dev.Queues

namespace Dev

theorem pushEnvelope_of_fits (dev : Dev) (cmdKind : Cmd) (epoch : UInt32)
    (hlen : payload.length ≤ cmdPayloadBytes) (hlock : 0 ≤ lock) :
    dev.pushEnvelope lock cmdKind epoch payload =
      if cmdKind = .stop then
        if dev.newestIsStop then (dev.coalesce epoch payload, 0)
        else if dev.full then (dev.dropOldest.store cmdKind epoch payload, 0)
        else (dev.store cmdKind epoch payload, 0)
      else if dev.full then
        ({ dev with status :=
            { dev.status with cmdDropCount := dev.status.cmdDropCount + 1 } }, -EBUSY)
      else (dev.store cmdKind epoch payload, 0) := by
  rw [pushEnvelope, if_neg (Nat.not_lt.mpr hlen), if_neg (Int.not_lt.mpr hlock)]

theorem pushEnvelope_of_not_fits (dev : Dev) (cmdKind : Cmd) (epoch : UInt32)
    (h : ¬(payload.length ≤ cmdPayloadBytes ∧ 0 ≤ lock)) :
    (dev.pushEnvelope lock cmdKind epoch payload).1 = dev ∧
      (dev.pushEnvelope lock cmdKind epoch payload).2 < 0 ∧
      ((dev.pushEnvelope lock cmdKind epoch payload).2 = -EINVAL ∨
        (dev.pushEnvelope lock cmdKind epoch payload).2 = lock) := by
  unfold pushEnvelope
  split
  · exact ⟨rfl, by simp [EINVAL], .inl rfl⟩
  · next hlen =>
    split
    · next hlock => exact ⟨rfl, hlock, .inr rfl⟩
    · next hlock => exact absurd ⟨Nat.not_lt.mp hlen, Int.not_lt.mp hlock⟩ h

namespace Queues

/-- **A push that the queue refuses** is counted. -/
theorem push_refused (hq : dev.Queues q) (hlen : payload.length ≤ cmdPayloadBytes)
    (hlock : 0 ≤ lock) (hpush : Coalescing.push Envelope.isStop ringRoom q
      (dev.envelope cmdKind epoch payload) = none) :
    dev.pushEnvelope lock cmdKind epoch payload =
      ({ dev with status :=
          { dev.status with cmdDropCount := dev.status.cmdDropCount + 1 } }, -EBUSY) := by
  obtain ⟨hstop, hfull⟩ := Coalescing.push_eq_none hpush
  have hkind : cmdKind ≠ .stop := fun heq => hstop (beq_iff_eq.mpr heq)
  rw [pushEnvelope_of_fits dev cmdKind epoch hlen hlock, if_neg hkind, if_pos (hq.full_eq ▸ hfull)]

/-- What a push that the queue takes makes of the ring. -/
structure Takes (dev dev' : Dev) (q' : List Envelope) (gone : Nat) : Prop where
  queues : dev'.Queues q'
  seq : dev'.cmdSeq = dev.cmdSeq + 1
  depth : dev'.status.cmdRingDepth = q'.length
  drops : dev'.status.cmdDropCount = dev.status.cmdDropCount + gone

/-- **A push that the queue takes** is one of the queue. A STOP comes with a payload. -/
theorem push_accepted {q' : List Envelope} (hq : dev.Queues q)
    (hdepth : dev.status.cmdRingDepth = q.length) (hlen : payload.length ≤ cmdPayloadBytes)
    (hlock : 0 ≤ lock) (hpayload : cmdKind = .stop → payload ≠ [])
    (hpush : Coalescing.push Envelope.isStop ringRoom q (dev.envelope cmdKind epoch payload) =
      some q') :
    (dev.pushEnvelope lock cmdKind epoch payload).2 = 0 ∧
      Takes dev (dev.pushEnvelope lock cmdKind epoch payload).1 q'
        (Coalescing.shed Envelope.isStop ringRoom q
          (dev.envelope cmdKind epoch payload)).length := by
  rw [pushEnvelope_of_fits dev cmdKind epoch hlen hlock]
  have hurgent : (dev.envelope cmdKind epoch payload).isStop = true ↔ cmdKind = .stop :=
    beq_iff_eq
  rcases Coalescing.push_cases hpush with
    ⟨hstop, ⟨l, old, rfl, hold, rfl, -⟩, hshed⟩ | ⟨hstop, hends, hfull, rfl, -⟩ |
    ⟨hends, hfull, rfl, -, hshed⟩
  · -- a STOP behind a STOP
    rw [if_pos (hurgent.mp hstop), if_pos (hq.newestIsStop_iff.mpr ⟨l, old, rfl, hold⟩)]
    have hcoalesce := hq.coalesce_overwrites epoch payload
    have hkind : old.cmdKind = cmdKind := (beq_iff_eq.mp hold).trans (hurgent.mp hstop).symm
    have hsome : payload.length > 0 := length_pos_iff.mpr (hpayload (hurgent.mp hstop))
    rw [hkind, if_pos hsome] at hcoalesce
    rw [hshed]
    refine ⟨rfl, hcoalesce, rfl, ?_, rfl⟩
    rw [length_append] at hdepth ⊢
    exact hdepth
  · -- a STOP in a full ring
    rw [hq.endsUrgent] at hends
    have hfull' : dev.full = true := hq.full_eq.mpr hfull
    rw [if_pos (hurgent.mp hstop), if_neg hends, if_pos hfull']
    have hdrop := hq.exists_drop (Bool.eq_false_iff.mpr hends) hfull'
    obtain ⟨hqueues, hseq, -, hstatus⟩ := hq.dropOldest_eraseP hdrop
    obtain ⟨env, henv, -⟩ := hdrop
    obtain ⟨hshed, hone⟩ := Coalescing.shed_one hstop (by rwa [hq.endsUrgent]) hfull
      (ne_nil_of_mem henv)
    have hroom : (q.eraseP fun env => !env.isStop).length + 1 < cmdRingDepth := by
      rw [hone]
      exact hq.room
    have hstored := hqueues.store hroom cmdKind epoch payload
    rw [hseq] at hstored
    rw [hshed]
    refine ⟨rfl, hstored, congrArg (· + 1) hseq, ?_, ?_⟩
    · rw [hqueues.depth_store hroom, length_append, length_singleton]
    · show dev.dropOldest.status.cmdDropCount = _
      rw [hstatus]
  · -- room is left
    have hnot : ¬dev.full = true := by
      rw [hq.full_eq]
      exact hfull
    have hroom := hq.room_of_not_full (Bool.eq_false_iff.mpr hnot)
    have hstore : (if cmdKind = .stop then
        if dev.newestIsStop then (dev.coalesce epoch payload, 0)
        else if dev.full then (dev.dropOldest.store cmdKind epoch payload, 0)
        else (dev.store cmdKind epoch payload, 0)
      else if dev.full then
        ({ dev with status :=
            { dev.status with cmdDropCount := dev.status.cmdDropCount + 1 } }, -EBUSY)
      else (dev.store cmdKind epoch payload, 0)) = (dev.store cmdKind epoch payload, 0) := by
      split
      · next hkind =>
        have := hends (hurgent.mpr hkind)
        rw [hq.endsUrgent] at this
        rw [if_neg this]
      · rfl
    rw [hstore, hshed]
    refine ⟨rfl, hq.store hroom cmdKind epoch payload, rfl, ?_, rfl⟩
    rw [hq.depth_store hroom, length_append, length_singleton]

/-- **A pop** takes the oldest envelope. -/
theorem pop_oldest {env : Envelope} (hq : dev.Queues (env :: q)) (hlock : 0 ≤ lock) :
    (dev.popEnvelope true lock).2 = .ok env ∧ (dev.popEnvelope true lock).1.Queues q ∧
      (dev.popEnvelope true lock).1.cmdSeq = dev.cmdSeq ∧
      (dev.popEnvelope true lock).1.status = { dev.status with cmdRingDepth := q.length } := by
  obtain ⟨holdest, hrest⟩ := hq.holds.pop
  have hcount := hrest.count_of_indices (Nat.lt_of_succ_lt hq.room')
  rw [hq.depth] at hrest hcount
  have hne : dev.cmdHead ≠ dev.cmdTail := hq.head_ne_tail_iff.mpr (cons_ne_nil _ _)
  rw [popEnvelope, if_neg (by decide), if_neg (Int.not_lt.mpr hlock), if_neg hne]
  refine ⟨congrArg Except.ok holdest, ⟨hq.depth, hrest, Nat.lt_of_succ_lt hq.room⟩, rfl, ?_⟩
  simp only [cmdRingNext, hcount]

theorem pop_empty (hq : dev.Queues []) (hlock : 0 ≤ lock) :
    dev.popEnvelope true lock = (dev, .error (-EAGAIN)) := by
  have heq : dev.cmdHead = dev.cmdTail := by
    by_contra hne
    exact hq.head_ne_tail_iff.mp hne rfl
  rw [popEnvelope, if_neg (by decide), if_neg (Int.not_lt.mpr hlock), if_pos heq]

theorem pop_failed (dev : Dev) {outOk : Bool} (h : ¬(outOk = true ∧ 0 ≤ lock)) :
    ∃ ret, dev.popEnvelope outOk lock = (dev, .error ret) := by
  unfold popEnvelope
  split
  · exact ⟨_, rfl⟩
  · next hout =>
    split
    · exact ⟨_, rfl⟩
    · next hlock =>
      exact absurd ⟨Bool.not_eq_false outOk ▸ hout, Int.not_lt.mp hlock⟩ h

end Queues

end Dev

/-! ## Runs -/

@[simp] theorem acceptedOf_append (h h' : List RingNote) :
    acceptedOf (h ++ h') = acceptedOf h ++ acceptedOf h' := filterMap_append

@[simp] theorem poppedOf_append (h h' : List RingNote) :
    poppedOf (h ++ h') = poppedOf h ++ poppedOf h' := filterMap_append

@[simp] theorem shedOf_append (h h' : List RingNote) :
    shedOf (h ++ h') = shedOf h ++ shedOf h' := filterMap_append

@[simp] theorem replacedOf_append (h h' : List RingNote) :
    replacedOf (h ++ h') = replacedOf h ++ replacedOf h' := filterMap_append

@[simp] theorem busyOf_append (h h' : List RingNote) :
    busyOf (h ++ h') = busyOf h ++ busyOf h' := filter_append h h'

theorem notes_of_push (gone old : List Envelope) :
    acceptedOf (gone.map .shed ++ old.map .replaced ++ [.accepted cmdKind epoch payload]) =
        [(cmdKind, epoch, payload)] ∧
      poppedOf (gone.map .shed ++ old.map .replaced ++ [.accepted cmdKind epoch payload]) = [] ∧
      shedOf (gone.map .shed ++ old.map .replaced ++ [.accepted cmdKind epoch payload]) = gone ∧
      replacedOf (gone.map .shed ++ old.map .replaced ++ [.accepted cmdKind epoch payload]) =
        old ∧
      busyOf (gone.map .shed ++ old.map .replaced ++ [.accepted cmdKind epoch payload]) = [] := by
  refine ⟨?_, ?_, ?_, ?_, ?_⟩
  · simp [acceptedOf, filterMap_map]
  · simp [poppedOf, filterMap_map]
  · simp [shedOf, filterMap_map]
  · simp [replacedOf, filterMap_map]
  · simp [busyOf, filter_map, Function.comp_def]

theorem stamped_concat {h' : List RingNote} (hnotes : acceptedOf h' = [(cmdKind, epoch, payload)]) :
    stamped (h ++ h') =
      stamped h ++ [⟨cmdKind, (stamped h).length + 1, epoch, Dev.payloadCell payload⟩] := by
  simp only [stamped, acceptedOf_append, hnotes, mapIdx_append, mapIdx_cons,
    mapIdx_nil, length_mapIdx, Nat.zero_add]

theorem stamped_quiet {h' : List RingNote} (hnotes : acceptedOf h' = []) :
    stamped (h ++ h') = stamped h := by
  rw [stamped, acceptedOf_append, hnotes, append_nil, stamped]

/-- A push, as far as the queue is concerned, when it is one the callers make. -/
def RingOp.Carries : RingOp → Prop
  | .push _ cmdKind _ payload => cmdKind = .stop → payload ≠ []
  | .pop _ _ => True

/-- A push that fails leaves the books as they are, but for the count. -/
theorem Ledger.refuse (hledger : Ledger h dev) {dev' : Dev} {note : RingNote}
    (hnote : note = .full ∨ ∃ ret, note = .failed ret) (hqueues : dev'.Queues dev.queue)
    (hseq : dev'.cmdSeq = dev.cmdSeq) (hdepth : dev'.status.cmdRingDepth = dev.status.cmdRingDepth)
    (hdrops : dev'.status.cmdDropCount = dev.status.cmdDropCount + (busyOf [note]).length) :
    Ledger (h ++ [note]) dev' := by
  have hqueue := hqueues.queue_eq
  have hquiet : acceptedOf [note] = [] ∧ poppedOf [note] = [] ∧ shedOf [note] = [] ∧
      replacedOf [note] = [] := by
    rcases hnote with rfl | ⟨ret, rfl⟩ <;> exact ⟨rfl, rfl, rfl, rfl⟩
  obtain ⟨haccepted, hpopped, hshed, hreplaced⟩ := hquiet
  have hstamped := @stamped_quiet h _ haccepted
  refine ⟨hqueue.symm ▸ hqueues, ?_, ?_, ?_, ?_⟩
  · rw [hstamped, hseq, hledger.seq]
  · rw [hstamped, hqueue, poppedOf_append, hpopped, shedOf_append, hshed, replacedOf_append,
      hreplaced, append_nil, append_nil, append_nil]
    exact hledger.accounts
  · rw [hqueue, hdepth, hledger.depth]
  · rw [hdrops, hledger.drops, busyOf_append, shedOf_append, hshed, append_nil,
      length_append]
    omega

/-- **A push keeps the books.** -/
theorem Ledger.push (hledger : Ledger h dev) (hcarries : cmdKind = .stop → payload ≠ []) :
    Ledger (h ++ (dev.ringStep (.push lock cmdKind epoch payload)).2)
      (dev.ringStep (.push lock cmdKind epoch payload)).1 := by
  have hqueues := hledger.queues
  simp only [Dev.ringStep]
  by_cases hfits : payload.length ≤ cmdPayloadBytes ∧ 0 ≤ lock
  · cases hpush : Coalescing.push Envelope.isStop ringRoom dev.queue
        (dev.envelope cmdKind epoch payload) with
    | none =>
      rw [hqueues.push_refused hfits.1 hfits.2 hpush, if_neg (by simp [EBUSY]), if_pos hfits]
      exact hledger.refuse (.inl rfl) ⟨hqueues.depth, hqueues.holds, hqueues.room⟩ rfl rfl rfl
    | some q' =>
      obtain ⟨hret, htaken, hseq, hdepth, hdrops⟩ :=
        hqueues.push_accepted hledger.depth hfits.1 hfits.2 hcarries hpush
      rw [if_pos hret]
      obtain ⟨haccepted, hpopped, hshed, hreplaced, hbusy⟩ :=
        @notes_of_push cmdKind epoch payload
          (Coalescing.shed Envelope.isStop ringRoom dev.queue (dev.envelope cmdKind epoch payload))
          (Coalescing.replaced Envelope.isStop dev.queue (dev.envelope cmdKind epoch payload))
      have hstamped := @stamped_concat h _ _ _ _ haccepted
      have hbooks := hledger.accounts.push (by decide) hpush
      have hqueue := htaken.queue_eq
      refine ⟨hqueue.symm ▸ htaken, ?_, ?_, ?_, ?_⟩
      · rw [hstamped, hseq, hledger.seq, length_append, length_singleton]
      · rw [hstamped, hqueue, poppedOf_append, hpopped, append_nil, shedOf_append, hshed,
          replacedOf_append, hreplaced, ← hledger.seq]
        exact hbooks
      · rw [hqueue, hdepth]
      · rw [hdrops, hledger.drops, busyOf_append, hbusy, append_nil, shedOf_append, hshed,
          length_append, Nat.add_assoc]
  · obtain ⟨hsame, hneg, -⟩ := Dev.pushEnvelope_of_not_fits dev cmdKind epoch hfits
    rw [if_neg (Int.ne_of_lt hneg), if_neg hfits, hsame]
    exact hledger.refuse (.inr ⟨_, rfl⟩) hqueues rfl rfl rfl

/-- **A pop keeps the books.** -/
theorem Ledger.pop (hledger : Ledger h dev) (outOk : Bool) (lock : Int) :
    Ledger (h ++ (dev.ringStep (.pop outOk lock)).2) (dev.ringStep (.pop outOk lock)).1 := by
  have hqueues := hledger.queues
  by_cases hcan : outOk = true ∧ 0 ≤ lock
  · obtain ⟨rfl, hlock⟩ := hcan
    cases hqueue : dev.queue with
    | nil =>
      rw [hqueue] at hqueues
      rw [Dev.ringStep, hqueues.pop_empty hlock, append_nil]
      exact hledger
    | cons env q =>
      rw [hqueue] at hqueues
      obtain ⟨henv, hrest, hseq, hstatus⟩ := hqueues.pop_oldest hlock
      have hpop : dev.popEnvelope true lock = ((dev.popEnvelope true lock).1, .ok env) :=
        Prod.ext rfl henv
      rw [Dev.ringStep, hpop]
      have hqueue' := hrest.queue_eq
      have haccounts := hledger.accounts
      rw [hqueue] at haccounts
      have hstamped := @stamped_quiet h [.popped env] rfl
      refine ⟨hqueue'.symm ▸ hrest, ?_, ?_, ?_, ?_⟩
      · rw [hstamped, hseq, hledger.seq]
      · rw [hstamped, hqueue', poppedOf_append, shedOf_append, replacedOf_append]
        simp only [shedOf, replacedOf, filterMap_cons, filterMap_nil, append_nil]
        exact haccounts.pop
      · rw [hqueue', hstatus]
      · have hbusy : busyOf [.popped env] = [] := rfl
        have hshed : shedOf [.popped env] = [] := rfl
        rw [hstatus, busyOf_append, shedOf_append, hbusy, hshed, append_nil, append_nil]
        exact hledger.drops
  · obtain ⟨ret, hpop⟩ := Dev.Queues.pop_failed dev hcan
    rw [Dev.ringStep, hpop, append_nil]
    exact hledger

theorem ledger_start (motorLPortIdx motorRPortIdx defaultOnCompletion : UInt8) :
    Ledger [] (Dev.afterAttach motorLPortIdx motorRPortIdx defaultOnCompletion) := by
  have hqueues := Dev.queues_afterAttach motorLPortIdx motorRPortIdx defaultOnCompletion
  have hqueue := hqueues.queue_eq
  refine ⟨hqueue.symm ▸ hqueues, rfl, ?_, ?_, rfl⟩
  · rw [hqueue]
    exact Coalescing.Accounts.empty
  · rw [hqueue]
    rfl

/-- **Every run keeps the books.** -/
theorem ledger_run (motorLPortIdx motorRPortIdx defaultOnCompletion : UInt8) (ops : List RingOp)
    (hcarries : ∀ op ∈ ops, op.Carries) :
    let start := Dev.afterAttach motorLPortIdx motorRPortIdx defaultOnCompletion
    Ledger (ringMachine.history start ops) (ringMachine.run start ops) := by
  intro start
  have hstep : ∀ (h : List RingNote) (dev : Dev) (op : RingOp), Ledger h dev → op.Carries →
      Ledger (h ++ (ringMachine.step dev op).2) (ringMachine.step dev op).1 := by
    intro h dev op hledger hop
    cases op with
    | push lock cmdKind epoch payload => exact hledger.push hop
    | pop outOk lock => exact hledger.pop outOk lock
  have hall : ringMachine.Throughout (fun _ op => RingOp.Carries op) start ops :=
    ringMachine.throughout_of_forall (fun op hop _ => hcarries op hop) start
  have hrun := Machine.history_invariant_of hstep
    (ledger_start motorLPortIdx motorRPortIdx defaultOnCompletion) ops hall
  rwa [nil_append] at hrun

theorem stamped_increasing (h : List RingNote) :
    (stamped h).Pairwise fun a b =>
      a.cmdSeq < b.cmdSeq ∧ b.cmdSeq ≤ (acceptedOf h).length := by
  rw [pairwise_iff_getElem]
  intro i j hi hj hij
  have hj' : j < (acceptedOf h).length := by rwa [stamped, length_mapIdx] at hj
  simp only [stamped, getElem_mapIdx]
  omega

/-- In 32 bits, as long as they have not wrapped. -/
theorem seqWord_increasing (hfew : (acceptedOf h).length < 2 ^ 32) :
    ((stamped h).map Envelope.seqWord).Pairwise (· < ·) := by
  rw [pairwise_map]
  refine (stamped_increasing h).imp ?_
  intro a b hab
  have hb : b.cmdSeq < 2 ^ 32 := Nat.lt_of_le_of_lt hab.2 hfew
  rw [Envelope.seqWord, Envelope.seqWord, UInt32.lt_iff_toNat_lt, UInt32.toNat_ofNat',
    UInt32.toNat_ofNat', Nat.mod_eq_of_lt hb, Nat.mod_eq_of_lt (Nat.lt_trans hab.1 hb)]
  exact hab.1

/-- What a call on the ring is of the queue. -/
def RingOp.Meets (dev : Dev) : RingOp → Prop
  | .push lock cmdKind epoch payload =>
    if payload.length ≤ cmdPayloadBytes ∧ 0 ≤ lock then
      match Coalescing.push Envelope.isStop ringRoom dev.queue
          (dev.envelope cmdKind epoch payload) with
      | some q' =>
        (dev.pushEnvelope lock cmdKind epoch payload).2 = 0 ∧
          (dev.pushEnvelope lock cmdKind epoch payload).1.queue = q'
      | none =>
        dev.pushEnvelope lock cmdKind epoch payload =
          ({ dev with status :=
              { dev.status with cmdDropCount := dev.status.cmdDropCount + 1 } }, -EBUSY)
    else
      (dev.pushEnvelope lock cmdKind epoch payload).1 = dev ∧
        (dev.pushEnvelope lock cmdKind epoch payload).2 < 0
  | .pop outOk lock =>
    if outOk = true ∧ 0 ≤ lock then
      match dev.queue with
      | env :: q =>
        (dev.popEnvelope outOk lock).2 = .ok env ∧ (dev.popEnvelope outOk lock).1.queue = q
      | [] => dev.popEnvelope outOk lock = (dev, .error (-EAGAIN))
    else ∃ ret, dev.popEnvelope outOk lock = (dev, .error ret)

theorem Ledger.meets (hledger : Ledger h dev) (op : RingOp) (hcarries : op.Carries) :
    op.Meets dev := by
  have hqueues := hledger.queues
  cases op with
  | push lock cmdKind epoch payload =>
    simp only [RingOp.Meets]
    by_cases hfits : payload.length ≤ cmdPayloadBytes ∧ 0 ≤ lock
    · rw [if_pos hfits]
      cases hpush : Coalescing.push Envelope.isStop ringRoom dev.queue
          (dev.envelope cmdKind epoch payload) with
      | none => exact hqueues.push_refused hfits.1 hfits.2 hpush
      | some q' =>
        obtain ⟨hret, htaken⟩ :=
          hqueues.push_accepted hledger.depth hfits.1 hfits.2 hcarries hpush
        exact ⟨hret, htaken.queues.queue_eq⟩
    · rw [if_neg hfits]
      obtain ⟨hsame, hneg, -⟩ := Dev.pushEnvelope_of_not_fits dev cmdKind epoch hfits
      exact ⟨hsame, hneg⟩
  | pop outOk lock =>
    simp only [RingOp.Meets]
    by_cases hcan : outOk = true ∧ 0 ≤ lock
    · rw [if_pos hcan]
      obtain ⟨rfl, hlock⟩ := hcan
      cases hqueue : dev.queue with
      | nil =>
        rw [hqueue] at hqueues
        exact hqueues.pop_empty hlock
      | cons env q =>
        rw [hqueue] at hqueues
        obtain ⟨henv, hrest, -⟩ := hqueues.pop_oldest hlock
        exact ⟨henv, hrest.queue_eq⟩
    · rw [if_neg hcan]
      exact Dev.Queues.pop_failed dev hcan

/-- **The ring is a queue with STOPs.** What is popped and what is still there are envelopes of
pushes, in their order, and numbered in it until 32 bits wrap. Every push that succeeded was popped
once, or is there, or made room for a STOP, or was a STOP that a STOP replaced. There are never more
than seven, and the counters count them. -/
theorem ring_queue (motorLPortIdx motorRPortIdx defaultOnCompletion : UInt8) (ops : List RingOp)
    (hcarries : ∀ op ∈ ops, op.Carries) :
    let start := Dev.afterAttach motorLPortIdx motorRPortIdx defaultOnCompletion
    let h := ringMachine.history start ops
    let dev := ringMachine.run start ops
    (poppedOf h ++ dev.queue).Sublist (stamped h) ∧
      ((acceptedOf h).length < 2 ^ 32 →
        ((poppedOf h ++ dev.queue).map Envelope.seqWord).Pairwise (· < ·)) ∧
      (poppedOf h ++ dev.queue ++ shedOf h ++ replacedOf h).Perm (stamped h) ∧
      (stamped h).Nodup ∧
      (∀ env ∈ shedOf h, env.cmdKind ≠ .stop) ∧ (∀ env ∈ replacedOf h, env.cmdKind = .stop) ∧
      dev.queue.length ≤ 7 ∧
      dev.status.cmdRingDepth = dev.queue.length ∧
      UInt32.ofNat dev.status.cmdDropCount =
        UInt32.ofNat ((busyOf h).length + (shedOf h).length) ∧
      ∀ op : RingOp, op.Carries → op.Meets dev := by
  intro start h dev
  have hledger : Ledger h dev :=
    ledger_run motorLPortIdx motorRPortIdx defaultOnCompletion ops hcarries
  obtain ⟨horder, hbalance, hshed, hreplaced, hlen⟩ := hledger.accounts
  refine ⟨horder, ?_, hbalance, ?_, ?_, ?_, hlen, hledger.depth, ?_, ?_⟩
  · intro hfew
    exact (seqWord_increasing hfew).sublist (horder.map Envelope.seqWord)
  · refine (stamped_increasing h).imp ?_
    rintro a b ⟨hlt, -⟩ rfl
    exact absurd hlt (Nat.lt_irrefl _)
  · intro env henv hstop
    exact hshed env henv (beq_iff_eq.mpr hstop)
  · intro env henv
    exact beq_iff_eq.mp (hreplaced env henv)
  · rw [hledger.drops]
  · intro op hop
    exact hledger.meets op hop

theorem ring_queue_stops :
    let ops := List.replicate 3 (RingOp.push 0 .stop 1 [0, 0, 0, 0, 0, 0, 0, 0]) ++
      [.push 0 .turn 1 [], .pop true 0]
    let h := ringMachine.history (Dev.afterAttach 0 1 0) ops
    (poppedOf h).length = 1 ∧ (replacedOf h).length = 2 ∧ (acceptedOf h).length = 4 ∧
      (poppedOf h ++ (ringMachine.run (Dev.afterAttach 0 1 0) ops).queue).Sublist (stamped h) := by
  intro ops h
  have hcarries : ∀ op ∈ ops, op.Carries := by
    intro op hop
    simp only [ops, mem_append, mem_replicate, mem_cons, not_mem_nil,
      or_false] at hop
    rcases hop with ⟨-, rfl⟩ | rfl | rfl
    · intro _
      simp
    · intro hstop
      cases hstop
    · trivial
  exact ⟨by decide, by decide, by decide, (ring_queue 0 1 0 ops hcarries).1⟩

/-! ## Where it is not a queue -/

/-- A command that the daemon picks up at once. -/
theorem push_pop (hq : dev.Queues []) (hdepth : dev.status.cmdRingDepth = 0) :
    ∃ dev', dev.ringStep (.push 0 .turn 0 []) = (dev', [.accepted .turn 0 []]) ∧
      (dev'.ringStep (.pop true 0)).2 = [.popped (dev.envelope .turn 0 [])] ∧
      (dev'.ringStep (.pop true 0)).1.Queues [] ∧
      (dev'.ringStep (.pop true 0)).1.status.cmdRingDepth = 0 ∧
      (dev'.ringStep (.pop true 0)).1.cmdSeq = dev.cmdSeq + 1 := by
  have hpush : Coalescing.push Envelope.isStop ringRoom [] (dev.envelope .turn 0 []) =
      some [dev.envelope .turn 0 []] := rfl
  have hnotStop : Cmd.turn = .stop → ([] : List UInt8) ≠ [] := by
    intro hstop
    cases hstop
  obtain ⟨hret, hqueues, hseq, -, -⟩ :=
    hq.push_accepted hdepth (Nat.zero_le _) (Int.le_refl 0) hnotStop hpush
  obtain ⟨henv, hrest, hseq', hstatus⟩ := hqueues.pop_oldest (Int.le_refl 0)
  refine ⟨(dev.pushEnvelope 0 .turn 0 []).1, ?_, ?_⟩
  · rw [Dev.ringStep]
    simp only [hret, if_pos, hq.queue_eq]
    rfl
  · have hpop : (dev.pushEnvelope 0 .turn 0 []).1.popEnvelope true 0 =
        (((dev.pushEnvelope 0 .turn 0 []).1.popEnvelope true 0).1,
          .ok (dev.envelope .turn 0 [])) := Prod.ext rfl henv
    rw [Dev.ringStep, hpop]
    refine ⟨rfl, hrest, ?_, hseq'.trans hseq⟩
    rw [hstatus]
    rfl

theorem popped_of_pairs (n : Nat) (hq : dev.Queues []) (hdepth : dev.status.cmdRingDepth = 0) :
    poppedOf (ringMachine.history dev
        (List.replicate n [RingOp.push 0 .turn 0 [], .pop true 0]).flatten) =
      (List.range n).map fun k => ⟨.turn, dev.cmdSeq + k + 1, 0, Dev.payloadCell []⟩ := by
  induction n generalizing dev with
  | zero => rfl
  | succ n ih =>
    obtain ⟨dev', hpush, hpop, hrest, hdepth', hseq⟩ := push_pop hq hdepth
    have hstep : ringMachine.step dev (.push 0 .turn 0 []) = (dev', [.accepted .turn 0 []]) :=
      hpush
    have hnotes : (ringMachine.step dev' (.pop true 0)).2 = [.popped (dev.envelope .turn 0 [])] :=
      hpop
    rw [replicate_succ, flatten_cons, cons_append, cons_append,
      nil_append, Machine.history_cons, Machine.history_cons, hstep, hnotes,
      poppedOf_append, poppedOf_append]
    have hlater := ih hrest hdepth'
    rw [hseq] at hlater
    rw [range_succ_eq_map, map_cons, map_map]
    refine congrArg (List.cons _) (hlater.trans ?_)
    refine map_congr_left fun k _ => ?_
    simp only [Function.comp_apply, Nat.succ_eq_add_one]
    rw [Nat.add_assoc dev.cmdSeq 1 k, Nat.add_comm 1 k]

theorem drops_of_full (n : Nat) (hq : dev.Queues q) (hfull : q.length = ringRoom) :
    let ops := List.replicate n (RingOp.push 0 .turn 0 [])
    busyOf (ringMachine.history dev ops) = List.replicate n .full ∧
      shedOf (ringMachine.history dev ops) = [] ∧
      (ringMachine.run dev ops).status.cmdDropCount = dev.status.cmdDropCount + n := by
  induction n generalizing dev with
  | zero => exact ⟨rfl, rfl, rfl⟩
  | succ n ih =>
    intro ops
    have hpush : Coalescing.push Envelope.isStop ringRoom q (dev.envelope .turn 0 []) = none := by
      have hturn : ¬(dev.envelope .turn 0 []).isStop = true := by
        simp [Dev.envelope, Envelope.isStop]
      rw [Coalescing.push, if_neg hturn, if_pos hfull]
    have hrefused := hq.push_refused (Nat.zero_le _) (Int.le_refl 0) hpush
    have hstep : dev.ringStep (.push 0 .turn 0 []) =
        ({ dev with status :=
            { dev.status with cmdDropCount := dev.status.cmdDropCount + 1 } }, [.full]) := by
      rw [Dev.ringStep, hrefused]
      rfl
    replace hstep : ringMachine.step dev (.push 0 .turn 0 []) = _ := hstep
    obtain ⟨hbusy, hshed, hdrops⟩ := @ih
      { dev with status := { dev.status with cmdDropCount := dev.status.cmdDropCount + 1 } }
      ⟨hq.depth, hq.holds, hq.room⟩
    simp only [ops, replicate_succ, Machine.history_cons, Machine.run_cons, hstep,
      busyOf_append, shedOf_append, hbusy, hshed, hdrops]
    refine ⟨rfl, rfl, ?_⟩
    omega

/-- A STOP without a payload keeps the one of the STOP it replaces, and the numbers and the counter
wrap. -/
theorem ring_no_queue :
    let start := Dev.afterAttach 0 1 0
    let stops := ringMachine.history start
      [.push 0 .stop 1 [2], .push 0 .stop 2 [], .pop true 0]
    let pairs := ringMachine.history start
      (List.replicate (2 ^ 32) [RingOp.push 0 .turn 0 [], .pop true 0]).flatten
    let drops := List.replicate 7 (RingOp.push 0 .turn 0 []) ++
      List.replicate (2 ^ 32) (RingOp.push 0 .turn 0 [])
    (∃ env ∈ poppedOf stops, (env.cmdKind, env.epoch, env.payload) ∉
        (acceptedOf stops).map fun a => (a.1, a.2.1, Dev.payloadCell a.2.2)) ∧
      ¬((poppedOf pairs).map Envelope.seqWord).Pairwise (· < ·) ∧
      (UInt32.ofNat (ringMachine.run start drops).status.cmdDropCount).toNat ≠
        (busyOf (ringMachine.history start drops)).length +
          (shedOf (ringMachine.history start drops)).length := by
  intro start stops pairs drops
  refine ⟨by decide, ?_, ?_⟩
  · have hpopped : poppedOf pairs = _ := popped_of_pairs (2 ^ 32) (Dev.queues_afterAttach 0 1 0) rfl
    rw [hpopped, map_map, pairwise_map, pairwise_iff_getElem]
    intro hall
    have hwrap := hall 0 (2 ^ 32 - 1) (by rw [length_range]; decide)
      (by rw [length_range]; decide) (by decide)
    rw [getElem_range, getElem_range] at hwrap
    exact absurd hwrap (by decide)
  · have hseven : (ringMachine.run start (List.replicate 7 (RingOp.push 0 .turn 0 []))).Queues
        (ringMachine.run start (List.replicate 7 (RingOp.push 0 .turn 0 []))).queue := by
      refine (ledger_run 0 1 0 _ ?_).queues
      intro op hop
      rw [eq_of_mem_replicate hop]
      intro hstop
      cases hstop
    obtain ⟨hbusy, hshed, hdrops⟩ := drops_of_full (2 ^ 32) hseven (by decide)
    rw [Machine.history_append, Machine.run_append, hdrops, busyOf_append, shedOf_append, hbusy,
      hshed, append_nil, length_append, length_replicate]
    decide

end Brickwright.Drivebase.Chardev
