import Brickwright.Machine.Threads

/-!
# The transmit arbiter (`apps/btsensor/btsensor_tx.c`)

Responses and telemetry frames wait in two small arrays until the pump has handed them to the
transport; a registration waits for both to be empty, with a timer of its own if it has a timeout.
All state is under one lock. A call is a thread of `Threads`, and one input takes it from one place
where it holds no lock to the next: through one critical section, or into or out of something that
is not this module's (the transport's `connected` and `send`, the backend's `start` and `cancel`, a
callback). Calls made inside those are threads of their own.

`g_sent` and the other counters of `btsensor_tx_get_stats` are left out, and so are the calls that
only read.
-/

namespace Brickwright.Btsensor.Tx

def E2BIG : Int := 7
def EBUSY : Int := 16
def EINVAL : Int := 22
def ENOSPC : Int := 28
def EOVERFLOW : Int := 75
def ENOTSUP : Int := 95
def ENOTCONN : Int := 107
def ETIMEDOUT : Int := 110
def ESTALE : Int := 116

def frameMaxSize : Nat := 1408
def responseMaxLen : Nat := 256
def respDepth : Nat := 4

/-- `UINT64_MAX`. -/
def maxTicket : Nat := 2 ^ 64 - 1

/-- `enum brickwright_hub_link`. An argument is `none` where it is neither (`valid_link`). -/
inductive Link where
  | classic
  | ble
  deriving DecidableEq

/-- The two arrays, `g_responses` and `g_frames`. -/
inductive Kind where
  | response
  | frame
  deriving DecidableEq

/-- `struct tag_s`. -/
structure Tag where
  ticket : Nat
  identity : Nat
  session : UInt32
  link : Link
  used : Bool
  deriving DecidableEq

/-- `struct frame_s` or `struct response_s`: the bytes up to `len`. -/
structure Slot where
  data : List UInt8
  tag : Tag
  deriving DecidableEq

def Slot.zero : Slot := ⟨[], ⟨0, 0, 0, .classic, false⟩⟩

def Slot.clear (x : Slot) : Slot := { x with tag := { x.tag with used := false } }

/-! ## The state -/

structure Queues where
  slots : Kind → List Slot
  link : Link
  selected : Bool
  pumping : Bool
  repoll : Bool
  online : Link → Bool
  sessions : Link → UInt32
  /-- `g_lifetime` is this number modulo `2 ^ 32`. -/
  lifetime : Nat
  ticket : Nat

/-- `g_drain_id` with its callback, context and timeout. -/
structure Registration where
  id : Nat
  cb : Nat
  ctx : Nat
  timeout : UInt32

/-- `g_timer_start`, `g_timer_cancel` and `g_timer_ctx`; the functions are addresses. -/
structure TimerOps where
  start : Option Nat
  cancel : Option Nat
  ctx : Nat

structure Drain where
  /-- `none` when `g_drain_id` is 0. -/
  registration : Option Registration
  counter : Nat
  ops : TimerOps
  /-- `g_timer_id`, with the cancel function and the context it was installed with. -/
  timer : Nat
  installedCancel : Option Nat
  installedCtx : Nat
  timerPumping : Bool

structure Shared where
  queues : Queues
  drain : Drain

/-- The static state at boot, for `TX_DEPTH` frame slots. -/
def boot (depth : Nat) : Shared where
  queues :=
    { slots := fun
        | .response => List.replicate respDepth Slot.zero
        | .frame => List.replicate depth Slot.zero
      link := .classic
      selected := false
      pumping := false
      repoll := false
      online := fun _ => false
      sessions := fun _ => 0
      lifetime := 0
      ticket := 0 }
  drain :=
    { registration := none
      counter := 0
      ops := ⟨none, none, 0⟩
      timer := 0
      installedCancel := none
      installedCtx := 0
      timerPumping := false }

/-! ## Where a call is -/

/-- The locals of `btsensor_tx_on_can_send_now`. -/
structure Pump where
  lifetime : Nat
  blocked : Link → Bool
  retry : Bool

/-- `struct pending_s`, with the slot it was copied from. -/
structure Pending where
  kind : Kind
  slot : Nat
  item : Slot

/-- A registration that has been claimed, with the result its callback is going to get. -/
structure Claim where
  id : Nat
  result : Int
  cb : Nat
  ctx : Nat

inductive Next where
  | done
  | reconcile
  /-- The loop of the reconciler goes on, and behind it another callback may be due. -/
  | again (after : Option Claim)

inductive Pc where
  /-- Nothing is called. -/
  | idle
  /-- `btsensor_tx_enqueue_response`, when it has read the default link. -/
  | pushResponse (link : Link) (line : List UInt8) (rc : Int) (identity : Nat)
  | pushFrame (link : Link) (buf : List UInt8) (rc : Int) (identity : Nat)
  /-- About to call `btsensor_tx_on_can_send_now`. -/
  | enter
  /-- At the head of its loop. -/
  | loop (p : Pump)
  /-- About to ask the transport whether the link is connected. -/
  | asking (p : Pump) (x : Pending)
  /-- About to call the transport's send. -/
  | handing (p : Pump) (x : Pending)
  /-- In the transport's send. -/
  | sending (p : Pump) (x : Pending)
  /-- Behind the loop. -/
  | drained
  /-- About to call `reconcile_timer`. -/
  | reconcile (after : Option Claim)
  /-- In the backend's cancel, and in its start. -/
  | cancelling (id : Nat) (after : Option Claim)
  | starting (id : Nat) (after : Option Claim)
  /-- About to call a callback, and in one. -/
  | deliver (c : Claim) (next : Next)
  | delivering (next : Next)

/-! ## What is noted -/

inductive Reason where
  | sent
  | stale
  | evicted
  | discarded
  | reset
  deriving DecidableEq

inductive Note where
  /-- What the call is going to return. -/
  | rc (code : Int)
  | admitted (k : Kind) (x : Slot)
  | removed (k : Kind) (x : Slot) (why : Reason)
  /-- `btsensor_tx_link_state`. -/
  | announced (link : Link) (connected : Bool) (generation : UInt32)
  /-- `btsensor_tx_on_can_send_now` started to pump, was merged into a pump, let the pump begin
  again; the pump ended. -/
  | entered
  | merged
  | retried
  | finished
  /-- The pump took an item up, handed it to the transport's send, and has its result. -/
  | selected (k : Kind) (x : Slot)
  | handed (k : Kind) (x : Slot)
  | result (k : Kind) (x : Slot) (rc : Int)
  /-- A registration was made, or discarded by `btsensor_tx_clear_post_drain_callback`. -/
  | armed (id : Nat)
  | cleared (id : Nat)
  /-- A registration was claimed for a callback, with whether both queues were empty. -/
  | claimed (id : Nat) (result : Int) (empty : Bool)
  | callback (id : Nat) (result : Int)
  /-- The calls of the timer backend, and its call of `btsensor_tx_on_drain_timeout`. -/
  | startCalled (id : Nat) (delay : UInt32) (ops : TimerOps)
  | startReturned (id : Nat) (rc : Int)
  | cancelCalled (id : Nat) (cancel : Option Nat) (ctx : Nat)
  | cancelReturned (id : Nat)
  | expired (id : Nat)

/-! ## The arrays -/

/-- `frame_count` and the count of the responses. -/
def count (slots : List Slot) : Nat := slots.countP (·.tag.used)

/-- One round of the search for the oldest item. -/
def older (eligible : Tag → Bool) (acc : Nat × Option Nat) (x : Slot × Nat) : Nat × Option Nat :=
  if x.1.tag.used && eligible x.1.tag && decide (x.1.tag.ticket < acc.1) then
    (x.1.tag.ticket, some x.2)
  else acc

/-- The slot of the oldest eligible item. -/
def oldest (eligible : Tag → Bool) (slots : List Slot) : Option Nat :=
  (slots.zipIdx.foldl (older eligible) (maxTicket, none)).2

/-- The slot a response goes to: the loop runs through and keeps the last free one. -/
def lastFree (slots : List Slot) : Option Nat :=
  slots.zipIdx.foldl (fun acc x => if x.1.tag.used then acc else some x.2) none

/-- The slot a frame goes to while there is one: the first free one. -/
def firstFree (slots : List Slot) : Option Nat := slots.findIdx? (!·.tag.used)

namespace Queues

def setSlots (q : Queues) (k : Kind) (slots : List Slot) : Queues :=
  { q with slots := Function.update q.slots k slots }

/-- `responses_empty() && frames_empty()`. -/
def empty (q : Queues) : Bool := count (q.slots .response) = 0 && count (q.slots .frame) = 0

def framesFull (q : Queues) : Bool := count (q.slots .frame) = (q.slots .frame).length - 1

/-- Clear the slots `p` is true of. -/
def drop (q : Queues) (p : Slot → Bool) : Queues :=
  { q with slots := fun k => (q.slots k).map fun x => if p x then x.clear else x }

def removals (q : Queues) (p : Slot → Bool) (why : Reason) : List Note :=
  [Kind.frame, Kind.response].flatMap fun k =>
    ((q.slots k).filter fun x => x.tag.used && p x).map fun x => .removed k x why

def store (q : Queues) (k : Kind) (slot : Option Nat) (x : Slot) : Queues :=
  match slot with
  | some i => q.setSlots k ((q.slots k).set i x)
  | none => q

/-- `admission`; `rc` and `identity` are what the BLE adapter answers. -/
def admission (q : Queues) (link : Link) (rc : Int) (identity : Nat) : Except Int (Tag × Queues) :=
  if q.online link = false then .error (-ENOTCONN)
  else if q.ticket = maxTicket then .error (-EOVERFLOW)
  else if link = .ble ∧ rc ≠ 0 then .error rc
  else
    .ok (⟨q.ticket + 1, if link = .ble then identity else 0, q.sessions link, link, true⟩,
      { q with ticket := q.ticket + 1 })

/-- What the pump takes up next: responses first, then frames, each oldest first. -/
def next (q : Queues) (blocked : Link → Bool) : Option Pending :=
  let eligible := fun tag : Tag => !blocked tag.link
  match oldest eligible (q.slots .response) with
  | some i => some ⟨.response, i, (q.slots .response).getD i Slot.zero⟩
  | none =>
    (oldest eligible (q.slots .frame)).map fun i =>
      ⟨.frame, i, (q.slots .frame).getD i Slot.zero⟩

end Queues

/-! ## The registration and its timer -/

namespace Drain

/-- `g_drain_id`. -/
def id (d : Drain) : Nat := (d.registration.map Registration.id).getD 0

/-- `g_drain_timeout`. -/
def timeout (d : Drain) : UInt32 := (d.registration.map Registration.timeout).getD 0

def desired (d : Drain) : Nat := if d.timeout ≠ 0 then d.id else 0

/-- `clear_drain_locked`. -/
def clear (d : Drain) : Drain := { d with registration := none }

end Drain

/-- What a thread that has nothing else to do goes on with. -/
def Pc.callback : Option Claim → Pc
  | some c => .deliver c .done
  | none => .idle

/-- One round of the loop of `reconcile_timer`, up to where it gives the lock up. -/
def reconcileLoop (t : Shared) (after : Option Claim) : Shared × List Note × Pc :=
  let d := t.drain
  if d.timer = d.desired then
    ({ t with drain := { d with timerPumping := false } }, [], .callback after)
  else if d.timer ≠ 0 then
    ({ t with drain := { d with timer := 0 } },
      [.cancelCalled d.timer d.installedCancel d.installedCtx], .cancelling d.timer after)
  else
    ({ t with drain :=
        { d with timer := d.desired, installedCancel := d.ops.cancel, installedCtx := d.ops.ctx } },
      [.startCalled d.desired d.timeout d.ops], .starting d.desired after)

/-- `reconcile_timer`, up to there. -/
def reconcileTimer (t : Shared) (after : Option Claim) : Shared × List Note × Pc :=
  if t.drain.timerPumping then (t, [], .callback after)
  else reconcileLoop { t with drain := { t.drain with timerPumping := true } } after

def started (t : Shared) (id : Nat) (after : Option Claim) (rc : Int) : Shared × List Note × Pc :=
  if rc < 0 then
    let t := if t.drain.timer = id then { t with drain := { t.drain with timer := 0 } } else t
    match t.drain.registration with
    | some r =>
      if r.id = id then
        ({ t with drain := t.drain.clear },
          [.startReturned id rc, .claimed id rc t.queues.empty],
          .deliver ⟨id, rc, r.cb, r.ctx⟩ (.again after))
      else
        let x := reconcileLoop t after
        (x.1, .startReturned id rc :: x.2.1, x.2.2)
    | none =>
      let x := reconcileLoop t after
      (x.1, .startReturned id rc :: x.2.1, x.2.2)
  else
    let x := reconcileLoop t after
    (x.1, .startReturned id rc :: x.2.1, x.2.2)

/-- `unlock_and_reconcile_timer`: where the thread goes. -/
def unlockAndReconcile (d : Drain) (after : Option Claim) : Pc :=
  if !d.timerPumping && (d.timer != 0 || (d.id != 0 && d.timeout != 0)) then .reconcile after
  else .callback after

def discardLink (t : Shared) (link : Link) : Shared × List Note :=
  let p := fun x : Slot => decide (x.tag.link = link)
  let discarded := t.queues.removals p .discarded
  ({ queues := t.queues.drop p
     drain := if discarded.isEmpty then t.drain else t.drain.clear }, discarded)

/-! ## The calls -/

/-- `btsensor_tx_init`. -/
def init (t : Shared) : Shared × List Note × Pc :=
  let q := t.queues
  let d := t.drain.clear
  ({ queues :=
      { q with
        slots := fun k => List.replicate (q.slots k).length Slot.zero
        link := .classic, selected := false, pumping := false, lifetime := q.lifetime + 1
        online := fun _ => false }
     drain := d }, q.removals (fun _ => true) .reset ++ [.rc 0], unlockAndReconcile d none)

/-- `btsensor_tx_deinit`. -/
def deinit (t : Shared) : Shared × List Note × Pc :=
  let q := t.queues
  let d := t.drain.clear
  ({ queues :=
      { q.drop (fun _ => true) with
        selected := false, lifetime := q.lifetime + 1, online := fun _ => false }
     drain := d }, q.removals (fun _ => true) .reset, unlockAndReconcile d none)

/-- `btsensor_tx_link_state`. -/
def linkState (t : Shared) (link : Link) (connected : Bool) (generation : UInt32) :
    Shared × List Note × Pc :=
  let q := t.queues
  let x := if connected = false ∨ q.online link = false ∨ q.sessions link ≠ generation then
    discardLink t link else (t, [])
  let q := x.1.queues
  ({ x.1 with queues :=
      { q with
        sessions := Function.update q.sessions link generation
        online := Function.update q.online link connected
        selected := q.selected && !(!connected && decide (q.link = link)) } },
    .announced link connected generation :: x.2, .enter)

/-- `btsensor_tx_set_link`. -/
def setLink (t : Shared) (link : Link) (selected : Bool) : Shared × List Note × Pc :=
  if selected then
    let q := t.queues
    ({ t with queues :=
        { q with link := link, selected := true, online := Function.update q.online link true } },
      [], .enter)
  else
    let x := discardLink t link
    let q := x.1.queues
    ({ x.1 with queues :=
        { q with
          online := Function.update q.online link false
          sessions := Function.update q.sessions link (q.sessions link + 1)
          selected := q.selected && !decide (q.link = link) } },
      x.2, .reconcile none)

/-- `btsensor_tx_enqueue_response_for_link`. -/
def enqueueResponse (t : Shared) (link : Option Link) (line : Option (List UInt8)) (rc : Int)
    (identity : Nat) : Shared × List Note × Pc :=
  match line, link with
  | some line, some link =>
    let text := line.takeWhile (· ≠ 0)
    let q := t.queues
    if text.length > responseMaxLen then (t, [.rc (-E2BIG)], .idle)
    else if count (q.slots .response) = respDepth - 1 then (t, [.rc (-ENOSPC)], .idle)
    else
      match q.admission link rc identity with
      | .error e => (t, [.rc e], .idle)
      | .ok (tag, q) =>
        ({ t with queues := q.store .response (lastFree (q.slots .response)) ⟨text, tag⟩ },
          [.admitted .response ⟨text, tag⟩, .rc 0], .enter)
  | _, _ => (t, [.rc (-EINVAL)], .idle)

/-- `btsensor_tx_try_enqueue_frame_for_link`. -/
def enqueueFrame (t : Shared) (link : Option Link) (buf : Option (List UInt8)) (rc : Int)
    (identity : Nat) : Shared × List Note × Pc :=
  match buf with
  | none => (t, [.rc (-E2BIG)], .idle)
  | some data =>
    if data.length = 0 ∨ data.length > frameMaxSize then (t, [.rc (-E2BIG)], .idle)
    else
      match link with
      | none => (t, [.rc (-EINVAL)], .idle)
      | some link =>
        match t.queues.admission link rc identity with
        | .error e => (t, [.rc e], .idle)
        | .ok (tag, q) =>
          if q.framesFull then
            let slot := oldest (fun _ => true) (q.slots .frame)
            let victim := (slot.bind fun i => (q.slots .frame)[i]?).toList
            ({ t with queues := q.store .frame slot ⟨data, tag⟩ },
              victim.map (fun x => .removed .frame x .evicted) ++
                [.admitted .frame ⟨data, tag⟩, .rc (-ENOSPC)], .enter)
          else
            ({ t with queues := q.store .frame (firstFree (q.slots .frame)) ⟨data, tag⟩ },
              [.admitted .frame ⟨data, tag⟩, .rc 0], .enter)

/-- `btsensor_tx_set_timer_ops`. -/
def setTimerOps (t : Shared) (ops : TimerOps) : Shared × List Note × Pc :=
  if ops.start.isSome ≠ ops.cancel.isSome then (t, [.rc (-EINVAL)], .idle)
  else if t.drain.id ≠ 0 ∨ t.drain.timer ≠ 0 ∨ t.drain.timerPumping = true then
    (t, [.rc (-EBUSY)], .idle)
  else ({ t with drain := { t.drain with ops := ops } }, [.rc 0], .idle)

/-- `btsensor_tx_arm_post_drain_callback`; `out` is whether there is a place for the id. -/
def arm (t : Shared) (cb : Option Nat) (ctx : Nat) (timeout : UInt32) (out : Bool) :
    Shared × List Note × Pc :=
  match cb with
  | none => (t, [.rc (-EINVAL)], .idle)
  | some cb =>
    let d := t.drain
    if out = false then (t, [.rc (-EINVAL)], .idle)
    else if d.id ≠ 0 then (t, [.rc (-EBUSY)], .idle)
    else if t.queues.empty = false ∧ timeout ≠ 0 ∧ d.ops.start = none then
      (t, [.rc (-ENOTSUP)], .idle)
    else if d.counter = maxTicket then (t, [.rc (-EOVERFLOW)], .idle)
    else
      let id := d.counter + 1
      if t.queues.empty then
        let d := { d with counter := id }
        ({ t with drain := d }, [.armed id, .claimed id 0 true, .rc 0],
          unlockAndReconcile d (some ⟨id, 0, cb, ctx⟩))
      else
        let d := { d with counter := id, registration := some ⟨id, cb, ctx, timeout⟩ }
        ({ t with drain := d }, [.armed id, .rc 0], unlockAndReconcile d none)

/-- `btsensor_tx_on_drain_timeout`. -/
def onDrainTimeout (t : Shared) (registration : Nat) : Shared × List Note × Pc :=
  match t.drain.registration with
  | some r =>
    if registration ≠ 0 ∧ r.id = registration ∧ t.drain.timer = registration then
      ({ t with drain := { t.drain.clear with timer := 0 } },
        [.expired registration, .claimed registration (-ETIMEDOUT) t.queues.empty],
        .deliver ⟨registration, -ETIMEDOUT, r.cb, r.ctx⟩ .reconcile)
    else (t, [.expired registration], .reconcile none)
  | none => (t, [.expired registration], .reconcile none)

/-- `btsensor_tx_clear_post_drain_callback`. -/
def clearPostDrain (t : Shared) (registration : Nat) : Shared × List Note × Pc :=
  if registration ≠ 0 ∧ t.drain.id = registration then
    ({ t with drain := t.drain.clear }, [.cleared registration, .rc 1],
      unlockAndReconcile t.drain.clear none)
  else (t, [.rc 0], unlockAndReconcile t.drain none)

/-! ## The pump -/

/-- The first section of `btsensor_tx_on_can_send_now`. -/
def enter (t : Shared) : Shared × List Note × Pc :=
  let q := t.queues
  if q.pumping then ({ t with queues := { q with repoll := true } }, [.merged], .idle)
  else
    ({ t with queues := { q with pumping := true, repoll := false } }, [.entered],
      .loop ⟨q.lifetime, fun _ => false, true⟩)

/-- `lifetime != g_lifetime`, on 32 bits. -/
def Pump.outlived (p : Pump) (q : Queues) : Prop := p.lifetime % 2 ^ 32 ≠ q.lifetime % 2 ^ 32

instance (p : Pump) (q : Queues) : Decidable (p.outlived q) := inferInstanceAs (Decidable (_ ≠ _))

/-- The section at the head of the loop. -/
def pumpLoop (t : Shared) (p : Pump) : Shared × List Note × Pc :=
  let q := t.queues
  if p.outlived q then (t, [], .idle)
  else
    match q.next p.blocked with
    | some x =>
      (t, [.selected x.kind x.item], if x.item.tag.link = .ble then .handing p x else .asking p x)
    | none =>
      if q.repoll && p.retry then
        ({ t with queues := { q with repoll := false } }, [.retried],
          .loop { p with blocked := fun _ => false, retry := false })
      else ({ t with queues := { q with pumping := false } }, [.finished], .drained)

/-- A refused BLE token: its item is dropped. -/
def staleBle (x : Slot) (rc : Int) : Bool := decide (x.tag.link = .ble ∧ rc = -ESTALE)

/-- Whether the slot still has the item that was copied from it. -/
def Queues.same (q : Queues) (x : Pending) : Bool :=
  let tag := ((q.slots x.kind).getD x.slot Slot.zero).tag
  tag.used && decide (tag.ticket = x.item.tag.ticket) &&
    decide (tag.session = x.item.tag.session) && q.online x.item.tag.link &&
    decide (q.sessions x.item.tag.link = x.item.tag.session)

def pumpResult (t : Shared) (p : Pump) (x : Pending) (rc : Int) : Shared × List Note × Pc :=
  let q := t.queues
  let stale := staleBle x.item rc
  let note := Note.result x.kind x.item rc
  if p.outlived q then (t, [note], .idle)
  else
    let p := if rc ≠ 0 ∧ stale = false then
      { p with blocked := Function.update p.blocked x.item.tag.link true } else p
    if (rc = 0 ∨ stale = true) ∧ q.same x = true then
      let slot := (q.slots x.kind).getD x.slot Slot.zero
      ({ t with queues := q.setSlots x.kind ((q.slots x.kind).set x.slot slot.clear) },
        [note, .removed x.kind slot (if rc = 0 then .sent else .stale)], .loop p)
    else (t, [note], .loop p)

def drained (t : Shared) : Shared × List Note × Pc :=
  match t.drain.registration with
  | some r =>
    if t.queues.empty then
      ({ t with drain := t.drain.clear }, [.claimed r.id 0 true],
        unlockAndReconcile t.drain.clear (some ⟨r.id, 0, r.cb, r.ctx⟩))
    else (t, [], unlockAndReconcile t.drain none)
  | none => (t, [], unlockAndReconcile t.drain none)

/-! ## The threads -/

/-- The calls of the module. `rc` and `identity` are the answer of the BLE adapter, if it is
asked. -/
inductive Call where
  | init
  | deinit
  | linkState (link : Option Link) (connected : Bool) (generation : UInt32)
  | setLink (link : Option Link) (selected : Bool)
  | setRfcommCid (cid : UInt16)
  | enqueueResponseForLink (link : Option Link) (line : Option (List UInt8)) (rc : Int)
      (identity : Nat)
  | enqueueResponse (line : Option (List UInt8)) (rc : Int) (identity : Nat)
  | tryEnqueueFrameForLink (link : Option Link) (buf : Option (List UInt8)) (rc : Int)
      (identity : Nat)
  | tryEnqueueFrame (buf : Option (List UInt8)) (rc : Int) (identity : Nat)
  | onCanSendNow
  | setTimerOps (ops : TimerOps)
  | arm (cb : Option Nat) (ctx : Nat) (timeout : UInt32) (out : Bool)
  | onDrainTimeout (registration : Nat)
  | clear (registration : Nat)

/-- A call up to where it first holds no lock. -/
def call (t : Shared) : Call → Shared × List Note × Pc
  | .init => init t
  | .deinit => deinit t
  | .linkState link connected generation =>
    match link with
    | some link => linkState t link connected generation
    | none => (t, [], .idle)
  | .setLink link selected =>
    match link with
    | some link => setLink t link selected
    | none => (t, [], .idle)
  | .setRfcommCid cid => setLink t .classic (cid != 0)
  | .enqueueResponseForLink link line rc identity => enqueueResponse t link line rc identity
  | .enqueueResponse line rc identity =>
    match line with
    | none => (t, [.rc (-EINVAL)], .idle)
    | some line =>
      if t.queues.selected then (t, [], .pushResponse t.queues.link line rc identity)
      else (t, [.rc (-ENOTCONN)], .idle)
  | .tryEnqueueFrameForLink link buf rc identity => enqueueFrame t link buf rc identity
  | .tryEnqueueFrame buf rc identity =>
    match buf with
    | none => (t, [.rc (-E2BIG)], .idle)
    | some data =>
      if data.length = 0 ∨ data.length > frameMaxSize then (t, [.rc (-E2BIG)], .idle)
      else if t.queues.selected then (t, [], .pushFrame t.queues.link data rc identity)
      else (t, [.rc (-ENOTCONN)], .idle)
  | .onCanSendNow => (t, [], .enter)
  | .setTimerOps ops => setTimerOps t ops
  | .arm cb ctx timeout out => arm t cb ctx timeout out
  | .onDrainTimeout registration => onDrainTimeout t registration
  | .clear registration => clearPostDrain t registration

/-- A thread goes on; `rc` is what the outside answers it, if it is there. -/
def resume (t : Shared) (pc : Pc) (rc : Int) : Shared × List Note × Pc :=
  match pc with
  | .idle => (t, [], .idle)
  | .pushResponse link line rc identity => enqueueResponse t (some link) (some line) rc identity
  | .pushFrame link buf rc identity => enqueueFrame t (some link) (some buf) rc identity
  | .enter => enter t
  | .loop p => pumpLoop t p
  | .asking p x => if rc ≠ 0 then (t, [], .handing p x) else pumpResult t p x (-ENOTCONN)
  | .handing p x => (t, [.handed x.kind x.item], .sending p x)
  | .sending p x => pumpResult t p x rc
  | .drained => drained t
  | .reconcile after => reconcileTimer t after
  | .cancelling id after =>
    let y := reconcileLoop t after
    (y.1, .cancelReturned id :: y.2.1, y.2.2)
  | .starting id after => started t id after rc
  | .deliver c next => (t, [.callback c.id c.result], .delivering next)
  | .delivering next =>
    match next with
    | .done => (t, [], .idle)
    | .reconcile => (t, [], .reconcile none)
    | .again after => reconcileLoop t after

inductive Input where
  | call (c : Call)
  | resume (rc : Int)

def body (t : Shared) (pc : Pc) : Input → Shared × List Note × Pc
  | .call c =>
    match pc with
    | .idle => call t c
    | pc => (t, [], pc)
  | .resume rc => resume t pc rc

def arbiter : Threads Shared Pc Input Note := ⟨body⟩

def start (depth : Nat) : Threads.State Shared Pc := ⟨boot depth, fun _ => .idle⟩

end Brickwright.Btsensor.Tx
