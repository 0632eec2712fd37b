import Brickwright.Bluetooth.Errno
import Brickwright.Machine.Threads

/-!
# Work items, queues and delayed work (`zephyr_compat/src/work.c`)

Any number of callers, one worker for each queue and one timer thread for each request slot. A
section is what a thread does under one mutex, or between two. Items, queues and request slots are
numbered; a fifo is the list of its items, head first.

`pthread_create` raises the flag `created` of the slot, for which the timer thread of that slot
waits. A handler takes as long as the worker is not given a step, and what it calls is called by a
caller. How long a timer sleeps is an input.

Items that were never initialised, the null queue, which stands for the system queue, the registry
of worker threads and the field `queue` of an item, which is only written, are left out.
-/

namespace Brickwright.Bluetooth.WorkQueue

/-- `struct k_work_delayable` with its `struct k_work`. -/
structure Work where
  pending : Bool
  running : Bool
  canceled : Bool
  generation : UInt32
  deadline : Int
  deriving DecidableEq, Repr

/-- `struct delayed_request`, and whether its thread has been created. -/
structure Request where
  work : Option Nat
  queue : Nat
  generation : UInt32
  inUse : Bool
  canceled : Bool
  created : Bool
  deriving DecidableEq, Repr

/-- What `memset` leaves. -/
def Request.zero : Request := ⟨none, 0, 0, false, false, false⟩

/-- `delayed_request_matches`. -/
def Request.Matches (r : Request) (w : Nat) : Prop := r.inUse = true ∧ r.work = some w

instance (r : Request) (w : Nat) : Decidable (r.Matches w) :=
  inferInstanceAs (Decidable (_ ∧ _))

structure Kernel where
  work : Nat → Work
  fifo : Nat → List Nat
  requests : Nat → Request

/-- Who has called `k_work_submit_to_queue`. -/
inductive Submitter where
  | call
  | schedule
  | timer (slot : Nat)
  deriving DecidableEq, Repr

/-- Who has called `k_work_cancel`. -/
inductive Canceller where
  | call
  | sync
  | delayable
  | delayableSync
  deriving DecidableEq, Repr

inductive Call where
  | submit (q w : Nat)
  | cancel (w : Nat)
  | cancelSync (w : Nat)
  | flush (w : Nat)
  /-- `k_work_reschedule_for_queue` if `replace`, `k_work_schedule_for_queue` if not. -/
  | schedule (q w : Nat) (delay : Int) (replace : Bool)
  | cancelDelayable (w : Nat)
  | cancelDelayableSync (w : Nat)
  deriving DecidableEq, Repr

inductive Point where
  | idle
  /-- Before the mutex in `k_work_submit_to_queue`, and before `k_fifo_put`. -/
  | submitting (who : Submitter) (q w : Nat)
  | putting (who : Submitter) (q w : Nat)
  /-- Before the mutex in `schedule`, and on the way to its timer thread. -/
  | scheduling (q w : Nat) (delay : Int) (replace : Bool)
  | allocating (q w : Nat) (generation : UInt32)
  | filling (slot q w : Nat) (generation : UInt32)
  | creating (slot w : Nat) (generation : UInt32)
  | undoing (slot w : Nat) (generation : UInt32)
  | failing (w : Nat) (generation : UInt32)
  /-- Before the mutex in `k_work_cancel`. -/
  | cancelling (who : Canceller) (w : Nat)
  /-- In the `while` of `k_work_cancel_sync`. -/
  | awaiting (w : Nat)
  /-- Before the mutex in `k_work_flush`, and in its `while`. -/
  | flushing (w : Nat)
  | awaitingFlush (w : Nat)
  /-- Before the mutex in `k_work_cancel_delayable`, before `delayed_request_cancel` in it, and in
  the one that waits. -/
  | cancellingDelayable (sync : Bool) (w : Nat)
  | marking (sync : Bool) (w : Nat) (delayed : Bool)
  | draining (w : Nat)
  /-- The worker: in `k_fifo_get`, before the mutex, before the handler, in it, behind it. -/
  | getting (q : Nat)
  | got (q w : Nat)
  | starting (q w : Nat)
  | handling (q w : Nat)
  | finishing (q w : Nat)
  /-- The timer thread of a slot: not created, asleep, before its look at the generation, before
  `delayed_request_release`. -/
  | dormant (slot : Nat)
  | sleeping (slot : Nat)
  | checking (slot : Nat)
  | releasing (slot : Nat)
  deriving DecidableEq, Repr

inductive Input where
  | call (c : Call)
  /-- The next section: whether the timer has expired or the thread could be created, and the
  time. -/
  | go (flag : Bool) (now : Int)
  deriving DecidableEq, Repr

inductive Note where
  | called (c : Call)
  | returned (result : Int)
  /-- The section of `k_work_submit_to_queue` under the mutex. -/
  | submitted (who : Submitter) (w : Nat)
  /-- That of `schedule`. -/
  | scheduled (w : Nat)
  /-- That of `k_work_cancel`, and the first one of `k_work_cancel_delayable`. -/
  | canceled (w : Nat)
  | delayCanceled (sync : Bool) (w : Nat)
  /-- The call of the handler. -/
  | started (w : Nat)
  deriving DecidableEq, Repr

namespace Kernel

variable (k : Kernel)

def setWork (w : Nat) (f : Work → Work) : Kernel :=
  { k with work := Function.update k.work w (f (k.work w)) }

def setFifo (q : Nat) (items : List Nat) : Kernel :=
  { k with fifo := Function.update k.fifo q items }

def setRequest (slot : Nat) (r : Request) : Kernel :=
  { k with requests := Function.update k.requests slot r }

/-- The loop of `delayed_request_cancel`. -/
def markCanceled (w : Nat) : Kernel :=
  { k with
    requests := fun slot =>
      if (k.requests slot).Matches w then { k.requests slot with canceled := true }
      else k.requests slot }

variable {k} {w w' q q' slot slot' : Nat}

@[simp] theorem setWork_self (f : Work → Work) : (k.setWork w f).work w = f (k.work w) :=
  Function.update_self ..

theorem setWork_of_ne (h : w' ≠ w) (f : Work → Work) : (k.setWork w f).work w' = k.work w' :=
  Function.update_of_ne h ..

@[simp] theorem setFifo_self (items : List Nat) : (k.setFifo q items).fifo q = items :=
  Function.update_self ..

theorem setFifo_of_ne (h : q' ≠ q) (items : List Nat) : (k.setFifo q items).fifo q' = k.fifo q' :=
  Function.update_of_ne h ..

@[simp] theorem setFifo_work (items : List Nat) : (k.setFifo q items).work = k.work := rfl

@[simp] theorem setRequest_self (r : Request) : (k.setRequest slot r).requests slot = r :=
  Function.update_self ..

theorem setRequest_of_ne (h : slot' ≠ slot) (r : Request) :
    (k.setRequest slot r).requests slot' = k.requests slot' :=
  Function.update_of_ne h ..

end Kernel

/-- A section of a thread: what it leaves, what it notes, where the thread is then. -/
abbrev Section := Kernel × List Note × Point

/-- Where `k_work_submit_to_queue` returns to. -/
def submitReturns (k : Kernel) (notes : List Note) (result : Int) : Submitter → Section
  | .call => (k, notes ++ [.returned result], .idle)
  | .schedule => (k, notes ++ [.returned result], .idle)
  | .timer slot => (k, notes, .releasing slot)

/-- `k_work_submit_to_queue` under the mutex. -/
def submitLocked (k : Kernel) (s : Submitter) (q w : Nat) : Section :=
  if (k.work w).pending then submitReturns k [.submitted s w] 0 s
  else
    (k.setWork w fun x => { x with pending := true, canceled := false }, [.submitted s w],
      .putting s q w)

/-- `schedule` under the mutex. -/
def scheduleLocked (k : Kernel) (q w : Nat) (delay : Int) (replace : Bool) (now : Int) : Section :=
  if !replace ∧ (k.work w).deadline ≠ 0 then (k, [.returned 0], .idle)
  else
    let generation := (k.work w).generation + 1
    let k := k.setWork w fun x =>
      { x with generation := generation, deadline := if delay = 0 then 0 else now + delay }
    (k, [.scheduled w],
      if delay = 0 then .submitting .schedule q w else .allocating q w generation)

/-- `delayed_request_allocate`, of `slots` slots. -/
def allocateLocked (slots : Nat) (k : Kernel) (q w : Nat) (generation : UInt32) : Section :=
  match (List.range slots).find? fun slot => !(k.requests slot).inUse with
  | none => (k, [], .failing w generation)
  | some slot =>
    (k.setRequest slot { k.requests slot with inUse := true }, [], .filling slot q w generation)

/-- `k_work_cancel` under the mutex, and where it returns to. -/
def cancelLocked (k : Kernel) (c : Canceller) (w : Nat) : Section :=
  let x := k.work w
  let busy := x.pending || x.running
  let k := k.setWork w fun x =>
    { x with generation := x.generation + 1, canceled := x.pending || x.canceled }
  match c with
  | .call => (k, [.canceled w, .returned (if busy then -EBUSY else 0)], .idle)
  | .sync => (k, [.canceled w], .awaiting w)
  | .delayable => (k, [.canceled w, .returned (if busy then -EBUSY else 0)], .idle)
  | .delayableSync => (k, [.canceled w], .draining w)

/-- `worker_main` under the first mutex. -/
def takeLocked (k : Kernel) (q w : Nat) : Section :=
  if (k.work w).canceled then
    (k.setWork w fun x => { x with pending := false, canceled := false }, [], .getting q)
  else (k.setWork w fun x => { x with pending := false, running := true }, [], .starting q w)

def callPoint : Call → Point
  | .submit q w => .submitting .call q w
  | .cancel w => .cancelling .call w
  | .cancelSync w => .cancelling .sync w
  | .flush w => .flushing w
  | .schedule q w delay replace => .scheduling q w delay replace
  | .cancelDelayable w => .cancellingDelayable false w
  | .cancelDelayableSync w => .cancellingDelayable true w

/-- The look of a timer thread at the generation. -/
def checkLocked (k : Kernel) (slot : Nat) : Section :=
  let r := k.requests slot
  match r.work with
  | none => (k, [], .releasing slot)
  | some w =>
    if r.generation = (k.work w).generation then
      (k.setWork w fun x => { x with deadline := 0 }, [], .submitting (.timer slot) r.queue w)
    else (k, [], .releasing slot)

/-- Is the item still queued or in its handler? -/
def Kernel.Busy (k : Kernel) (w : Nat) : Prop :=
  (k.work w).pending = true ∨ (k.work w).running = true

instance (k : Kernel) (w : Nat) : Decidable (k.Busy w) := inferInstanceAs (Decidable (_ ∨ _))

/-- One section. A thread that waits stays where it is. -/
def body (slots : Nat) (k : Kernel) (pc : Point) (input : Input) : Section :=
  match pc, input with
  | .idle, .call c => (k, [.called c], callPoint c)
  | .submitting s q w, .go _ _ => submitLocked k s q w
  | .putting s q w, .go _ _ => submitReturns (k.setFifo q (k.fifo q ++ [w])) [] 1 s
  | .scheduling q w delay replace, .go _ now => scheduleLocked k q w delay replace now
  | .allocating q w generation, .go _ _ => allocateLocked slots k q w generation
  | .filling slot q w generation, .go _ _ =>
    (k.setRequest slot
      { k.requests slot with work := some w, queue := q, generation := generation }, [],
      .creating slot w generation)
  | .creating slot w generation, .go created _ =>
    if created then
      (k.setRequest slot { k.requests slot with created := true }, [.returned 1], .idle)
    else (k, [], .undoing slot w generation)
  | .undoing slot w generation, .go _ _ =>
    (k.setRequest slot .zero, [], .failing w generation)
  | .failing w generation, .go _ _ =>
    (if (k.work w).generation = generation then k.setWork w fun x => { x with deadline := 0 }
      else k, [.returned (-ENOMEM)], .idle)
  | .cancelling c w, .go _ _ => cancelLocked k c w
  | .awaiting w, .go _ _ => if k.Busy w then (k, [], pc) else (k, [.returned 0], .idle)
  | .flushing w, .go _ _ =>
    if k.Busy w then (k, [], .awaitingFlush w) else (k, [.returned 0], .idle)
  | .awaitingFlush w, .go _ _ => if k.Busy w then (k, [], pc) else (k, [.returned 1], .idle)
  | .cancellingDelayable sync w, .go _ _ =>
    (k.setWork w fun x => { x with deadline := 0, generation := x.generation + 1 },
      [.delayCanceled sync w], .marking sync w ((k.work w).deadline ≠ 0))
  | .marking sync w delayed, .go _ _ =>
    if delayed then
      if sync then (k.markCanceled w, [], .draining w)
      else (k.markCanceled w, [.returned 1], .idle)
    else (k.markCanceled w, [], .cancelling (if sync then .delayableSync else .delayable) w)
  | .draining w, .go _ _ =>
    (k.markCanceled w, [],
      if ∃ slot ∈ List.range slots, (k.requests slot).Matches w then pc else .cancelling .sync w)
  -- `worker_main`
  | .getting q, .go _ _ =>
    match k.fifo q with
    | [] => (k, [], pc)
    | w :: rest => (k.setFifo q rest, [], .got q w)
  | .got q w, .go _ _ => takeLocked k q w
  | .starting q w, .go _ _ => (k, [.started w], .handling q w)
  | .handling q w, .go _ _ => (k, [], .finishing q w)
  | .finishing q w, .go _ _ =>
    (k.setWork w fun x => { x with running := false }, [], .getting q)
  -- `delayed_main`
  | .dormant slot, .go _ _ =>
    (k, [], if (k.requests slot).created then .sleeping slot else pc)
  | .sleeping slot, .go expired _ =>
    (k, [], if (k.requests slot).canceled then .releasing slot
      else if expired then .checking slot else pc)
  | .checking slot, .go _ _ => checkLocked k slot
  | .releasing slot, .go _ _ => (k.setRequest slot .zero, [], .dormant slot)
  | _, _ => (k, [], pc)

/-! ## What a section can do -/

/-- On to the next section, with the kernel as it was and no note but of a return. -/
inductive Passes : Point → Point → Prop where
  | refused (q w : Nat) (delay : Int) (replace : Bool) :
      Passes (.scheduling q w delay replace) .idle
  | full (q w : Nat) (generation : UInt32) :
      Passes (.allocating q w generation) (.failing w generation)
  | uncreated (slot w : Nat) (generation : UInt32) :
      Passes (.creating slot w generation) (.undoing slot w generation)
  | failed (w : Nat) (generation : UInt32) : Passes (.failing w generation) .idle
  | awaited (w : Nat) : Passes (.awaiting w) .idle
  | flushed (w : Nat) : Passes (.flushing w) .idle
  | awaits (w : Nat) : Passes (.flushing w) (.awaitingFlush w)
  | flushedLater (w : Nat) : Passes (.awaitingFlush w) .idle
  | handled (q w : Nat) : Passes (.handling q w) (.finishing q w)
  | canceled (slot : Nat) : Passes (.sleeping slot) (.releasing slot)
  | outdated (slot : Nat) : Passes (.checking slot) (.releasing slot)

/-- Where `delayed_request_cancel` is called, and where it returns to. -/
inductive Marks (w : Nat) : Point → Point → Prop where
  | drains : Marks w (.marking true w true) (.draining w)
  | returns : Marks w (.marking false w true) .idle
  | cancels (sync : Bool) :
      Marks w (.marking sync w false) (.cancelling (if sync then .delayableSync else .delayable) w)
  | waits : Marks w (.draining w) (.draining w)
  | drained : Marks w (.draining w) (.cancelling .sync w)

def Returns (notes : List Note) : Prop := ∀ n ∈ notes, ∃ result, n = .returned result

inductive Act (slots : Nat) (k : Kernel) : Point → Input → Section → Prop where
  | stays (pc : Point) (input : Input) : Act slots k pc input (k, [], pc)
  | calls (c : Call) : Act slots k .idle (.call c) (k, [.called c], callPoint c)
  | passes {pc pc' : Point} (h : Passes pc pc') {notes : List Note} (hnotes : Returns notes)
      {flag : Bool} {now : Int} : Act slots k pc (.go flag now) (k, notes, pc')
  | queued (s : Submitter) (q w : Nat) {flag : Bool} {now : Int} :
      Act slots k (.submitting s q w) (.go flag now) (submitReturns k [.submitted s w] 0 s)
  | submits (s : Submitter) (q w : Nat) (h : (k.work w).pending = false) {flag : Bool}
      {now : Int} :
      Act slots k (.submitting s q w) (.go flag now)
        (k.setWork w fun x => { x with pending := true, canceled := false }, [.submitted s w],
          .putting s q w)
  | puts (s : Submitter) (q w : Nat) {flag : Bool} {now : Int} :
      Act slots k (.putting s q w) (.go flag now)
        (submitReturns (k.setFifo q (k.fifo q ++ [w])) [] 1 s)
  | schedules (q w : Nat) (delay : Int) (replace : Bool) {flag : Bool} {now : Int} :
      Act slots k (.scheduling q w delay replace) (.go flag now)
        (k.setWork w fun x => { x with
            generation := (k.work w).generation + 1
            deadline := if delay = 0 then 0 else now + delay }, [.scheduled w],
          if delay = 0 then .submitting .schedule q w
          else .allocating q w ((k.work w).generation + 1))
  | allocates (slot q w : Nat) (generation : UInt32) (hslot : slot < slots)
      (hfree : (k.requests slot).inUse = false) {flag : Bool} {now : Int} :
      Act slots k (.allocating q w generation) (.go flag now)
        (k.setRequest slot { k.requests slot with inUse := true }, [],
          .filling slot q w generation)
  | fills (slot q w : Nat) (generation : UInt32) {flag : Bool} {now : Int} :
      Act slots k (.filling slot q w generation) (.go flag now)
        (k.setRequest slot
          { k.requests slot with work := some w, queue := q, generation := generation }, [],
          .creating slot w generation)
  | creates (slot w : Nat) (generation : UInt32) {now : Int} :
      Act slots k (.creating slot w generation) (.go true now)
        (k.setRequest slot { k.requests slot with created := true }, [.returned 1], .idle)
  | undoes (slot w : Nat) (generation : UInt32) {flag : Bool} {now : Int} :
      Act slots k (.undoing slot w generation) (.go flag now)
        (k.setRequest slot .zero, [], .failing w generation)
  | fails (w : Nat) (generation : UInt32) {flag : Bool} {now : Int} :
      Act slots k (.failing w generation) (.go flag now)
        (k.setWork w fun x => { x with deadline := 0 }, [.returned (-ENOMEM)], .idle)
  | cancels (c : Canceller) (w : Nat) {flag : Bool} {now : Int} :
      Act slots k (.cancelling c w) (.go flag now) (cancelLocked k c w)
  | cancelsDelayable (sync : Bool) (w : Nat) {flag : Bool} {now : Int} :
      Act slots k (.cancellingDelayable sync w) (.go flag now)
        (k.setWork w fun x => { x with deadline := 0, generation := x.generation + 1 },
          [.delayCanceled sync w], .marking sync w ((k.work w).deadline ≠ 0))
  | marks {w : Nat} {pc pc' : Point} (h : Marks w pc pc') {notes : List Note}
      (hnotes : Returns notes) {flag : Bool} {now : Int} :
      Act slots k pc (.go flag now) (k.markCanceled w, notes, pc')
  | gets (q w : Nat) (rest : List Nat) (h : k.fifo q = w :: rest) {flag : Bool} {now : Int} :
      Act slots k (.getting q) (.go flag now) (k.setFifo q rest, [], .got q w)
  | drops (q w : Nat) (h : (k.work w).canceled = true) {flag : Bool} {now : Int} :
      Act slots k (.got q w) (.go flag now)
        (k.setWork w fun x => { x with pending := false, canceled := false }, [], .getting q)
  | takes (q w : Nat) (h : (k.work w).canceled = false) {flag : Bool} {now : Int} :
      Act slots k (.got q w) (.go flag now)
        (k.setWork w fun x => { x with pending := false, running := true }, [], .starting q w)
  | starts (q w : Nat) {flag : Bool} {now : Int} :
      Act slots k (.starting q w) (.go flag now) (k, [.started w], .handling q w)
  | finishes (q w : Nat) {flag : Bool} {now : Int} :
      Act slots k (.finishing q w) (.go flag now)
        (k.setWork w fun x => { x with running := false }, [], .getting q)
  | wakes (slot : Nat) (h : (k.requests slot).created = true) {flag : Bool} {now : Int} :
      Act slots k (.dormant slot) (.go flag now) (k, [], .sleeping slot)
  | expires (slot : Nat) (h : (k.requests slot).canceled = false) {now : Int} :
      Act slots k (.sleeping slot) (.go true now) (k, [], .checking slot)
  | compares (slot w : Nat) (hwork : (k.requests slot).work = some w)
      (hgeneration : (k.requests slot).generation = (k.work w).generation) {flag : Bool}
      {now : Int} :
      Act slots k (.checking slot) (.go flag now)
        (k.setWork w fun x => { x with deadline := 0 }, [],
          .submitting (.timer slot) (k.requests slot).queue w)
  | releases (slot : Nat) {flag : Bool} {now : Int} :
      Act slots k (.releasing slot) (.go flag now) (k.setRequest slot .zero, [], .dormant slot)

theorem returns_nil : Returns [] := fun _ hn => absurd hn List.not_mem_nil

theorem returns_singleton (result : Int) : Returns [.returned result] :=
  fun _ hn => ⟨result, List.mem_singleton.mp hn⟩

/-- **Every section is one of these.** -/
theorem body_act (slots : Nat) (k : Kernel) (pc : Point) (input : Input) :
    Act slots k pc input (body slots k pc input) := by
  unfold body
  split
  · exact .calls _
  · rw [submitLocked]
    split
    · exact .queued ..
    · next h => exact .submits _ _ _ (Bool.eq_false_iff.mpr h)
  · exact .puts ..
  · rw [scheduleLocked]
    split
    · exact .passes (.refused ..) (returns_singleton 0)
    · exact .schedules _ _ _ _
  · rw [allocateLocked]
    split
    · exact .passes (.full ..) returns_nil
    · next hfind =>
      exact .allocates _ _ _ _ (List.mem_range.mp (List.mem_of_find?_eq_some hfind))
        (by simpa using List.find?_some hfind)
  · exact .fills ..
  · split
    · next h =>
      subst h
      exact .creates ..
    · exact .passes (.uncreated ..) returns_nil
  · exact .undoes ..
  · split
    · exact .fails ..
    · exact .passes (.failed ..) (returns_singleton _)
  · exact .cancels ..
  · split
    · exact .stays _ _
    · exact .passes (.awaited _) (returns_singleton 0)
  · split
    · exact .passes (.awaits _) returns_nil
    · exact .passes (.flushed _) (returns_singleton 0)
  · split
    · exact .stays _ _
    · exact .passes (.flushedLater _) (returns_singleton 1)
  · exact .cancelsDelayable ..
  · rename_i sync w delayed _ _
    cases delayed with
    -- only the delayed cancel that is to wait looks at the drain
    | true =>
      cases sync with
      | true => exact .marks .drains returns_nil
      | false => exact .marks .returns (returns_singleton 1)
    | false => exact .marks (.cancels sync) returns_nil
  · split
    · exact .marks .waits returns_nil
    · exact .marks .drained returns_nil
  · split
    · exact .stays _ _
    · next h => exact .gets _ _ _ h
  · rw [takeLocked]
    split
    · next h => exact .drops _ _ h
    · next h => exact .takes _ _ (Bool.eq_false_iff.mpr h)
  · exact .starts ..
  · exact .passes (.handled ..) returns_nil
  · exact .finishes ..
  · split
    · next h => exact .wakes _ h
    · exact .stays _ _
  · split
    · exact .passes (.canceled _) returns_nil
    · next h =>
      split
      · next hexpired =>
        subst hexpired
        exact .expires _ (Bool.eq_false_iff.mpr h)
      · exact .stays _ _
  · rw [checkLocked]
    split
    · exact .passes (.outdated _) returns_nil
    · next hwork =>
      split
      · next h => exact .compares _ _ hwork h
      · exact .passes (.outdated _) returns_nil
  · exact .releases _
  · exact .stays _ _

/-- The threads, with `slots` request slots. -/
def threads (slots : Nat) : Threads Kernel Point Input Note where
  body := body slots

/-- Items and slots as they are before any call. Every third thread is a caller, the worker of a
queue, the timer thread of a slot. -/
def initial : Threads.State Kernel Point where
  shared := ⟨fun _ => ⟨false, false, false, 0, 0⟩, fun _ => [], fun _ => .zero⟩
  pc i := if i % 3 = 0 then .idle else if i % 3 = 1 then .getting (i / 3) else .dormant (i / 3)

end Brickwright.Bluetooth.WorkQueue
