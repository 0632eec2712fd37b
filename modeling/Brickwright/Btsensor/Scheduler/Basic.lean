import Brickwright.Machine.Basic

/-!
# The background scheduler (`btsensor_scheduler.c`)

Watches and timers belong to their callers; the scheduler keeps pointers to them in two tables and a
worker thread polls the first and expires the second. All state is under one lock, so every critical
section is one event. A stop is two of them with a wait in between, and the worker gives the lock up
around `poll` and around every callback; whatever happens meanwhile, also calls made by the
callback, stands between its events in the run.

This is the scheduler between an `acquire` and its `release`, with one worker. The wake pipe carries
no data and is left out.
-/

namespace Brickwright.Btsensor.Scheduler

def EINVAL : Int := 22
def ENOSPC : Int := 28

def maxWatches : Nat := 8
def maxTimers : Nat := 4

/-- The address of a watch or of a timer, never null. -/
abbrev Ptr := Nat

/-- `struct btsensor_watch_s`. -/
structure Watch where
  fd : Int
  callback : Ptr
  arg : Nat
  active : Bool
  dispatching : Bool
  polling : Bool

/-- `struct btsensor_timer_s`. -/
structure Timer where
  periodMs : UInt32
  deadlineMs : UInt64
  callback : Ptr
  arg : Nat
  active : Bool
  oneShot : Bool
  dispatching : Bool

/-! ## The tables -/

abbrev Table := List (Option Ptr)

namespace Table

/-- `x` goes to the first slot that is `NULL`. -/
def place (x : Ptr) (t : Table) : Table :=
  t.replaceF fun slot => if slot = none then some (some x) else none

/-- `x` goes to the first slot that is `NULL` or has it already. -/
def placeOrOwn (x : Ptr) (t : Table) : Table :=
  t.replaceF fun slot => if slot = none ∨ slot = some x then some (some x) else none

/-- The first slot that has `x` becomes `NULL`. -/
def clear (x : Ptr) (t : Table) : Table :=
  t.replaceF fun slot => if slot = some x then some none else none

end Table

/-! ## The worker -/

/-- Where `scheduler_worker` is. -/
inductive Worker where
  /-- At the head of the loop. -/
  | head
  /-- In `poll`, with the watches polled. -/
  | poll (map : List Ptr)
  /-- About to dispatch the first of the watches `ready`. -/
  | watches (map ready : List Ptr)
  /-- In the callback of a watch. -/
  | inWatch (watch : Ptr) (map ready : List Ptr)
  /-- About to look at a timer slot. -/
  | timers (now : UInt64) (i : Nat)
  /-- In the callback of a timer. -/
  | inTimer (timer : Ptr) (now : UInt64) (i : Nat)
  /-- The thread has returned. -/
  | ended

structure State where
  watches : Table
  timers : Table
  watch : Ptr → Watch
  timer : Ptr → Timer
  worker : Worker
  /-- The calls of `btsensor_scheduler_watch_stop` that wait, and those of
  `btsensor_scheduler_timer_stop`. -/
  watchStops : List Ptr
  timerStops : List Ptr

/-- The tables in zeroed memory, with whatever the callers' objects hold. -/
def boot (watch : Ptr → Watch) (timer : Ptr → Timer) : State where
  watches := List.replicate maxWatches none
  timers := List.replicate maxTimers none
  watch := watch
  timer := timer
  worker := .head
  watchStops := []
  timerStops := []

namespace State

def setWatch (s : State) (x : Ptr) (f : Watch → Watch) : State :=
  { s with watch := fun y => if y = x then f (s.watch y) else s.watch y }

def setTimer (s : State) (x : Ptr) (f : Timer → Timer) : State :=
  { s with timer := fun y => if y = x then f (s.timer y) else s.timer y }

/-- The `polling` flag of every watch of a list. -/
def setPolling (s : State) (map : List Ptr) (polling : Bool) : State :=
  { s with watch := fun y =>
      if y ∈ map then { s.watch y with polling := polling } else s.watch y }

/-- `btsensor_scheduler_watch_start`. -/
def watchStart (s : State) (watch : Option Ptr) (fd : Int) (callback : Option Ptr) (arg : Nat) :
    Int × State :=
  match watch, callback with
  | some x, some callback =>
    if fd < 0 then (-EINVAL, s)
    else if none ∉ s.watches then (-ENOSPC, s)
    else
      (0, { s.setWatch x fun _ => ⟨fd, callback, arg, true, false, false⟩ with
        watches := s.watches.place x })
  | _, _ => (-EINVAL, s)

def timerStart (s : State) (timer : Option Ptr) (periodMs : UInt32) (callback : Option Ptr)
    (arg : Nat) (oneShot : Bool) (now : UInt64) : Int × State :=
  match timer, callback with
  | some x, some callback =>
    if periodMs = 0 then (-EINVAL, s)
    else if none ∉ s.timers ∧ some x ∉ s.timers then (-ENOSPC, s)
    else
      let start := fun t : Timer =>
        ⟨periodMs, now + periodMs.toUInt64, callback, arg, true, oneShot, t.dispatching⟩
      (0, { s.setTimer x start with timers := s.timers.placeOrOwn x })
  | _, _ => (-EINVAL, s)

/-- `btsensor_scheduler_watch_stop`, up to its wait. -/
def watchStopBegin (s : State) : Option Ptr → State
  | none => s
  | some x =>
    { s.setWatch x fun w => { w with active := false } with watchStops := x :: s.watchStops }

/-- The rest of it, which waits while the worker has the watch. -/
def watchStopEnd (s : State) (x : Ptr) : Bool × State :=
  if x ∈ s.watchStops ∧ (s.watch x).dispatching = false ∧ (s.watch x).polling = false then
    (true, { s with watches := s.watches.clear x, watchStops := s.watchStops.erase x })
  else (false, s)

/-- `btsensor_scheduler_timer_stop`, up to its wait. -/
def timerStopBegin (s : State) : Option Ptr → State
  | none => s
  | some x =>
    { s.setTimer x fun t => { t with active := false } with timerStops := x :: s.timerStops }

def timerStopEnd (s : State) (x : Ptr) : Bool × State :=
  if x ∈ s.timerStops ∧ (s.timer x).dispatching = false then
    (true, { s with timers := s.timers.clear x, timerStops := s.timerStops.erase x })
  else (false, s)

/-! ## A round of the worker -/

/-- The watches a round polls: the active ones, in table order. -/
def polled (s : State) : List Ptr :=
  s.watches.filterMap fun slot => slot.filter fun x => (s.watch x).active

end State

/-- The loop that advances a deadline past `now`, for at most `fuel` rounds. -/
def advance (period now : UInt64) : Nat → UInt64 → UInt64
  | 0, deadline => deadline
  | fuel + 1, deadline =>
    let deadline := deadline + period
    if deadline ≤ now then advance period now fuel deadline else deadline

/-- An expired timer, as it is when its callback runs. -/
def Timer.expire (t : Timer) (now : UInt64) : Timer :=
  if t.oneShot then { t with active := false, dispatching := true }
  else
    { t with
      deadlineMs := advance t.periodMs.toUInt64 now
        (now.toNat - t.deadlineMs.toNat + 1) t.deadlineMs
      dispatching := true }

/-- What the world answers the worker: the result of `poll` (the watches with `POLLIN`, or the error
that ends the thread) and the clock. -/
structure Answers where
  poll : Option (List Ptr)
  now : UInt64

namespace State

/-- What the worker does at the slot `i` of the timer table. -/
def expireSlot (s : State) (now : UInt64) (i : Nat) : State :=
  match s.timers.getD i none with
  | some x =>
    if (s.timer x).active ∧ (s.timer x).deadlineMs ≤ now then
      { s.setTimer x fun t => t.expire now with
        timers := if (s.timer x).oneShot then s.timers.set i none else s.timers
        worker := .inTimer x now (i + 1) }
    else { s with worker := .timers now (i + 1) }
  | none => { s with worker := .timers now (i + 1) }

def workerStep (s : State) (world : Answers) : State :=
  match s.worker with
  | .head => { s.setPolling s.polled true with worker := .poll s.polled }
  | .poll map =>
    match world.poll with
    | none => { s.setPolling map false with worker := .ended }
    | some ready => { s with worker := .watches map (map.filter fun x => x ∈ ready) }
  | .watches map (x :: ready) =>
    if (s.watch x).active then
      { s.setWatch x fun w => { w with dispatching := true } with worker := .inWatch x map ready }
    else { s with worker := .watches map ready }
  | .watches map [] => { s.setPolling map false with worker := .timers world.now 0 }
  | .inWatch x map ready =>
    { s.setWatch x fun w => { w with dispatching := false } with worker := .watches map ready }
  | .timers now i => if i < maxTimers then s.expireSlot now i else { s with worker := .head }
  | .inTimer x now i =>
    { s.setTimer x fun t => { t with dispatching := false } with worker := .timers now i }
  | .ended => s

end State

/-! ## The machine -/

inductive Event where
  | watchStart (watch : Option Ptr) (fd : Int) (callback : Option Ptr) (arg : Nat)
  | watchStopBegin (watch : Option Ptr)
  | watchStopEnd (watch : Ptr)
  /-- `btsensor_scheduler_timer_start`, or `btsensor_scheduler_timer_start_once`. -/
  | timerStart (timer : Option Ptr) (periodMs : UInt32) (callback : Option Ptr) (arg : Nat)
      (oneShot : Bool) (now : UInt64)
  | timerStopBegin (timer : Option Ptr)
  | timerStopEnd (timer : Ptr)
  | worker (world : Answers)

inductive Answer where
  | rc (rc : Int)
  /-- A stop returned. -/
  | returned
  /-- A stop still waits, or the call goes on. -/
  | pending
  deriving DecidableEq

/-- The answer of one half of a stop: the second one returns, and the first one given `NULL`. -/
def stopAnswer (done : Bool) : Answer := if done then .returned else .pending

def machine : Machine State Event Answer where
  step s
    | .watchStart watch fd callback arg =>
      let (rc, s) := s.watchStart watch fd callback arg; (s, .rc rc)
    | .watchStopBegin watch => (s.watchStopBegin watch, stopAnswer watch.isNone)
    | .watchStopEnd watch => let (done, s) := s.watchStopEnd watch; (s, stopAnswer done)
    | .timerStart timer periodMs callback arg oneShot now =>
      let (rc, s) := s.timerStart timer periodMs callback arg oneShot now; (s, .rc rc)
    | .timerStopBegin timer => (s.timerStopBegin timer, stopAnswer timer.isNone)
    | .timerStopEnd timer => let (done, s) := s.timerStopEnd timer; (s, stopAnswer done)
    | .worker world => (s.workerStep world, .pending)

/-!
## The life of one object

What the scheduler and the callers of its functions do with one watch or one timer, and nothing else
of either: how many slots have it, its three flags, and how far the worker is with it. A step is
told by what it may bring about, so that a watch and a timer are two instances of one life.

* `Sound` — what keeps a stop from returning too early or leaving something behind. Every step keeps
  it, and a start does when it is `Harmless`.
* `Quiet` — what a stop leaves: the worker neither polls the object nor is in its callback, and does
  not come back to it before the next start.
-/

structure Life where
  /-- The slots that have the object. -/
  slots : Nat
  active : Bool
  dispatching : Bool
  polling : Bool
  /-- A call of its stop waits. -/
  stopping : Prop
  /-- The worker polls it. -/
  polled : Prop
  /-- The poll has reported it, and the worker has not come to it yet. -/
  due : Prop
  /-- The worker is in its callback. -/
  running : Prop

namespace Life

/-- What no step but a start adds to: the slots, the `active` flag, and the waiting calls of a stop
while that is set. -/
structure Kept (l l' : Life) : Prop where
  slots : l'.slots ≤ l.slots
  active : l'.active = true → l.active = true
  stopping : l'.active = true → l'.stopping → l.stopping

/-- What a step that does not start the object may do with it. -/
inductive Goes (l l' : Life) : Prop
  /-- The worker goes no further with it, though it may leave its callback. -/
  | rests (kept : Kept l l') (hpolling : l'.polling = l.polling) (hpolled : l'.polled → l.polled)
      (hdue : l'.due → l.due)
      (hrunning : l'.running → l.running ∧ l'.dispatching = l.dispatching)
  /-- A round of the worker begins, or ends. -/
  | polls (kept : Kept l l')
      (hpolled : l'.polled → 0 < l.slots ∧ l.active = true ∧ l'.polling = true)
      (hdue : ¬ l'.due) (hrunning : ¬ l'.running)
  /-- The poll returns. -/
  | reports (kept : Kept l l') (hpolling : l'.polling = l.polling) (hpolled : ¬ l'.polled)
      (hdue : l'.due → l.polled) (hrunning : ¬ l'.running)
  /-- The worker enters its callback. -/
  | calls (kept : Kept l l') (hactive : l.active = true) (hcause : l.due ∨ 0 < l.slots)
      (hpolling : l'.polling = l.polling) (hdispatching : l'.dispatching = true)
      (hpolled : ¬ l'.polled) (hdue : l'.due → l.due)

structure Starts (l l' : Life) : Prop where
  stopping : l'.stopping → l.stopping
  polled : l'.polled → l.polled
  due : l'.due → l.due
  running : l'.running → l.running

/-- A stop that returns: it has seen neither flag that it waits for, and has cleared a slot. -/
structure Returns (l l' : Life) : Prop where
  stopping : l.stopping
  polling : l.polling = false
  dispatching : l.dispatching = false
  slots : l'.slots = l.slots - 1
  active : l'.active = l.active
  polled : l'.polled → l.polled
  due : l'.due → l.due
  running : l'.running → l.running

/-- A start that takes no flag from the worker, and under a stop that waits leaves the object in one
slot only. -/
structure Harmless (l l' : Life) : Prop where
  polling : l.polled → l'.polling = true
  dispatching : l.running → l'.dispatching = true
  single : l.stopping → l'.slots ≤ 1
  due : l.stopping → l.due → l'.polling = true

/-- The flags show what the worker does, and an object that was started under a stop has one slot
only. -/
structure Sound (l : Life) : Prop where
  polling : l.polled → l.polling = true
  dispatching : l.running → l.dispatching = true
  single : l.active = true → l.stopping → l.slots ≤ 1
  due : l.active = true → l.stopping → l.due → l.polling = true

/-- The worker has nothing of the object, and an object that is still active has no slot. -/
structure Quiet (l : Life) : Prop where
  unpolled : ¬ l.polled
  idle : ¬ l.running
  slotless : l.active = true → l.slots = 0
  undue : l.active = true → ¬ l.due

variable {l l' : Life}

theorem Goes.refl (l : Life) : Goes l l :=
  .rests ⟨Nat.le_refl _, id, fun _ => id⟩ rfl id id fun h => ⟨h, rfl⟩

theorem Sound.goes (h : Sound l) (hgoes : Goes l l') : Sound l' := by
  cases hgoes with
  | rests kept hpolling hpolled hdue hrunning =>
    refine ⟨fun hp => ?_, fun hr => ?_, fun ha hs => ?_, fun ha hs hd => ?_⟩
    · rw [hpolling]
      exact h.polling (hpolled hp)
    · obtain ⟨hr, hsame⟩ := hrunning hr
      rw [hsame]
      exact h.dispatching hr
    · exact Nat.le_trans kept.slots (h.single (kept.active ha) (kept.stopping ha hs))
    · rw [hpolling]
      exact h.due (kept.active ha) (kept.stopping ha hs) (hdue hd)
  | polls kept hpolled hdue hrunning =>
    refine ⟨fun hp => (hpolled hp).2.2, fun hr => absurd hr hrunning, fun ha hs => ?_,
      fun _ _ hd => absurd hd hdue⟩
    exact Nat.le_trans kept.slots (h.single (kept.active ha) (kept.stopping ha hs))
  | reports kept hpolling hpolled hdue hrunning =>
    refine ⟨fun hp => absurd hp hpolled, fun hr => absurd hr hrunning, fun ha hs => ?_,
      fun _ _ hd => ?_⟩
    · exact Nat.le_trans kept.slots (h.single (kept.active ha) (kept.stopping ha hs))
    · rw [hpolling]
      exact h.polling (hdue hd)
  | calls kept hactive hcause hpolling hdispatching hpolled hdue =>
    refine ⟨fun hp => absurd hp hpolled, fun _ => hdispatching, fun ha hs => ?_,
      fun ha hs hd => ?_⟩
    · exact Nat.le_trans kept.slots (h.single (kept.active ha) (kept.stopping ha hs))
    · rw [hpolling]
      exact h.due (kept.active ha) (kept.stopping ha hs) (hdue hd)

theorem Sound.starts (hstarts : Starts l l') (hharmless : Harmless l l') : Sound l' where
  polling hp := hharmless.polling (hstarts.polled hp)
  dispatching hr := hharmless.dispatching (hstarts.running hr)
  single _ hs := hharmless.single (hstarts.stopping hs)
  due _ hs hd := hharmless.due (hstarts.stopping hs) (hstarts.due hd)

/-- **A stop returns.** -/
theorem Sound.quiet_of_returns (h : Sound l) (hreturns : Returns l l') : Quiet l' where
  unpolled hp := by
    have hpolling := h.polling (hreturns.polled hp)
    rw [hreturns.polling] at hpolling
    cases hpolling
  idle hr := by
    have hdispatching := h.dispatching (hreturns.running hr)
    rw [hreturns.dispatching] at hdispatching
    cases hdispatching
  slotless ha := by
    rw [hreturns.active] at ha
    have hsingle := h.single ha hreturns.stopping
    rw [hreturns.slots]
    exact Nat.sub_eq_zero_of_le hsingle
  undue ha hd := by
    rw [hreturns.active] at ha
    have hpolling := h.due ha hreturns.stopping (hreturns.due hd)
    rw [hreturns.polling] at hpolling
    cases hpolling

/-- **Until the next start** the worker does not come back to the object. -/
theorem Quiet.goes (h : Quiet l) (hgoes : Goes l l') : Quiet l' := by
  have hslots (kept : Kept l l') (ha : l'.active = true) : l'.slots = 0 :=
    Nat.eq_zero_of_le_zero (h.slotless (kept.active ha) ▸ kept.slots)
  cases hgoes with
  | rests kept hpolling hpolled hdue hrunning =>
    exact ⟨fun hp => h.unpolled (hpolled hp), fun hr => h.idle (hrunning hr).1, hslots kept,
      fun ha hd => h.undue (kept.active ha) (hdue hd)⟩
  | polls kept hpolled hdue hrunning =>
    refine ⟨fun hp => ?_, hrunning, hslots kept, fun _ => hdue⟩
    obtain ⟨hslot, hactive, -⟩ := hpolled hp
    exact Nat.ne_of_gt hslot (h.slotless hactive)
  | reports kept hpolling hpolled hdue hrunning =>
    exact ⟨hpolled, hrunning, hslots kept, fun _ hd => h.unpolled (hdue hd)⟩
  | calls kept hactive hcause hpolling hdispatching hpolled hdue =>
    -- an object that is active has no slot, and the poll has not reported it
    rcases hcause with hcause | hcause
    · exact absurd hcause (h.undue hactive)
    · exact absurd (h.slotless hactive) (Nat.ne_of_gt hcause)

end Life

end Brickwright.Btsensor.Scheduler
