import Brickwright.Btsensor.Scheduler.Verified

/-!
# What a stop that has returned leaves (`btsensor_scheduler.c`)

Every event is a step in the life of each watch and of each timer (`watchLife_step`,
`timerLife_step`), so what a life keeps, the scheduler keeps of every object (`sound_run`), and what
a stop leaves stays so until the next start (`stop_quiescent`).

A start can undo this (`Undisturbed`). `watch_start` clears the flags by which a stop sees that the
worker has the watch, and both starts can put an object that a stop waits for into a second slot,
which the stop does not clear (`stop_not_quiescent`).
-/

namespace Brickwright.Btsensor.Scheduler

open List

inductive Object where
  | watch (watch : Ptr)
  | timer (timer : Ptr)
  deriving DecidableEq

def Object.stopEnd : Object → Event
  | .watch x => .watchStopEnd x
  | .timer x => .timerStopEnd x

namespace Worker

/-- The worker is in a `poll` that includes the watch. -/
def Polls (worker : Worker) (x : Ptr) : Prop :=
  match worker with
  | .poll map => x ∈ map
  | _ => False

def InWatch (worker : Worker) (x : Ptr) : Prop :=
  match worker with
  | .inWatch y _ _ => y = x
  | _ => False

def InTimer (worker : Worker) (x : Ptr) : Prop :=
  match worker with
  | .inTimer y _ _ => y = x
  | _ => False

/-- The watches with an event that it has still to come to. -/
def ready : Worker → List Ptr
  | .watches _ ready => ready
  | .inWatch _ _ ready => ready
  | _ => []

/-- It polls the object, or is in its callback. -/
def Has (worker : Worker) : Object → Prop
  | .watch x => worker.Polls x ∨ worker.InWatch x
  | .timer x => worker.InTimer x

end Worker

def Event.startOf : Event → Option Object
  | .watchStart watch _ _ _ => watch.map .watch
  | .timerStart timer _ _ _ _ _ => timer.map .timer
  | _ => none

def Started (o : Object) (s : State) (e : Event) : Prop :=
  e.startOf = some o ∧ (machine.step s e).2 = .rc 0

/-- If the event is a start of the object that finds a slot, then:
* a watch is not being polled and the worker is not in its callback; and while a stop of it waits,
  it has no slot and no event that the worker has still to come to;
* a timer that a stop waits for has no slot, or just one, which comes before every free one. -/
def Undisturbed (o : Object) (s : State) : Event → Prop
  | .watchStart (some x) fd (some _) _ =>
      o = .watch x → 0 ≤ fd → none ∈ s.watches →
        ¬ s.worker.Polls x ∧ ¬ s.worker.InWatch x ∧
          (x ∈ s.watchStops → some x ∉ s.watches ∧ x ∉ s.worker.ready)
  | .timerStart (some x) periodMs (some _) _ _ _ =>
      o = .timer x → periodMs ≠ 0 → x ∈ s.timerStops → some x ∈ s.timers →
        s.timers.count (some x) = 1 ∧ s.timers.OwnFirst x
  | _ => True

/-! ## Lives -/

namespace State

def watchLife (s : State) (x : Ptr) : Life where
  slots := s.watches.count (some x)
  active := (s.watch x).active
  dispatching := (s.watch x).dispatching
  polling := (s.watch x).polling
  stopping := x ∈ s.watchStops
  polled := s.worker.Polls x
  due := x ∈ s.worker.ready
  running := s.worker.InWatch x

def timerLife (s : State) (x : Ptr) : Life where
  slots := s.timers.count (some x)
  active := (s.timer x).active
  dispatching := (s.timer x).dispatching
  polling := false
  stopping := x ∈ s.timerStops
  polled := False
  due := False
  running := s.worker.InTimer x

def life (s : State) : Object → Life
  | .watch x => s.watchLife x
  | .timer x => s.timerLife x

end State

variable {s : State} {x : Ptr}

/-! ## The starts -/

theorem einval_ne_zero : -EINVAL ≠ 0 := by decide
theorem enospc_ne_zero : -ENOSPC ≠ 0 := by decide

/-- A `watch_start` finds its arguments valid and a slot free, or changes nothing. -/
theorem watchStart_cases (s : State) (watch : Option Ptr) (fd : Int) (callback : Option Ptr)
    (arg : Nat) :
    (∃ x call, watch = some x ∧ callback = some call ∧ 0 ≤ fd ∧ none ∈ s.watches ∧
      s.watchStart watch fd callback arg =
        (0, { s.setWatch x fun _ => ⟨fd, call, arg, true, false, false⟩ with
          watches := s.watches.place x })) ∨
      ∃ rc, rc ≠ 0 ∧ s.watchStart watch fd callback arg = (rc, s) := by
  cases watch with
  | none => exact .inr ⟨_, einval_ne_zero, rfl⟩
  | some x =>
    cases callback with
    | none => exact .inr ⟨_, einval_ne_zero, rfl⟩
    | some call =>
      rw [State.watchStart]
      split
      · exact .inr ⟨_, einval_ne_zero, rfl⟩
      · next hfd =>
        split
        · exact .inr ⟨_, enospc_ne_zero, rfl⟩
        · next hfree => exact .inl ⟨x, call, rfl, rfl, Int.not_lt.mp hfd, not_not.mp hfree, rfl⟩

/-- A `timer_start` does likewise, and takes a slot that the timer has for free. -/
theorem timerStart_cases (s : State) (timer : Option Ptr) (periodMs : UInt32)
    (callback : Option Ptr) (arg : Nat) (oneShot : Bool) (now : UInt64) :
    (∃ x call, timer = some x ∧ callback = some call ∧ periodMs ≠ 0 ∧
      (none ∈ s.timers ∨ some x ∈ s.timers) ∧
      s.timerStart timer periodMs callback arg oneShot now =
        (0, { s.setTimer x fun t =>
            ⟨periodMs, now + periodMs.toUInt64, call, arg, true, oneShot, t.dispatching⟩ with
          timers := s.timers.placeOrOwn x })) ∨
      ∃ rc, rc ≠ 0 ∧ s.timerStart timer periodMs callback arg oneShot now = (rc, s) := by
  cases timer with
  | none => exact .inr ⟨_, einval_ne_zero, rfl⟩
  | some x =>
    cases callback with
    | none => exact .inr ⟨_, einval_ne_zero, rfl⟩
    | some call =>
      rw [State.timerStart]
      split
      · exact .inr ⟨_, einval_ne_zero, rfl⟩
      · next hperiod =>
        split
        · exact .inr ⟨_, enospc_ne_zero, rfl⟩
        · next hfits =>
          rw [not_and_or, not_not, not_not] at hfits
          exact .inl ⟨x, call, rfl, rfl, hperiod, hfits, rfl⟩

/-! ## The life of a watch -/

theorem watch_setWatch (y : Ptr) (f : Watch → Watch) :
    (s.setWatch y f).watch x = if x = y then f (s.watch x) else s.watch x := rfl

theorem watch_setPolling (map : List Ptr) (polling : Bool) :
    (s.setPolling map polling).watch x =
      if x ∈ map then { s.watch x with polling := polling } else s.watch x := rfl

theorem count_place_of_ne {y : Ptr} {t : Table} (hfree : none ∈ t) (h : x ≠ y) :
    (t.place y).count (some x) = t.count (some x) := by
  rw [Table.count_place hfree, if_neg h, Nat.add_zero]

theorem watchStart_life (x : Ptr) (watch : Option Ptr) (fd : Int) (callback : Option Ptr)
    (arg : Nat) :
    Started (.watch x) s (.watchStart watch fd callback arg) ∧
        Life.Starts (s.watchLife x) ((s.watchStart watch fd callback arg).2.watchLife x) ∨
      (s.watchStart watch fd callback arg).2.watchLife x = s.watchLife x := by
  rcases watchStart_cases s watch fd callback arg with
    ⟨y, call, rfl, rfl, hfd, hfree, heq⟩ | ⟨rc, hrc, heq⟩
  · by_cases hy : x = y
    · subst hy
      refine .inl ⟨⟨rfl, congrArg (fun r : Int × State => Answer.rc r.1) heq⟩, ?_⟩
      rw [heq]
      exact ⟨id, id, id, id⟩
    · refine .inr ?_
      rw [heq]
      simp only [State.watchLife, watch_setWatch, if_neg hy, count_place_of_ne hfree hy]
      rfl
  · rw [heq]
    exact .inr rfl

theorem watchStopBegin_life (x : Ptr) (watch : Option Ptr) :
    Life.Goes (s.watchLife x) ((s.watchStopBegin watch).watchLife x) := by
  cases watch with
  | none => exact .refl _
  | some y =>
    have hactive (h : ((s.watchStopBegin (some y)).watch x).active = true) :
        x ≠ y ∧ (s.watch x).active = true := by
      change (if x = y then { s.watch x with active := false } else s.watch x).active = true at h
      split at h
      · cases h
      · next hy => exact ⟨hy, h⟩
    have hflags : ((s.watchStopBegin (some y)).watch x).polling = (s.watch x).polling ∧
        ((s.watchStopBegin (some y)).watch x).dispatching = (s.watch x).dispatching := by
      change (if x = y then { s.watch x with active := false } else s.watch x).polling = _ ∧
        (if x = y then { s.watch x with active := false } else s.watch x).dispatching = _
      split <;> exact ⟨rfl, rfl⟩
    refine .rests ⟨Nat.le_refl _, fun h => (hactive h).2, fun h hs => ?_⟩ hflags.1 id id
      fun h => ⟨h, hflags.2⟩
    exact (mem_cons.mp hs).resolve_left (hactive h).1

theorem watchStopEnd_life (x y : Ptr) :
    Life.Goes (s.watchLife x) ((s.watchStopEnd y).2.watchLife x) := by
  rw [State.watchStopEnd]
  split
  · refine .rests ⟨?_, id, fun _ hs => mem_of_mem_erase hs⟩ rfl id id fun h => ⟨h, rfl⟩
    change (s.watches.clear y).count (some x) ≤ s.watches.count (some x)
    rw [Table.count_clear]
    exact Nat.sub_le _ _
  · exact .refl _

theorem mem_polled : x ∈ s.polled ↔ some x ∈ s.watches ∧ (s.watch x).active = true := by
  rw [State.polled, mem_filterMap]
  constructor
  · rintro ⟨slot, hslot, hx⟩
    rw [Option.filter_eq_some_iff] at hx
    obtain ⟨rfl, hactive⟩ := hx
    exact ⟨hslot, hactive⟩
  · rintro ⟨hslot, hactive⟩
    exact ⟨some x, hslot, Option.filter_eq_some_iff.mpr ⟨rfl, hactive⟩⟩

theorem active_setPolling (map : List Ptr) (polling : Bool) :
    ((s.setPolling map polling).watch x).active = (s.watch x).active := by
  rw [watch_setPolling]
  split <;> rfl

theorem enterWatch_life {map ready : List Ptr} {y : Ptr}
    (hworker : s.worker = .watches map (y :: ready)) (hactive : (s.watch y).active = true) :
    Life.Goes (s.watchLife x)
      (State.watchLife { s.setWatch y fun w => { w with dispatching := true } with
        worker := .inWatch y map ready } x) := by
  have hdue : x ∈ ready → x ∈ s.worker.ready := by
    rw [hworker]
    exact mem_cons_of_mem y
  by_cases hy : x = y
  · subst hy
    have hsame : (s.setWatch x fun w => { w with dispatching := true }).watch x =
        { s.watch x with dispatching := true } := if_pos rfl
    refine .calls ⟨Nat.le_refl _, fun _ => hactive, fun _ hs => hs⟩ hactive (.inl ?_) ?_ ?_ id hdue
    · change x ∈ s.worker.ready
      rw [hworker]
      exact mem_cons_self
    · exact (congrArg Watch.polling hsame).trans rfl
    · exact (congrArg Watch.dispatching hsame).trans rfl
  · have hsame : (s.setWatch y fun w => { w with dispatching := true }).watch x = s.watch x :=
      if_neg hy
    refine .rests ⟨Nat.le_refl _, fun h => ?_, fun _ hs => hs⟩ ?_ False.elim hdue
      fun h => absurd h.symm hy
    · exact (congrArg Watch.active hsame).symm.trans h
    · exact congrArg Watch.polling hsame

theorem leaveWatch_life {map ready : List Ptr} {y : Ptr}
    (hworker : s.worker = .inWatch y map ready) :
    Life.Goes (s.watchLife x)
      (State.watchLife { s.setWatch y fun w => { w with dispatching := false } with
        worker := .watches map ready } x) := by
  have hsame : ((s.setWatch y fun w => { w with dispatching := false }).watch x).active =
        (s.watch x).active ∧
      ((s.setWatch y fun w => { w with dispatching := false }).watch x).polling =
        (s.watch x).polling := by
    rw [watch_setWatch]
    split <;> exact ⟨rfl, rfl⟩
  refine .rests ⟨Nat.le_refl _, hsame.1.symm.trans, fun _ hs => hs⟩ hsame.2 False.elim (fun h => ?_)
    False.elim
  change x ∈ s.worker.ready
  rw [hworker]
  exact h

theorem idle_watchLife {worker : Worker} (hpolls : ¬ worker.Polls x) (hready : worker.ready = [])
    (hcallback : ¬ worker.InWatch x) :
    Life.Goes (s.watchLife x) (State.watchLife { s with worker := worker } x) := by
  refine .rests ⟨Nat.le_refl _, id, fun _ hs => hs⟩ rfl (absurd · hpolls) (fun h => ?_)
    (absurd · hcallback)
  change x ∈ worker.ready at h
  rw [hready] at h
  cases h

theorem expireSlot_watchLife (now : UInt64) (i : Nat) :
    Life.Goes (s.watchLife x) ((s.expireSlot now i).watchLife x) := by
  rw [State.expireSlot]
  split
  · split
    · exact idle_watchLife id rfl id
    · exact idle_watchLife id rfl id
  · exact idle_watchLife id rfl id

theorem workerStep_watchLife (x : Ptr) (world : Answers) :
    Life.Goes (s.watchLife x) ((s.workerStep world).watchLife x) := by
  rw [State.workerStep]
  split
  · -- the active watches of the table
    refine .polls ⟨Nat.le_refl _, fun h => ?_, fun _ hs => hs⟩ (fun hpolled => ?_)
      (fun h => by cases h)
      id
    · exact (active_setPolling s.polled true).symm.trans h
    · have hpolled : x ∈ s.polled := hpolled
      obtain ⟨hslot, hactive⟩ := mem_polled.mp hpolled
      refine ⟨count_pos_iff.mpr hslot, hactive, ?_⟩
      change ((s.setPolling s.polled true).watch x).polling = true
      rw [watch_setPolling, if_pos hpolled]
  · next map hworker =>
    split
    · refine .polls ⟨Nat.le_refl _, fun h => ?_, fun _ hs => hs⟩ False.elim (fun h => by cases h) id
      exact (active_setPolling map false).symm.trans h
    · next ready =>
      refine .reports ⟨Nat.le_refl _, id, fun _ hs => hs⟩ rfl id (fun hdue => ?_) id
      change s.worker.Polls x
      rw [hworker]
      exact (mem_filter.mp hdue).1
  · next map y ready hworker =>
    split
    · next hactive => exact enterWatch_life hworker hactive
    · refine .rests ⟨Nat.le_refl _, id, fun _ hs => hs⟩ rfl False.elim (fun h => ?_) False.elim
      change x ∈ s.worker.ready
      rw [hworker]
      exact mem_cons_of_mem y h
  · next map hworker =>
    refine .polls ⟨Nat.le_refl _, fun h => ?_, fun _ hs => hs⟩ False.elim (fun h => by cases h) id
    exact (active_setPolling map false).symm.trans h
  · next y map ready hworker => exact leaveWatch_life hworker
  · split
    · exact expireSlot_watchLife _ _
    · exact idle_watchLife id rfl id
  · exact idle_watchLife id rfl id
  · exact .refl _

/-! ## The life of a timer -/

theorem timer_setTimer (y : Ptr) (f : Timer → Timer) :
    (s.setTimer y f).timer x = if x = y then f (s.timer x) else s.timer x := rfl

theorem count_placeOrOwn_of_ne {y : Ptr} {t : Table} (hfits : none ∈ t ∨ some y ∈ t) (h : x ≠ y) :
    (t.placeOrOwn y).count (some x) = t.count (some x) := by
  rw [Table.count_placeOrOwn hfits, if_neg (fun hy => h hy.1), Nat.add_zero]

theorem timerStart_life (x : Ptr) (timer : Option Ptr) (periodMs : UInt32) (callback : Option Ptr)
    (arg : Nat) (oneShot : Bool) (now : UInt64) :
    Started (.timer x) s (.timerStart timer periodMs callback arg oneShot now) ∧
        Life.Starts (s.timerLife x)
          ((s.timerStart timer periodMs callback arg oneShot now).2.timerLife x) ∨
      (s.timerStart timer periodMs callback arg oneShot now).2.timerLife x = s.timerLife x := by
  rcases timerStart_cases s timer periodMs callback arg oneShot now with
    ⟨y, call, rfl, rfl, hperiod, hfits, heq⟩ | ⟨rc, hrc, heq⟩
  · by_cases hy : x = y
    · subst hy
      refine .inl ⟨⟨rfl, congrArg (fun r : Int × State => Answer.rc r.1) heq⟩, ?_⟩
      rw [heq]
      exact ⟨id, id, id, id⟩
    · refine .inr ?_
      rw [heq]
      simp only [State.timerLife, timer_setTimer, if_neg hy, count_placeOrOwn_of_ne hfits hy]
      rfl
  · rw [heq]
    exact .inr rfl

theorem timerStopBegin_life (x : Ptr) (timer : Option Ptr) :
    Life.Goes (s.timerLife x) ((s.timerStopBegin timer).timerLife x) := by
  cases timer with
  | none => exact .refl _
  | some y =>
    have hactive (h : ((s.timerStopBegin (some y)).timer x).active = true) :
        x ≠ y ∧ (s.timer x).active = true := by
      change (if x = y then { s.timer x with active := false } else s.timer x).active = true at h
      split at h
      · cases h
      · next hy => exact ⟨hy, h⟩
    have hflag : ((s.timerStopBegin (some y)).timer x).dispatching = (s.timer x).dispatching := by
      change (if x = y then { s.timer x with active := false } else s.timer x).dispatching = _
      split <;> rfl
    refine .rests ⟨Nat.le_refl _, fun h => (hactive h).2, fun h hs => ?_⟩ rfl id id
      fun h => ⟨h, hflag⟩
    exact (mem_cons.mp hs).resolve_left (hactive h).1

theorem timerStopEnd_life (x y : Ptr) :
    Life.Goes (s.timerLife x) ((s.timerStopEnd y).2.timerLife x) := by
  rw [State.timerStopEnd]
  split
  · refine .rests ⟨?_, id, fun _ hs => mem_of_mem_erase hs⟩ rfl id id fun h => ⟨h, rfl⟩
    change (s.timers.clear y).count (some x) ≤ s.timers.count (some x)
    rw [Table.count_clear]
    exact Nat.sub_le _ _
  · exact .refl _

theorem idle_timerLife {worker : Worker} (hcallback : ¬ worker.InTimer x) :
    Life.Goes (s.timerLife x) (State.timerLife { s with worker := worker } x) :=
  .rests ⟨Nat.le_refl _, id, fun _ hs => hs⟩ rfl id id (absurd · hcallback)

theorem expire_flags (t : Timer) (now : UInt64) :
    (t.expire now).dispatching = true ∧ ((t.expire now).active = true → t.active = true) := by
  rw [Timer.expire]
  split
  · exact ⟨rfl, fun h => nomatch h⟩
  · exact ⟨rfl, id⟩

theorem expireSlot_timerLife (now : UInt64) (i : Nat) :
    Life.Goes (s.timerLife x) ((s.expireSlot now i).timerLife x) := by
  rw [State.expireSlot]
  split
  · next y hslot =>
    split
    · next hdue =>
      have hslots : (if (s.timer y).oneShot = true then s.timers.set i none else s.timers).count
          (some x) ≤ s.timers.count (some x) := by
        split
        · exact Table.count_set_none i
        · exact Nat.le_refl _
      by_cases hy : x = y
      · subst hy
        have hflags := expire_flags (s.timer x) now
        have hsame : (s.setTimer x fun t => t.expire now).timer x = (s.timer x).expire now :=
          if_pos rfl
        have hmem : some x ∈ s.timers := by
          rw [getD_eq_getElem?_getD] at hslot
          cases hget : s.timers[i]? with
          | none => rw [hget] at hslot; cases hslot
          | some slot =>
            rw [hget] at hslot
            obtain rfl : slot = some x := hslot
            exact mem_of_getElem? hget
        refine .calls ⟨hslots, fun _ => hdue.1, fun _ hs => hs⟩ hdue.1
          (.inr (count_pos_iff.mpr hmem)) rfl ?_ id id
        exact (congrArg Timer.dispatching hsame).trans hflags.1
      · have hsame : (s.setTimer y fun t => t.expire now).timer x = s.timer x := if_neg hy
        refine .rests ⟨hslots, fun h => ?_, fun _ hs => hs⟩ rfl id id fun h => absurd h.symm hy
        exact (congrArg Timer.active hsame).symm.trans h
    · exact idle_timerLife id
  · exact idle_timerLife id

theorem workerStep_timerLife (x : Ptr) (world : Answers) :
    Life.Goes (s.timerLife x) ((s.workerStep world).timerLife x) := by
  rw [State.workerStep]
  split
  · exact idle_timerLife id
  · split
    · exact idle_timerLife id
    · exact idle_timerLife id
  · split
    · exact idle_timerLife id
    · exact idle_timerLife id
  · exact idle_timerLife id
  · exact idle_timerLife id
  · split
    · exact expireSlot_timerLife _ _
    · exact idle_timerLife id
  · next y now i hworker =>
    have hsame : ((s.setTimer y fun t => { t with dispatching := false }).timer x).active =
        (s.timer x).active := by
      rw [timer_setTimer]
      split <;> rfl
    exact .rests ⟨Nat.le_refl _, hsame.symm.trans, fun _ hs => hs⟩ rfl id id False.elim
  · exact .refl _

/-! ## One event -/

theorem timerStart_watchLife (x : Ptr) (timer : Option Ptr) (periodMs : UInt32)
    (callback : Option Ptr) (arg : Nat) (oneShot : Bool) (now : UInt64) :
    (s.timerStart timer periodMs callback arg oneShot now).2.watchLife x = s.watchLife x := by
  rcases timerStart_cases s timer periodMs callback arg oneShot now with
    ⟨y, call, -, -, -, -, heq⟩ | ⟨rc, -, heq⟩
  · rw [heq]
    rfl
  · rw [heq]

theorem watchStart_timerLife (x : Ptr) (watch : Option Ptr) (fd : Int) (callback : Option Ptr)
    (arg : Nat) : (s.watchStart watch fd callback arg).2.timerLife x = s.timerLife x := by
  rcases watchStart_cases s watch fd callback arg with
    ⟨y, call, -, -, -, -, heq⟩ | ⟨rc, -, heq⟩
  · rw [heq]
    rfl
  · rw [heq]

theorem watchLife_step (x : Ptr) (s : State) (e : Event) :
    Started (.watch x) s e ∧ Life.Starts (s.watchLife x) ((machine.step s e).1.watchLife x) ∨
      Life.Goes (s.watchLife x) ((machine.step s e).1.watchLife x) := by
  cases e with
  | watchStart watch fd callback arg =>
    refine (watchStart_life x watch fd callback arg).imp_right fun hsame => ?_
    change Life.Goes _ ((s.watchStart watch fd callback arg).2.watchLife x)
    rw [hsame]
    exact .refl _
  | watchStopBegin watch => exact .inr (watchStopBegin_life x watch)
  | watchStopEnd y => exact .inr (watchStopEnd_life x y)
  | timerStart timer periodMs callback arg oneShot now =>
    refine .inr ?_
    change Life.Goes _ ((s.timerStart timer periodMs callback arg oneShot now).2.watchLife x)
    rw [timerStart_watchLife]
    exact .refl _
  | timerStopBegin timer => cases timer <;> exact .inr (.refl _)
  | timerStopEnd y =>
    refine .inr ?_
    change Life.Goes _ ((s.timerStopEnd y).2.watchLife x)
    rw [State.timerStopEnd]
    split <;> exact .refl _
  | worker world => exact .inr (workerStep_watchLife x world)

theorem timerLife_step (x : Ptr) (s : State) (e : Event) :
    Started (.timer x) s e ∧ Life.Starts (s.timerLife x) ((machine.step s e).1.timerLife x) ∨
      Life.Goes (s.timerLife x) ((machine.step s e).1.timerLife x) := by
  cases e with
  | watchStart watch fd callback arg =>
    refine .inr ?_
    change Life.Goes _ ((s.watchStart watch fd callback arg).2.timerLife x)
    rw [watchStart_timerLife]
    exact .refl _
  | watchStopBegin watch => cases watch <;> exact .inr (.refl _)
  | watchStopEnd y =>
    refine .inr ?_
    change Life.Goes _ ((s.watchStopEnd y).2.timerLife x)
    rw [State.watchStopEnd]
    split <;> exact .refl _
  | timerStart timer periodMs callback arg oneShot now =>
    refine (timerStart_life x timer periodMs callback arg oneShot now).imp_right fun hsame => ?_
    change Life.Goes _ ((s.timerStart timer periodMs callback arg oneShot now).2.timerLife x)
    rw [hsame]
    exact .refl _
  | timerStopBegin timer => exact .inr (timerStopBegin_life x timer)
  | timerStopEnd y => exact .inr (timerStopEnd_life x y)
  | worker world => exact .inr (workerStep_timerLife x world)

/-- **One event** in the life of an object. -/
theorem life_step (o : Object) (s : State) (e : Event) :
    Started o s e ∧ Life.Starts (s.life o) ((machine.step s e).1.life o) ∨
      Life.Goes (s.life o) ((machine.step s e).1.life o) := by
  cases o with
  | watch x => exact watchLife_step x s e
  | timer x => exact timerLife_step x s e

theorem harmless_watchStart {fd : Int} {callback : Option Ptr} {arg : Nat}
    (hrc : (s.watchStart (some x) fd callback arg).1 = 0)
    (hallowed : Undisturbed (.watch x) s (.watchStart (some x) fd callback arg)) :
    Life.Harmless (s.watchLife x) ((s.watchStart (some x) fd callback arg).2.watchLife x) := by
  obtain ⟨y, call, hy, rfl, hfd, hfree, heq⟩ | ⟨rc, hne, heq⟩ :=
    watchStart_cases s (some x) fd callback arg
  swap
  · rw [heq] at hrc
    exact absurd hrc hne
  cases hy
  obtain ⟨hpolls, hcallback, hstopping⟩ := hallowed rfl hfd hfree
  rw [heq]
  refine ⟨(absurd · hpolls), (absurd · hcallback), fun hs => ?_,
    fun hs hdue => absurd hdue (hstopping hs).2⟩
  change (s.watches.place x).count (some x) ≤ 1
  have hnone := count_eq_zero_of_not_mem (hstopping hs).1
  rw [Table.count_place hfree, if_pos rfl]
  omega

theorem harmless_timerStart {periodMs : UInt32} {callback : Option Ptr} {arg : Nat} {oneShot : Bool}
    {now : UInt64} (hsound : (s.timerLife x).Sound)
    (hrc : (s.timerStart (some x) periodMs callback arg oneShot now).1 = 0)
    (hallowed : Undisturbed (.timer x) s
      (.timerStart (some x) periodMs callback arg oneShot now)) :
    Life.Harmless (s.timerLife x)
      ((s.timerStart (some x) periodMs callback arg oneShot now).2.timerLife x) := by
  obtain ⟨y, call, hy, rfl, hperiod, hfits, heq⟩ | ⟨rc, hne, heq⟩ :=
    timerStart_cases s (some x) periodMs callback arg oneShot now
  swap
  · rw [heq] at hrc
    exact absurd hrc hne
  cases hy
  rw [heq]
  refine ⟨False.elim, fun hrunning => ?_, fun hs => ?_, fun _ => False.elim⟩
  · -- the start leaves the flag as it is
    change (if x = x then _ else s.timer x : Timer).dispatching = true
    rw [if_pos rfl]
    exact hsound.dispatching hrunning
  · change (s.timers.placeOrOwn x).count (some x) ≤ 1
    rw [Table.count_placeOrOwn hfits]
    by_cases hmem : some x ∈ s.timers
    · obtain ⟨hone, hfirst⟩ := hallowed rfl hperiod hs hmem
      rw [if_neg fun h => h.2 hfirst]
      omega
    · rw [count_eq_zero_of_not_mem hmem]
      split <;> decide

theorem harmless_of_started {o : Object} {e : Event} (hsound : (s.life o).Sound)
    (hstarted : Started o s e) (hallowed : Undisturbed o s e) :
    Life.Harmless (s.life o) ((machine.step s e).1.life o) := by
  obtain ⟨ho, hrc⟩ := hstarted
  cases e with
  | watchStart watch fd callback arg =>
    obtain ⟨x, rfl, rfl⟩ := Option.map_eq_some_iff.mp ho
    exact harmless_watchStart (Answer.rc.inj hrc) hallowed
  | timerStart timer periodMs callback arg oneShot now =>
    obtain ⟨x, rfl, rfl⟩ := Option.map_eq_some_iff.mp ho
    exact harmless_timerStart hsound (Answer.rc.inj hrc) hallowed
  | _ => cases ho

theorem returns_stopEnd {o : Object} (h : (machine.step s o.stopEnd).2 = .returned) :
    Life.Returns (s.life o) ((machine.step s o.stopEnd).1.life o) := by
  cases o with
  | watch x =>
    change stopAnswer (s.watchStopEnd x).1 = .returned at h
    change Life.Returns (s.watchLife x) ((s.watchStopEnd x).2.watchLife x)
    rw [State.watchStopEnd] at h ⊢
    split
    · next hdone =>
      refine ⟨hdone.1, hdone.2.2, hdone.2.1, ?_, rfl, id, id, id⟩
      change (s.watches.clear x).count (some x) = _
      rw [Table.count_clear, if_pos rfl]
      rfl
    · next hwaits =>
      rw [if_neg hwaits] at h
      cases h
  | timer x =>
    change stopAnswer (s.timerStopEnd x).1 = .returned at h
    change Life.Returns (s.timerLife x) ((s.timerStopEnd x).2.timerLife x)
    rw [State.timerStopEnd] at h ⊢
    split
    · next hdone =>
      refine ⟨hdone.1, rfl, hdone.2, ?_, rfl, id, id, id⟩
      change (s.timers.clear x).count (some x) = _
      rw [Table.count_clear, if_pos rfl]
      rfl
    · next hwaits =>
      rw [if_neg hwaits] at h
      cases h

/-! ## Runs -/

theorem boot_sound_life (watch : Ptr → Watch) (timer : Ptr → Timer) (o : Object) :
    ((boot watch timer).life o).Sound := by
  cases o with
  | watch x => exact ⟨False.elim, False.elim, fun _ => (nomatch ·), fun _ => (nomatch ·)⟩
  | timer x => exact ⟨False.elim, False.elim, fun _ => (nomatch ·), fun _ => (nomatch ·)⟩

theorem sound_step {o : Object} {e : Event} (h : (s.life o).Sound) (hallowed : Undisturbed o s e) :
    ((machine.step s e).1.life o).Sound := by
  rcases life_step o s e with ⟨hstarted, hstarts⟩ | hgoes
  · exact .starts hstarts (harmless_of_started h hstarted hallowed)
  · exact h.goes hgoes

theorem sound_run {o : Object} {s : State} {events : List Event} (h : (s.life o).Sound)
    (hallowed : machine.Throughout (Undisturbed o) s events) :
    ((machine.run s events).life o).Sound := by
  induction events generalizing s with
  | nil => exact h
  | cons e events ih => exact ih (sound_step h hallowed.1) hallowed.2

/-- What a stop leaves stays so until the next start. -/
theorem quiet_run {o : Object} {s : State} {events : List Event} (h : (s.life o).Quiet)
    (hnot : machine.Throughout (fun s e => ¬ Started o s e) s events) :
    ((machine.run s events).life o).Quiet := by
  induction events generalizing s with
  | nil => exact h
  | cons e events ih =>
    rcases life_step o s e with ⟨hstarted, -⟩ | hgoes
    · exact absurd hstarted hnot.1
    · exact ih (h.goes hgoes) hnot.2

theorem not_has_of_quiet {o : Object} (h : (s.life o).Quiet) : ¬ s.worker.Has o := by
  cases o with
  | watch x => exact fun hhas => hhas.elim h.unpolled h.idle
  | timer x => exact h.idle

/-- **Quiescence.** In a run that starts the object only undisturbed: when a stop of it has returned
and it has not been started since, the worker does not poll it and is not in its callback. -/
theorem stop_quiescent (watch : Ptr → Watch) (timer : Ptr → Timer) (o : Object)
    (before after : List Event)
    (hallowed : machine.Throughout (Undisturbed o) (boot watch timer) before)
    (hreturned : (machine.step (machine.run (boot watch timer) before) o.stopEnd).2 = .returned)
    (hnot : machine.Throughout (fun s e => ¬ Started o s e)
      (machine.step (machine.run (boot watch timer) before) o.stopEnd).1 after) :
    ¬ (machine.run (boot watch timer) (before ++ o.stopEnd :: after)).worker.Has o := by
  rw [Machine.run_append, Machine.run_cons]
  have hsound := sound_run (boot_sound_life watch timer o) hallowed
  exact not_has_of_quiet (quiet_run (hsound.quiet_of_returns (returns_stopEnd hreturned)) hnot)

/-- The worker takes some steps: its `poll` reports the watches `ready`, and its clock stands at
`now`. -/
def goes (ready : List Ptr) (now : UInt64) (steps : Nat) : List Event :=
  List.replicate steps (.worker ⟨some ready, now⟩)

theorem goes_starts_nothing (ready : List Ptr) (now : UInt64) (steps : Nat) (o : Object)
    (s : State) : machine.Throughout (fun s e => ¬ Started o s e) s (goes ready now steps) := by
  refine Machine.throughout_of_forall _ (fun e he s hstarted => ?_) s
  rw [eq_of_mem_replicate he] at hstarted
  cases hstarted.1

/-- A timer expires, and starts itself again in its callback while a stop of it waits. -/
def rearmUnderStop : List Event :=
  .timerStart (some 1) 10 (some 7) 0 false 0 :: goes [] 10 4 ++
    [.timerStopBegin (some 1), .timerStart (some 1) 10 (some 7) 0 false 10] ++ goes [] 10 1

theorem stop_quiescent_rearmed : ¬ (machine.run (boot someWatch someTimer)
    (rearmUnderStop ++ .timerStopEnd 1 :: goes [] 20 9)).worker.Has (.timer 1) := by
  refine stop_quiescent someWatch someTimer (.timer 1) rearmUnderStop (goes [] 20 9) ?_ (by decide)
    (goes_starts_nothing _ _ _ _ _)
  refine ⟨fun _ _ hstopping => absurd hstopping (by decide), trivial, trivial, trivial, trivial,
    trivial, fun _ _ _ _ => by decide, trivial, trivial⟩

/-! ## Stops that are not -/

/-- Two timers are started and the first is stopped, so that the second is behind a free slot when
it expires and does the same. -/
def rearmBehindFree : List Event :=
  [.timerStart (some 1) 10 (some 7) 0 false 0, .timerStart (some 2) 10 (some 7) 0 false 0,
    .timerStopBegin (some 1), .timerStopEnd 1] ++ goes [] 10 5 ++
    [.timerStopBegin (some 2), .timerStart (some 2) 10 (some 7) 0 false 10] ++ goes [] 10 1

/-- A watch starts itself again in its callback, and then it is stopped. -/
def restartInCallback : List Event :=
  .watchStart (some 1) 3 (some 7) 0 :: goes [1] 0 3 ++
    [.watchStart (some 1) 3 (some 7) 0, .watchStopBegin (some 1)]

/-- A watch is started again while it is polled, and then it is stopped. -/
def restartInPoll : List Event :=
  .watchStart (some 1) 3 (some 7) 0 :: goes [] 0 1 ++
    [.watchStart (some 1) 3 (some 7) 0, .watchStopBegin (some 1)]

/-- A stop of the object returns, and with no start since the worker has it. -/
def Fails (o : Object) (before after : List Event) : Prop :=
  (machine.step (machine.run (boot someWatch someTimer) before) o.stopEnd).2 = .returned ∧
    machine.Throughout (fun s e => ¬ Started o s e)
      (machine.step (machine.run (boot someWatch someTimer) before) o.stopEnd).1 after ∧
    (machine.run (boot someWatch someTimer) (before ++ o.stopEnd :: after)).worker.Has o

/-- **Stops that are not the end of it**: the timer's callback is called again after its stop has
returned, and a stop of the watch returns while the worker is in its callback, or polls it. -/
theorem stop_not_quiescent :
    Fails (.timer 2) rearmBehindFree (goes [] 20 8) ∧
      Fails (.watch 1) restartInCallback [] ∧
      Fails (.watch 1) restartInPoll [] := by
  refine ⟨⟨by decide, goes_starts_nothing _ _ _ _ _, ?_⟩, ⟨by decide, trivial, .inr ?_⟩,
    ⟨by decide, trivial, .inl ?_⟩⟩
  · exact rfl
  · exact rfl
  · exact mem_cons_self

end Brickwright.Btsensor.Scheduler
