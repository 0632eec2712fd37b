import Brickwright.Bits.Words
import Brickwright.Btsensor.Classic.Sound

/-!
# Degrees runs and the true position (`btsensor_classic.c`)

The encoder shows the low 32 bits of where a motor is. An observer of the adapter knows the position
itself: `Watch` is what it writes down. For each line it has what the line asks for and, for a run
by an angle, where the motor was whenever the run took a position, from its baseline on, with the
newest first; and what the end action of a firing returned.

`Follows` is what such a run owes to the true position.
-/

namespace Brickwright.Btsensor.Classic

open Decimal Backend Unwrapped

variable {σ : Type*}

/-! ## The observer -/

structure Watch where
  todo : Nat → Option Todo
  readings : Nat → List Int
  ended : Nat → Option Int

namespace System

/-- What a line asks for that arrives with the event. -/
def asks (s : System σ) : Event → Option Todo
  | .receive link line =>
    match s.host with
    | .idle =>
      if link ≠ linkClassic then none
      else
        match parseLegacySound line with
        | some _ => none
        | none => (parseRequest line).map Request.todo
    | _ => none
  | _ => none

/-- The line whose run takes a position with the event: its baseline, or that of a poll. A poll
takes what the encoder has left also if there was nothing new. -/
def reads (s : System σ) : Event → Option Nat
  | .host a =>
    match s.host with
    | .starting asked port _ (.degrees angle) _ =>
      if (s.pending port).isSome ∨ a.now > maxClock - (Goal.degrees angle).span ∨ a.encoderRc ≠ 0
      then none
      else some asked.line
    | _ => none
  | .timer a =>
    match s.timer with
    | .visiting port =>
      if s.host.HoldsLock then none
      else if h : port < 6 then
        match s.pending ⟨port, h⟩ with
        | some run =>
          if run.deadlineMs > a.now ∨ run.degrees = false ∨
              ¬ (a.encoderRc = 0 ∨ a.encoderRc = -EAGAIN)
          then none
          else some run.asked.line
        | none => none
      else none
    | _ => none
  | _ => none

variable (env : IoCall → σ → IoResult × σ)

/-- The line whose run a firing ends with the event, and what the end action returns. -/
def ends (s : System σ) : Event → Option (Nat × Int)
  | .timer _ =>
    match s.timer with
    | .ending port completed motionResult =>
      let endState := if motionResult < 0 then 1 else completed.endState
      some (completed.asked.line, (s.endOwned env port completed endState).1)
    | _ => none
  | _ => none

end System

namespace Watch

variable (env : IoCall → σ → IoResult × σ)

def new : Watch := ⟨fun _ => none, fun _ => [], fun _ => none⟩

/-- What is written down of an event, with the position of the motor that it is about. -/
def after (w : Watch) (s : System σ) (event : Event) (position : Int) : Watch where
  todo :=
    match s.asks event with
    | some todo => Function.update w.todo s.received (some todo)
    | none => w.todo
  readings :=
    match s.reads event with
    | some line => Function.update w.readings line (position :: w.readings line)
    | none => w.readings
  ended :=
    match s.ends env event with
    | some (line, rc) => Function.update w.ended line (some rc)
    | none => w.ended

/-- The line asks for a run by an angle. -/
def AsksDegrees (w : Watch) (line : Nat) : Prop :=
  ∃ port operation angle endState,
    w.todo line = some (.start port operation (.degrees angle) endState)

/-- The run of the line could not be ended, with this error. -/
def EndFailed (w : Watch) (line : Nat) (result : Int) : Prop :=
  result ≠ 0 ∧ w.ended line = some result

end Watch

/-- The adapter and its observer, who knows a position for each event. -/
def watching (env : IoCall → σ → IoResult × σ) :
    Machine (System σ × Watch) (Event × Int) (List Note) where
  step o e :=
    let r := o.1.step env e.1
    ((r.1, o.2.after env o.1 e.1 e.2), r.2)

def Event.answers : Event → Option Answers
  | .host a | .timer a => some a
  | _ => none

/-- The encoder shows the low bits of the position, and the clock does not go back within a section
and is not about to come round. -/
def Fits (e : Event × Int) : Prop :=
  ∀ a ∈ e.1.answers,
    a.degrees = Int32.ofInt e.2 ∧ a.now ≤ a.again ∧ a.again ≤ maxClock - encoderPollMs

instance (e : Event × Int) : Decidable (Fits e) :=
  inferInstanceAs (Decidable (∀ a ∈ e.1.answers, _))

/-! ## What a run owes -/

def sense (operation : Operation) (angle : Int) : Int :=
  if (if angle < 0 then -operation.speed else operation.speed) < 0 then -1 else 1

/-- An explicit stop is about to answer the line, whose run it has cancelled. -/
def System.Cancels (s : System σ) (line : Nat) : Prop :=
  ∃ asked canceled failed, s.host = .resolving asked canceled failed ∧ canceled.asked.line = line

/-- Runs by an angle follow the position. A reply may be `excused`, or be the error of an end action
that `failed`. -/
structure Follows (env : IoCall → σ → IoResult × σ) (s : System σ) (w : Watch)
    (excused : Nat → Prop) (failed : Nat → Int → Prop) : Prop where
  displaced : ∀ port run, s.pending port = some run → run.degrees = true →
    Steady (w.readings run.asked.line) →
      run.displacement.toInt = travelled (w.readings run.asked.line)
  /-- A step of half of the counter's range ends the run. -/
  halfStep : ∀ a line p q qs, s.reads (.timer a) = some line → w.readings line = q :: qs →
    a.degrees = Int32.ofInt p → HalfStep p q →
      ∃ port run, run.asked.line = line ∧
        (s.step env (.timer a)).1.timer = .ending port run (-EOVERFLOW)
  /-- Success is reported of a run that is where it should be, … -/
  reached : ∀ event line id, .reply line id 0 ∈ (s.step env event).2 →
    ∀ port operation angle endState,
      w.todo line = some (.start port operation (.degrees angle) endState) →
        Steady (w.readings line) →
          excused line ∨ angle.natAbs ≤ sense operation angle * travelled (w.readings line)
  /-- … and a step of half of the range as what it is. -/
  overflowed : ∀ event line id result, .reply line id result ∈ (s.step env event).2 →
    w.AsksDegrees line → ¬ Unambiguous (w.readings line) →
      excused line ∨ result = -EOVERFLOW ∨ failed line result

/-! ## The angles of requests -/

section

variable {α β : Type} {p rest : List UInt8}

theorem exists_of_bind {x : Cursor α} {f : α → Cursor β} {b : β}
    (h : (x >>= f) p = some (b, rest)) :
    ∃ a mid, x p = some (a, mid) ∧ f a mid = some (b, rest) := by
  obtain ⟨⟨a, mid⟩, hfirst, hrest⟩ := Option.bind_eq_some_iff.mp h
  exact ⟨a, mid, hfirst, hrest⟩

theorem not_of_check {c : Prop} [Decidable c] {a b : α}
    (h : (if c then failure >>= fun _ : Unit => pure a else pure a : Cursor α) p = some (b, rest)) :
    ¬ c ∧ a = b := by
  by_cases hc : c
  · rw [if_pos hc] at h
    obtain ⟨_, _, hfail, -⟩ := exists_of_bind h
    cases hfail
  · rw [if_neg hc] at h
    cases h
    exact ⟨hc, rfl⟩

theorem parseInteger_mem {minimum maximum value : Int}
    (h : parseInteger minimum maximum p = some (value, rest)) :
    minimum ≤ value ∧ value ≤ maximum := by
  obtain ⟨bytes, p₁, -, h⟩ := exists_of_bind h
  dsimp only at h
  split at h
  · obtain ⟨_, p₂, -, h⟩ := exists_of_bind h
    obtain ⟨result, p₃, -, h⟩ := exists_of_bind h
    obtain ⟨hin, rfl⟩ := not_of_check h
    omega
  · obtain ⟨result, p₃, -, h⟩ := exists_of_bind h
    obtain ⟨hin, rfl⟩ := not_of_check h
    omega

/-- An angle is one that the parser lets through. -/
def Todo.Short : Todo → Prop
  | .start _ _ (.degrees angle) _ => angle.natAbs ≤ 1000000
  | _ => True

theorem short_operateWith (parser : Cursor Operation) (params : List UInt8) :
    (operateWith parser params).Short := by
  unfold operateWith
  split <;> trivial

theorem short_startTimed (port : Port) (operation : Operation) (timeMs : UInt64)
    (endState : UInt8) : (startTimed port operation timeMs endState).Short := by
  unfold startTimed
  split
  · trivial
  · split <;> trivial

theorem short_motorRunForDegrees (params : List UInt8) : (motorRunForDegrees params).Short := by
  unfold motorRunForDegrees
  split
  · trivial
  next port operation angle endState stall hparse =>
    have hangle : -1000000 ≤ angle ∧ angle ≤ 1000000 := by
      unfold whole at hparse
      split at hparse
      next hrun =>
        cases hparse
        obtain ⟨_, p₁, -, hrun⟩ := exists_of_bind hrun
        obtain ⟨run, p₂, hend, hrun⟩ := exists_of_bind hrun
        cases hrun
        obtain ⟨_, p₃, -, hend⟩ := exists_of_bind hend
        obtain ⟨value, p₄, hvalue, hend⟩ := exists_of_bind hend
        obtain ⟨_, p₅, -, hend⟩ := exists_of_bind hend
        obtain ⟨_, p₆, -, hend⟩ := exists_of_bind hend
        obtain ⟨_, p₇, -, hend⟩ := exists_of_bind hend
        obtain ⟨_, p₈, -, hend⟩ := exists_of_bind hend
        cases hend
        exact parseInteger_mem hvalue
      · cases hparse
    split
    · trivial
    · unfold startDegrees
      split
      · trivial
      · split
        · exact short_startTimed ..
        · split
          · trivial
          · show angle.natAbs ≤ 1000000
            omega

theorem short_ite {c : Prop} [Decidable c] {a b : Todo} (ha : a.Short) (hb : b.Short) :
    (if c then a else b).Short := by
  split
  · exact ha
  · exact hb

theorem short_motorStart (params : List UInt8) : (motorStart params).Short := by
  unfold motorStart
  split
  · trivial
  · exact short_ite trivial trivial

theorem short_motorStop (params : List UInt8) : (motorStop params).Short := by
  unfold motorStop
  split <;> trivial

theorem short_motorRunTimed (params : List UInt8) : (motorRunTimed params).Short := by
  unfold motorRunTimed
  split
  · trivial
  · exact short_ite trivial (short_startTimed ..)

theorem short_todo (request : Request) : request.todo.Short := by
  refine short_ite trivial (short_ite (short_motorStart _) (short_ite (short_motorStop _) ?_))
  refine short_ite (short_motorRunTimed _) (short_ite (short_operateWith ..) ?_)
  refine short_ite (short_ite trivial trivial) (short_ite (short_operateWith ..) ?_)
  refine short_ite (short_operateWith ..) (short_ite (short_operateWith ..) ?_)
  exact short_ite (short_motorRunForDegrees _) trivial

end

end Brickwright.Btsensor.Classic

/-!
## Degrees runs follow the position

The invariant says of every run by an angle that it is as far as its readings are: `Along`. One that
waits for a poll has had fewer of them than its time allows, so nothing overflows; and the line of
a run tells its port, so a reading is one of no other run.
-/

namespace Brickwright.Btsensor.Classic

open Backend Unwrapped
open List

variable {σ : Type*}

/-! ### A run and its readings -/

/-- A run by an angle is as far as its readings are. -/
structure Along (ps : List Int) (operation : Operation) (angle : Int) (run : Run) : Prop where
  degrees : run.degrees = true
  target : run.targetDelta = Int64.ofInt angle.natAbs
  direction : run.direction = Int64.ofInt (sense operation angle)
  begun : ps ≠ []
  few : ps.length ≤ 3001
  position : Unambiguous ps → ∃ q qs, ps = q :: qs ∧ run.lastPosition = Int32.ofInt q
  displacement : Steady ps → run.displacement = Int64.ofInt (travelled ps)

/-- It can be polled: it has had a poll for each 20 ms of its time, and none that ends it. -/
structure Waits (ps : List Int) (run : Run) : Prop where
  unambiguous : Unambiguous ps
  fewer : ps.length ≤ 3000
  polls : run.expiresMs.toNat + 20 * ps.length ≤ run.deadlineMs.toNat + 60000

section

variable {ps : List Int} {operation : Operation} {angle : Int} {run : Run}

theorem sense_cases (operation : Operation) (angle : Int) :
    sense operation angle = 1 ∨ sense operation angle = -1 :=
  (ite_eq_or_eq _ _ _).symm

theorem Along.natAbs_le (h : Along ps operation angle run) (hsteady : Steady ps) :
    (travelled ps).natAbs ≤ 6444614811648 := by
  have htravelled := natAbs_travelled_le hsteady
  have hfew := h.few
  omega

theorem Along.toInt_displacement (h : Along ps operation angle run) (hsteady : Steady ps) :
    run.displacement.toInt = travelled ps := by
  have hle := h.natAbs_le hsteady
  rw [h.displacement hsteady]
  exact Int64.toInt_ofInt_of_le (by omega) (by omega)

theorem Along.reached (h : Along ps operation angle run) (hsteady : Steady ps)
    (hangle : angle.natAbs ≤ 1000000) (hreached : run.Reached) :
    angle.natAbs ≤ sense operation angle * travelled ps := by
  have hle := h.natAbs_le hsteady
  have htarget : run.targetDelta.toInt = angle.natAbs := by
    rw [h.target]
    exact Int64.toInt_ofInt_of_le (by omega) (by omega)
  have hdirection : run.direction.toInt = sense operation angle := by
    rw [h.direction]
    rcases sense_cases operation angle with hsense | hsense <;> rw [hsense] <;> rfl
  have hproduct : (run.displacement * run.direction).toInt =
      sense operation angle * travelled ps := by
    rw [Int64.toInt_mul, h.toInt_displacement hsteady, hdirection, Int.mul_comm]
    rcases sense_cases operation angle with hsense | hsense
    · rw [hsense]
      exact Int.bmod_eq_of_le (by omega) (by omega)
    · rw [hsense]
      exact Int.bmod_eq_of_le (by omega) (by omega)
  rw [Run.Reached, Int64.le_iff_toInt_le, htarget, hproduct] at hreached
  exact hreached

/-! ### A poll -/

variable {p : Int} {rc : Int} {now : UInt64}

theorem measure_fields (run : Run) (rc : Int) (measured : Int32) (now : UInt64) :
    let moved := (run.measure rc measured now).2
    moved.asked = run.asked ∧ moved.generation = run.generation ∧
      moved.expiresMs = run.expiresMs ∧ moved.deadlineMs = run.deadlineMs ∧
        moved.degrees = run.degrees := by
  unfold Run.measure
  dsimp only
  repeat' split
  all_goals exact ⟨rfl, rfl, rfl, rfl, rfl⟩

theorem measure_of_error (measured : Int32) (herror : ¬ (rc = 0 ∨ rc = -EAGAIN)) :
    run.measure rc measured now = (rc, run) := by
  unfold Run.measure
  rw [if_neg (fun h => herror (.inr h)), if_neg (fun h => herror (.inl h.1))]

/-- **One poll.** The run follows the position, or has seen a step without a direction. -/
theorem Along.measure (h : Along ps operation angle run) (hwaits : Waits ps run)
    (hrc : rc = 0 ∨ rc = -EAGAIN) :
    Along (p :: ps) operation angle (run.measure rc (Int32.ofInt p) now).2 ∧
      ((run.measure rc (Int32.ofInt p) now).1 = 0 ∧ Unambiguous (p :: ps) ∨
        (run.measure rc (Int32.ofInt p) now).1 = -EOVERFLOW ∧ ¬ Unambiguous (p :: ps)) := by
  obtain ⟨q, qs, rfl, hlast⟩ := h.position hwaits.unambiguous
  have hfewer := hwaits.fewer
  have hfew : (p :: q :: qs).length ≤ 3001 := by
    rw [length_cons]
    omega
  have hchain : Unambiguous (p :: q :: qs) ↔ ¬ HalfStep p q :=
    isChain_cons_cons.trans (and_iff_left hwaits.unambiguous)
  have hsteady : Steady (p :: q :: qs) → Near p q ∧ Steady (q :: qs) := isChain_cons_cons.mp
  have hzero : (if rc = -EAGAIN then 0 else rc) = 0 := by
    rcases hrc with rfl | rfl
    · rfl
    · exact if_pos rfl
  unfold Run.measure
  dsimp only
  rw [hzero, hlast]
  split
  next hmoved =>
    split
    next hhalf =>
      have hstep := sub_eq_half_iff.mp hhalf
      have hnot : ¬ Unambiguous (p :: q :: qs) := fun hchain' => hchain.mp hchain' hstep
      refine ⟨⟨h.degrees, h.target, h.direction, cons_ne_nil _ _, hfew, fun hno => ?_,
        fun hno => ?_⟩, .inr ⟨rfl, hnot⟩⟩
      · exact absurd hno hnot
      · exact absurd hno.unambiguous hnot
    next hdelta =>
      have hstep : ¬ HalfStep p q := fun hhalf => hdelta (sub_eq_half_iff.mpr hhalf)
      refine ⟨⟨h.degrees, h.target, h.direction, cons_ne_nil _ _, hfew,
        fun _ => ⟨p, _, rfl, rfl⟩, fun hboth => ?_⟩, .inl ⟨rfl, hchain.mpr hstep⟩⟩
      obtain ⟨hnear, hbefore⟩ := hsteady hboth
      show run.displacement + _ = _
      rw [h.displacement hbefore, toInt64_sub hnear, travelled_cons_cons, Int64.ofInt_add]
  next hsame =>
    have heq : Int32.ofInt p = Int32.ofInt q := by
      by_contra hne
      exact hsame ⟨rfl, hne⟩
    have hstep : ¬ HalfStep p q := by
      intro hhalf
      have hdelta := sub_eq_half_iff.mpr hhalf
      rw [heq, UInt32.sub_self] at hdelta
      exact absurd hdelta (by decide)
    refine ⟨⟨h.degrees, h.target, h.direction, cons_ne_nil _ _, hfew,
      fun _ => ⟨p, _, rfl, by rw [hlast, heq]⟩, fun hboth => ?_⟩, .inl ⟨rfl, hchain.mpr hstep⟩⟩
    obtain ⟨hnear, hbefore⟩ := hsteady hboth
    rw [h.displacement hbefore, travelled_cons_cons, eq_of_ofInt_eq hnear heq, Int.sub_self,
      Int.add_zero]

theorem Waits.goesOn (h : Waits ps run) (hunambiguous : Unambiguous (p :: ps)) {moved : Run}
    (hexpires : moved.expiresMs = run.expiresMs) {a : Answers} (hdue : ¬ run.deadlineMs > a.now)
    (hfits : a.now ≤ a.again ∧ a.again ≤ maxClock - encoderPollMs)
    (hgoes : moved.GoesOn rc a.again) :
    Waits (p :: ps) { moved with deadlineMs := a.again + encoderPollMs } := by
  have hpolls := h.polls
  have hlt : a.again.toNat < moved.expiresMs.toNat := UInt64.lt_iff_toNat_lt.mp hgoes.2.2.1
  have hdeadline : run.deadlineMs.toNat ≤ a.now.toNat := by
    have hle := UInt64.not_lt.mp hdue
    exact UInt64.le_iff_toNat_le.mp hle
  have hnow : a.now.toNat ≤ a.again.toNat := UInt64.le_iff_toNat_le.mp hfits.1
  have hclock : a.again.toNat ≤ 18446744073709551595 := UInt64.le_iff_toNat_le.mp hfits.2
  have hnext : (a.again + encoderPollMs).toNat = a.again.toNat + 20 := by
    have hpoll : encoderPollMs.toNat = 20 := rfl
    rw [UInt64.toNat_add, hpoll, Nat.mod_eq_of_lt (by omega)]
  rw [hexpires] at hlt
  have hlength : (p :: ps).length = ps.length + 1 := length_cons
  refine ⟨hunambiguous, by omega, ?_⟩
  show moved.expiresMs.toNat + 20 * _ ≤ (a.again + encoderPollMs).toNat + 60000
  rw [hnext, hexpires]
  omega

theorem waits_startAt (angle : Int) (generation : UInt32) (p : Int) (run : Run)
    (hclock : now ≤ maxClock - encoderPollMs) :
    Waits [p] (run.startAt (.degrees angle) generation now) := by
  have hnow : now.toNat ≤ 18446744073709551595 := UInt64.le_iff_toNat_le.mp hclock
  have hfirst : (now + encoderPollMs).toNat = now.toNat + 20 := by
    have hpoll : encoderPollMs.toNat = 20 := rfl
    rw [UInt64.toNat_add, hpoll, Nat.mod_eq_of_lt (by omega)]
  have hlast : (now + (60000 : UInt64)).toNat ≤ now.toNat + 60000 := by
    rw [UInt64.toNat_add]
    exact Nat.mod_le _ _
  refine ⟨isChain_singleton _, (by decide : 1 ≤ 3000), ?_⟩
  show (now + (60000 : UInt64)).toNat + 20 * 1 ≤ (now + encoderPollMs).toNat + 60000
  omega

end

/-! ### The invariant -/

/-- A run has what its goal says, and by an angle what its readings do. -/
def Matches (ps : List Int) (operation : Operation) (goal : Goal) (run : Run) : Prop :=
  match goal with
  | .timed _ => run.degrees = false
  | .degrees angle => Along ps operation angle run

/-- The run is that of its line on the port. -/
def Tracked (w : Watch) (port : Port) (run : Run) : Prop :=
  ∃ operation goal endState,
    w.todo run.asked.line = some (.start port operation goal endState) ∧
      Matches (w.readings run.asked.line) operation goal run

/-- What the line of a run is told: success if it has made its angle, and an overflow as one, unless
its end has `failed`. -/
def Settled (w : Watch) (failed : Prop) (line : Nat) (rc : Int) : Prop :=
  ∃ todo, w.todo line = some todo ∧ ∀ port operation angle endState,
    todo = .start port operation (.degrees angle) endState →
      w.readings line ≠ [] ∧
        (rc = 0 → Steady (w.readings line) →
          angle.natAbs ≤ sense operation angle * travelled (w.readings line)) ∧
        (¬ Unambiguous (w.readings line) → rc = -EOVERFLOW ∨ failed)

/-- What a line without a run is told: no success. -/
def Refused (w : Watch) (pending : Table) (line : Nat) (rc : Int) : Prop :=
  w.AsksDegrees line → rc ≠ 0 ∧ Unambiguous (w.readings line) ∧
    ∀ port run, pending port = some run → run.asked.line ≠ line

/-- Runs that are given up, with an error and before any overflow. -/
def GivenUp (w : Watch) (failed : Abort) : Prop :=
  failed.failed ≠ [] → failed.error < 0 ∧ ∀ r ∈ failed.failed,
    w.AsksDegrees r.2.asked.line → Unambiguous (w.readings r.2.asked.line)

def HostOk (w : Watch) (pending : Table) : Host → Prop
  | .starting asked port operation goal endState =>
    w.todo asked.line = some (.start port operation goal endState) ∧ w.readings asked.line = []
  | .arming port run goal => ∃ operation endState,
    w.todo run.asked.line = some (.start port operation goal endState) ∧
      Matches (w.readings run.asked.line) operation goal run ∧
        ∀ angle, goal = .degrees angle → ∃ p, w.readings run.asked.line = [p]
  | .ending _ run _ rc => Refused w pending run.asked.line rc
  | .replying asked rc => Refused w pending asked.line rc
  | .snapshot asked | .checking asked _ _ | .operating asked _ _ | .canceling asked _
  | .stopping asked _ | .rearming asked _ => ¬ w.AsksDegrees asked.line
  | .resolving asked _ failed | .aborting asked failed =>
    ¬ w.AsksDegrees asked.line ∧ GivenUp w failed ∧ (failed.failed ≠ [] → pending = .empty)
  | .idle | .sounding _ | .disconnecting _ | .releasing _ => True

def TimerOk (w : Watch) : Timer → Prop
  | .ending _ completed rc => Settled w False completed.asked.line rc
  | .finishing _ completed rc | .replying _ completed rc =>
    Settled w (w.EndFailed completed.asked.line rc) completed.asked.line rc
  | .aborting failed => GivenUp w failed
  | .idle | .visiting _ => True

/-- The firing is at the run of the port. -/
def Timer.At (timer : Timer) (port : Port) : Prop := ∃ run, timer.completing = some (port, run)

structure Watched (w : Watch) (pending : Table) (host : Host) (timer : Timer) (received : Nat) :
    Prop where
  todo : ∀ line todo, w.todo line = some todo → line < received ∧ todo.Short
  unread : ∀ line, received ≤ line → w.readings line = []
  tracked : ∀ port run, pending port = some run → Tracked w port run
  waits : ∀ port run, pending port = some run → run.degrees = true → ¬ timer.At port →
    Waits (w.readings run.asked.line) run
  same : ∀ port completed run, timer.completing = some (port, completed) →
    pending port = some run → run.generation = completed.generation
  host : HostOk w pending host
  timer : TimerOk w timer

/-! ### What is written down -/

namespace Watch

def ask (w : Watch) (line : Nat) (todo : Todo) : Watch :=
  { w with todo := Function.update w.todo line (some todo) }

/-- The run of the line takes a position. -/
def read (w : Watch) (line : Nat) (p : Int) : Watch :=
  { w with readings := Function.update w.readings line (p :: w.readings line) }

variable {env : IoCall → σ → IoResult × σ} {w : Watch} {s : System σ} {event : Event} {p : Int}
  {line : Nat}

variable {todo : Todo}

theorem after_eq_ask (hasks : s.asks event = some todo)
    (hreads : s.reads event = none) (hends : s.ends env event = none) :
    w.after env s event p = w.ask s.received todo := by
  unfold after
  rw [hasks, hreads, hends]
  rfl

theorem after_eq_self (hasks : s.asks event = none) (hreads : s.reads event = none)
    (hends : s.ends env event = none) : w.after env s event p = w := by
  unfold after
  rw [hasks, hreads, hends]

theorem after_eq_read (hasks : s.asks event = none) (hreads : s.reads event = some line)
    (hends : s.ends env event = none) : w.after env s event p = w.read line p := by
  unfold after
  rw [hasks, hreads, hends]
  rfl

@[simp] theorem readings_read_self : (w.read line p).readings line = p :: w.readings line :=
  Function.update_self ..

theorem readings_read_of_ne {l : Nat} (hne : l ≠ line) :
    (w.read line p).readings l = w.readings l :=
  Function.update_of_ne hne ..

@[simp] theorem todo_ask_self : (w.ask line todo).todo line = some todo :=
  Function.update_self ..

theorem todo_ask_of_ne {l : Nat} (hne : l ≠ line) :
    (w.ask line todo).todo l = w.todo l :=
  Function.update_of_ne hne ..

theorem AsksDegrees.of_ask {l : Nat} (h : (w.ask line todo).AsksDegrees l)
    (hne : l ≠ line) : w.AsksDegrees l := by
  obtain ⟨port, operation, angle, endState, htodo⟩ := h
  rw [todo_ask_of_ne hne] at htodo
  exact ⟨port, operation, angle, endState, htodo⟩

end Watch

section

variable {w : Watch} {pending pending' : Table} {host host' : Host} {timer timer' : Timer}
  {received line : Nat} {p : Int} {port : Port} {run : Run}

theorem GivenUp.nil (w : Watch) (error : Int) : GivenUp w ⟨[], error, none⟩ :=
  fun hne => absurd rfl hne

theorem GivenUp.of_subset {failed failed' : Abort} (h : GivenUp w failed)
    (herror : failed'.error = failed.error) (hsub : ∀ r ∈ failed'.failed, r ∈ failed.failed) :
    GivenUp w failed' := by
  intro hne
  obtain ⟨r, hr⟩ := exists_mem_of_ne_nil _ hne
  obtain ⟨hneg, hall⟩ := h (ne_nil_of_mem (hsub r hr))
  exact ⟨herror ▸ hneg, fun r hr => hall r (hsub r hr)⟩

theorem GivenUp.read {failed : Abort} (h : GivenUp w failed) (hfirst : w.readings line = []) :
    GivenUp (w.read line p) failed := by
  intro hne
  obtain ⟨hneg, hall⟩ := h hne
  refine ⟨hneg, fun r hr hasks => ?_⟩
  by_cases hline : r.2.asked.line = line
  · rw [hline, Watch.readings_read_self, hfirst]
    exact isChain_singleton _
  · rw [Watch.readings_read_of_ne hline]
    exact hall r hr hasks

theorem Tracked.begun (h : Tracked w port run) (hdegrees : run.degrees = true) :
    w.readings run.asked.line ≠ [] := by
  obtain ⟨operation, goal, endState, -, hmatches⟩ := h
  cases goal with
  | timed timeMs =>
    rw [hmatches] at hdegrees
    cases hdegrees
  | degrees angle => exact Along.begun hmatches

theorem Tracked.read_of_ne (h : Tracked w port run) (hne : run.asked.line ≠ line) :
    Tracked (w.read line p) port run := by
  obtain ⟨operation, goal, endState, htodo, hmatches⟩ := h
  refine ⟨operation, goal, endState, htodo, ?_⟩
  rw [Watch.readings_read_of_ne hne]
  exact hmatches

theorem Tracked.read (h : Tracked w port run) (hfirst : w.readings line = []) :
    Tracked (w.read line p) port run := by
  by_cases hline : run.asked.line = line
  · obtain ⟨operation, goal, endState, htodo, hmatches⟩ := h
    refine ⟨operation, goal, endState, htodo, ?_⟩
    cases goal with
    | timed timeMs => exact hmatches
    | degrees angle => exact absurd (hline ▸ hfirst) (Along.begun hmatches)
  · exact h.read_of_ne hline

theorem Settled.read {failed : Prop} {rc : Int} {l : Nat} (h : Settled w failed l rc)
    (hfirst : w.readings line = []) : Settled (w.read line p) failed l rc := by
  obtain ⟨todo, htodo, hall⟩ := h
  refine ⟨todo, htodo, fun port operation angle endState heq => ?_⟩
  have hdegrees := hall port operation angle endState heq
  have hne : l ≠ line := by
    rintro rfl
    exact hdegrees.1 hfirst
  rw [Watch.readings_read_of_ne hne]
  exact hdegrees

theorem TimerOk.read (h : TimerOk w timer) (hfirst : w.readings line = []) :
    TimerOk (w.read line p) timer := by
  cases timer with
  | idle => trivial
  | visiting n => trivial
  | ending port completed rc => exact Settled.read h hfirst
  | finishing port completed rc => exact Settled.read h hfirst
  | replying port completed rc => exact Settled.read h hfirst
  | aborting failed => exact GivenUp.read h hfirst

theorem Refused.of_subset {rc : Int} (h : Refused w pending line rc)
    (hsub : ∀ port run, pending' port = some run → pending port = some run) :
    Refused w pending' line rc := by
  intro hasks
  obtain ⟨hrc, hunambiguous, hfresh⟩ := h hasks
  exact ⟨hrc, hunambiguous, fun port run hrun => hfresh port run (hsub port run hrun)⟩

theorem refused_of_not_asks {rc : Int} (h : ¬ w.AsksDegrees line) : Refused w pending line rc :=
  fun hasks => absurd hasks h

theorem Tracked.line_ne (h : Tracked w port run) (hfirst : w.readings line = [])
    (hasks : w.AsksDegrees line) : run.asked.line ≠ line := by
  rintro rfl
  obtain ⟨operation, goal, endState, htodo, hmatches⟩ := h
  obtain ⟨port', operation', angle, endState', htodo'⟩ := hasks
  rw [htodo] at htodo'
  cases htodo'
  exact Along.begun hmatches hfirst

theorem Tracked.line_ne_of_ne {port' : Port} {run' : Run} (h : Tracked w port run)
    (h' : Tracked w port' run') (hne : port ≠ port') : run.asked.line ≠ run'.asked.line := by
  intro heq
  obtain ⟨operation, goal, endState, htodo, -⟩ := h
  obtain ⟨operation', goal', endState', htodo', -⟩ := h'
  rw [heq, htodo'] at htodo
  cases htodo
  exact hne rfl

theorem HostOk.of_subset (h : HostOk w pending host)
    (hsub : ∀ port run, pending' port = some run → pending port = some run) :
    HostOk w pending' host := by
  have hempty (hpending : pending = .empty) : pending' = .empty := by
    funext port
    cases hrun : pending' port with
    | none => rfl
    | some run =>
      have hbefore := hsub port run hrun
      rw [hpending] at hbefore
      cases hbefore
  cases host with
  | resolving asked canceled failed => exact ⟨h.1, h.2.1, fun hne => hempty (h.2.2 hne)⟩
  | aborting asked failed => exact ⟨h.1, h.2.1, fun hne => hempty (h.2.2 hne)⟩
  | ending port run endState rc => exact Refused.of_subset h hsub
  | replying asked rc => exact Refused.of_subset h hsub
  | _ => exact h

variable {todo : Todo}

theorem Tracked.ask (h : Tracked w port run) (hnew : w.todo line = none) :
    Tracked (w.ask line todo) port run := by
  obtain ⟨operation, goal, endState, htodo, hmatches⟩ := h
  refine ⟨operation, goal, endState, ?_, hmatches⟩
  rw [Watch.todo_ask_of_ne, htodo]
  rintro rfl
  rw [hnew] at htodo
  cases htodo

theorem Settled.ask {failed : Prop} {rc : Int} {l : Nat} (h : Settled w failed l rc)
    (hnew : w.todo line = none) : Settled (w.ask line todo) failed l rc := by
  obtain ⟨before, htodo, hall⟩ := h
  refine ⟨before, ?_, hall⟩
  rw [Watch.todo_ask_of_ne, htodo]
  rintro rfl
  rw [hnew] at htodo
  cases htodo

theorem GivenUp.ask {failed : Abort} (h : GivenUp w failed)
    (hunread : w.readings line = []) : GivenUp (w.ask line todo) failed := by
  intro hne
  obtain ⟨hneg, hall⟩ := h hne
  refine ⟨hneg, fun r hr hasks => ?_⟩
  by_cases hline : r.2.asked.line = line
  · show Unambiguous (w.readings r.2.asked.line)
    rw [hline, hunread]
    exact isChain_nil
  · exact hall r hr (hasks.of_ask hline)

theorem TimerOk.ask (h : TimerOk w timer) (hnew : w.todo line = none)
    (hunread : w.readings line = []) : TimerOk (w.ask line todo) timer := by
  cases timer with
  | idle => trivial
  | visiting n => trivial
  | ending port completed rc => exact Settled.ask h hnew
  | finishing port completed rc => exact Settled.ask h hnew
  | replying port completed rc => exact Settled.ask h hnew
  | aborting failed => exact GivenUp.ask h hunread

theorem hostOk_begin {asked : Asked} (htodo : w.todo asked.line = some todo)
    (hunread : w.readings asked.line = []) : HostOk w pending (System.begin asked todo) := by
  have hasks (hangle : w.AsksDegrees asked.line) :
      ∃ port operation angle endState, todo = .start port operation (.degrees angle) endState := by
    obtain ⟨port, operation, angle, endState, hangle⟩ := hangle
    rw [htodo] at hangle
    exact ⟨port, operation, angle, endState, Option.some.inj hangle⟩
  cases todo with
  | reply rc => exact fun hangle => by obtain ⟨_, _, _, _, ⟨⟩⟩ := hasks hangle
  | currentState => exact fun hangle => by obtain ⟨_, _, _, _, ⟨⟩⟩ := hasks hangle
  | operate operation cancel => exact fun hangle => by obtain ⟨_, _, _, _, ⟨⟩⟩ := hasks hangle
  | operateIdle port operation => exact fun hangle => by obtain ⟨_, _, _, _, ⟨⟩⟩ := hasks hangle
  | start port operation goal endState => exact ⟨htodo, hunread⟩

namespace Watched

theorem of_host (h : Watched w pending host timer received) (hhost : HostOk w pending host') :
    Watched w pending host' timer received :=
  { h with host := hhost }

theorem of_subset (h : Watched w pending host timer received)
    (hsub : ∀ port run, pending' port = some run → pending port = some run)
    (hhost : HostOk w pending' host') : Watched w pending' host' timer received where
  todo := h.todo
  unread := h.unread
  tracked port run hrun := h.tracked port run (hsub port run hrun)
  waits port run hrun := h.waits port run (hsub port run hrun)
  same port completed run hcompleting hrun := h.same port completed run hcompleting
    (hsub port run hrun)
  host := hhost
  timer := h.timer

theorem of_timer (h : Watched w pending host timer received) (htimer : timer.completing = none)
    (htimer' : timer'.completing = none) (hok : TimerOk w timer') :
    Watched w pending host timer' received where
  todo := h.todo
  unread := h.unread
  tracked := h.tracked
  waits port run hrun hdegrees _ := h.waits port run hrun hdegrees fun ⟨_, hat⟩ => by
    rw [htimer] at hat
    cases hat
  same _ _ _ hcompleting := by
    rw [htimer'] at hcompleting
    cases hcompleting
  host := h.host
  timer := hok

theorem ask {todo : Todo} (h : Watched w pending .idle timer received) (hshort : todo.Short)
    (id : Option (List UInt8)) : Watched (w.ask received todo) pending
      (System.begin ⟨received, id⟩ todo) timer (received + 1) := by
  have hnew : w.todo received = none := by
    cases htodo : w.todo received with
    | none => rfl
    | some before =>
      have hlt := (h.todo _ _ htodo).1
      omega
  have hunread := h.unread received (Nat.le_refl _)
  refine ⟨fun line before hbefore => ?_, fun line hline => h.unread line (by omega),
    fun port run hrun => (h.tracked port run hrun).ask hnew, h.waits, h.same,
    hostOk_begin Watch.todo_ask_self hunread, h.timer.ask hnew hunread⟩
  by_cases hline : line = received
  · subst hline
    rw [Watch.todo_ask_self] at hbefore
    cases hbefore
    exact ⟨Nat.lt_succ_self _, hshort⟩
  · rw [Watch.todo_ask_of_ne hline] at hbefore
    obtain ⟨hlt, hbefore⟩ := h.todo line before hbefore
    exact ⟨Nat.lt_succ_of_lt hlt, hbefore⟩

theorem first (h : Watched w pending host timer received) (hfirst : w.readings line = [])
    (hline : line < received) : Watched (w.read line p) pending .idle timer received where
  todo := h.todo
  unread l hl := by
    rw [Watch.readings_read_of_ne (by omega)]
    exact h.unread l hl
  tracked port run hrun := (h.tracked port run hrun).read hfirst
  waits port run hrun hdegrees hat := by
    have hbegun := (h.tracked port run hrun).begun hdegrees
    have hne : run.asked.line ≠ line := by
      intro heq
      exact hbegun (heq ▸ hfirst)
    rw [Watch.readings_read_of_ne hne]
    exact h.waits port run hrun hdegrees hat
  same := h.same
  host := trivial
  timer := h.timer.read hfirst

end Watched

end

end Brickwright.Btsensor.Classic
