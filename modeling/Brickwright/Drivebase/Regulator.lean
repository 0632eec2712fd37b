import Mathlib.Data.List.Induction
import Brickwright.Drivebase.Setters
import Brickwright.Machine.Basic

/-!
# The position controller on machine words

`db_pid_update` once more, in 32 and 64 bits that come round as those of the target do: the
differences of the inputs and the sums of the integrator may leave their types. Where nothing does,
an update is the one on unbounded integers (`updateWord_eq`).

Two things are asked of it over a run: whether a move that is reported done is done
(`done_is_settled`), and whether the output and the integrator keep to their bounds (`kept_iff`).
-/

namespace Brickwright.Drivebase.Pid

open List

/-- `abs32`; the smallest number stays as it is. -/
def abs32Word (v : Int) : Int := if v < 0 then toInt32 (-v) else v

def posErr (inp : PidInput) : Int :=
  clampI32 (toInt64 (inp.refXMdeg - inp.actXMdeg)) int32Min int32Max

def speedErr (inp : PidInput) : Int := toInt32 (inp.refVMdegps - inp.actVMdegps)

def pTerm (inp : PidInput) : Int := (inp.gains.kpPos * posErr inp).tdiv 1000

def dTerm (st : Pid) (inp : PidInput) : Int :=
  if inp.dtMs > 0 then
    (inp.gains.kdPos * toInt32 (posErr inp - st.prevPosErrMdeg)).tdiv inp.dtMs
  else 0

def kpv (inp : PidInput) : Int := (inp.gains.kpSpeed * speedErr inp).tdiv 1000

/-- The output before it is clamped: a sum of products of two 32-bit numbers, which fits. -/
def outUnsat (st : Pid) (inp : PidInput) : Int :=
  pTerm inp + dTerm st inp + kpv inp + st.iAcc.tdiv 256 + inp.dutyFf

def satHigh (st : Pid) (inp : PidInput) : Bool := decide (outUnsat st inp > inp.gains.outMax)

def satLow (st : Pid) (inp : PidInput) : Bool := decide (outUnsat st inp < inp.gains.outMin)

/-- `should_freeze_integrator`. -/
def freezes (st : Pid) (inp : PidInput) : Bool :=
  st.paused || decide (abs32Word (posErr inp) ≤ inp.gains.deadbandMdeg) ||
    (satHigh st inp && decide (posErr inp > 0)) || (satLow st inp && decide (posErr inp < 0))

/-- What the position adds to the integrator. -/
def posStep (inp : PidInput) : Int :=
  (toInt64 (inp.gains.kiPos * posErr inp * inp.dtMs)).tdiv 1000

def speedStep (inp : PidInput) : Int :=
  (toInt64 (inp.gains.kiSpeed * speedErr inp * inp.dtMs)).tdiv 1000

def iClip (g : Gains) : Int := g.outMax * 256

def capped (g : Gains) (iAcc : Int) : Int :=
  let iAcc := if iAcc > iClip g then iClip g else iAcc
  if iAcc < -iClip g then -iClip g else iAcc

def integrateWord (st : Pid) (inp : PidInput) : Int :=
  capped inp.gains (toInt64 (toInt64 (st.iAcc + posStep inp) + speedStep inp))

/-- The duty, and the controller with its integrator and error brought up to date. -/
def controlWord (st : Pid) (inp : PidInput) : Pid × Int :=
  ({ st with
      iAcc := if freezes st inp then st.iAcc else integrateWord st inp
      prevPosErrMdeg := posErr inp
      outputSaturatedHigh := satHigh st inp
      outputSaturatedLow := satLow st inp },
    clampI32 (outUnsat st inp) inp.gains.outMin inp.gains.outMax)

/-- The errors are small, as `db_pid_update` sees them. -/
def Within (inp : PidInput) : Prop :=
  inp.trajectoryDone = true ∧ abs32Word (posErr inp) ≤ inp.completion.posToleranceMdeg ∧
    abs32Word (speedErr inp) ≤ inp.completion.speedToleranceMdegps

instance (inp : PidInput) : Decidable (Within inp) := inferInstanceAs (Decidable (_ ∧ _))

def bookkeepWord (st : Pid) (inp : PidInput) : Pid :=
  if Within inp then
    let streak := (st.doneStreakMs + inp.dtMs) % 4294967296
    { st with
      doneStreakMs := streak
      done := st.done || decide (streak ≥ inp.completion.doneWindowMs) }
  else { st with doneStreakMs := 0, done := false }

/-- `db_pid_update`. -/
def updateWord (st : Pid) (inp : PidInput) : Pid × PidOutput :=
  if st.latchedPassiveDone then (st, ⟨0, st.latchedActuation, true⟩)
  else
    let (st, duty) := st.controlWord inp
    (st.bookkeepWord inp).arbitrate inp duty

/-! ## The inputs of an axis -/

/-- An input of its types, with the settings of an axis. -/
structure Tick (cfg : Settings) (axis : Axis) where
  inp : PidInput
  gains : inp.gains = cfg.gains axis
  completion : inp.completion = cfg.completionAxis axis
  refX : -9223372036854775808 ≤ inp.refXMdeg ∧ inp.refXMdeg ≤ 9223372036854775807
  actX : -9223372036854775808 ≤ inp.actXMdeg ∧ inp.actXMdeg ≤ 9223372036854775807
  refV : int32Min ≤ inp.refVMdegps ∧ inp.refVMdegps ≤ int32Max
  actV : int32Min ≤ inp.actVMdegps ∧ inp.actVMdegps ≤ int32Max
  dtMs : inp.dtMs < 4294967296
  dutyFf : int32Min ≤ inp.dutyFf ∧ inp.dutyFf ≤ int32Max

def machine (cfg : Settings) (axis : Axis) : Machine Pid (Tick cfg axis) PidOutput where
  step st t := st.updateWord t.inp

/-! ## Words -/

def Wide (x : Int) : Prop := -9223372036854775808 ≤ x ∧ x ≤ 9223372036854775807

instance (x : Int) : Decidable (Wide x) := inferInstanceAs (Decidable (_ ∧ _))

theorem toInt64_of_wide {x : Int} (h : Wide x) : toInt64 x = x := toInt64_of_fits h

theorem posErr_range (inp : PidInput) : int32Min ≤ posErr inp ∧ posErr inp ≤ int32Max := by
  unfold posErr clampI32 int32Min int32Max
  split
  · omega
  · split <;> omega

theorem abs32Word_of_ne {x : Int} (h : int32Min < x ∧ x ≤ int32Max) : abs32Word x = x.natAbs := by
  unfold abs32Word
  unfold int32Min int32Max at h
  split
  · rw [toInt32_of_fits (by unfold int32Min int32Max; omega)]
    omega
  · omega

/-- Nothing an update computes leaves its type. -/
structure InType (st : Pid) (inp : PidInput) : Prop where
  pos : -2147483648 < inp.refXMdeg - inp.actXMdeg ∧
    inp.refXMdeg - inp.actXMdeg < 9223372036854775808
  speed : -2147483648 < inp.refVMdegps - inp.actVMdegps ∧
    inp.refVMdegps - inp.actVMdegps < 2147483648
  difference : int32Min ≤ posErr inp - st.prevPosErrMdeg ∧ posErr inp - st.prevPosErrMdeg ≤ int32Max
  products : Wide (inp.gains.kiPos * posErr inp * inp.dtMs) ∧
    Wide (inp.gains.kiSpeed * speedErr inp * inp.dtMs)
  sums : Wide (st.iAcc + posStep inp) ∧ Wide (st.iAcc + posStep inp + speedStep inp)

section

variable {st : Pid} {inp : PidInput}

theorem posErr_of_wide (h : -2147483648 < inp.refXMdeg - inp.actXMdeg ∧
    inp.refXMdeg - inp.actXMdeg < 9223372036854775808) :
    posErr inp = clampI32 (inp.refXMdeg - inp.actXMdeg) int32Min int32Max ∧
      abs32Word (posErr inp) = (posErr inp).natAbs := by
  have hwide : toInt64 (inp.refXMdeg - inp.actXMdeg) = inp.refXMdeg - inp.actXMdeg :=
    toInt64_of_wide ⟨by omega, by omega⟩
  have heq : posErr inp = clampI32 (inp.refXMdeg - inp.actXMdeg) int32Min int32Max := by
    rw [posErr, hwide]
  refine ⟨heq, abs32Word_of_ne ⟨?_, (posErr_range inp).2⟩⟩
  rw [heq]
  unfold clampI32 int32Min int32Max
  split
  · omega
  · split <;> omega

theorem speedErr_of_fits (h : -2147483648 < inp.refVMdegps - inp.actVMdegps ∧
    inp.refVMdegps - inp.actVMdegps < 2147483648) :
    speedErr inp = inp.refVMdegps - inp.actVMdegps ∧
      abs32Word (speedErr inp) = (speedErr inp).natAbs := by
  have heq : speedErr inp = inp.refVMdegps - inp.actVMdegps :=
    toInt32_of_fits (by unfold int32Min int32Max; omega)
  refine ⟨heq, abs32Word_of_ne ?_⟩
  unfold int32Min int32Max
  omega

theorem abs32_eq_natAbs (x : Int) : abs32 x = x.natAbs := by
  unfold abs32
  split <;> omega

/-- **An update in which nothing leaves its type** is the one on unbounded integers. -/
theorem updateWord_eq (h : InType st inp) : st.updateWord inp = st.update inp := by
  obtain ⟨hpos, hposAbs⟩ := posErr_of_wide h.pos
  obtain ⟨hspeed, hspeedAbs⟩ := speedErr_of_fits h.speed
  have hout : outUnsat st inp = (inp.gains.kpPos * posErr inp).tdiv 1000 +
      (if inp.dtMs > 0 then (inp.gains.kdPos * (posErr inp - st.prevPosErrMdeg)).tdiv inp.dtMs
        else 0) + (inp.gains.kpSpeed * speedErr inp).tdiv 1000 + st.iAcc.tdiv 256 + inp.dutyFf := by
    rw [outUnsat, pTerm, dTerm, kpv, toInt32_of_fits h.difference]
  have hfreezes : freezes st inp =
      st.shouldFreezeIntegrator inp.gains (posErr inp) (satHigh st inp) (satLow st inp) := by
    rw [freezes, shouldFreezeIntegrator, hposAbs, abs32_eq_natAbs]
  have hintegrate : integrateWord st inp = st.integrate inp (posErr inp) (speedErr inp) := by
    rw [integrateWord, toInt64_of_wide h.sums.1, toInt64_of_wide h.sums.2, posStep, speedStep,
      toInt64_of_wide h.products.1, toInt64_of_wide h.products.2]
    rfl
  have hcontrol : st.controlWord inp = st.control inp (posErr inp) (speedErr inp) := by
    rw [controlWord, hfreezes, hintegrate]
    simp only [control, satHigh, satLow, hout]
  have hbookkeep : ∀ st' : Pid,
      st'.bookkeepWord inp = st'.bookkeep inp (posErr inp) (speedErr inp) := by
    intro st'
    simp only [bookkeepWord, bookkeep, Within, hposAbs, hspeedAbs, abs32_eq_natAbs]
  simp only [updateWord, update, hcontrol, hbookkeep]
  rw [hpos, hspeed]

end

/-- The controller on unbounded integers. -/
def unbounded (cfg : Settings) (axis : Axis) : Machine Pid (Tick cfg axis) PidOutput where
  step st t := st.update t.inp

/-- **A run in which nothing leaves its type** is the one on unbounded integers. -/
theorem run_unbounded {cfg : Settings} {axis : Axis} {st : Pid} {ticks : List (Tick cfg axis)}
    (h : (unbounded cfg axis).Throughout (fun st t => InType st t.inp) st ticks) :
    (machine cfg axis).run st ticks = (unbounded cfg axis).run st ticks ∧
      (machine cfg axis).trace st ticks = (unbounded cfg axis).trace st ticks := by
  induction ticks generalizing st with
  | nil => exact ⟨rfl, rfl⟩
  | cons t rest ih =>
    have hstep : (machine cfg axis).step st t = (unbounded cfg axis).step st t := updateWord_eq h.1
    obtain ⟨hrun, htrace⟩ := ih h.2
    constructor
    · rw [Machine.run_cons, Machine.run_cons, hstep, hrun]
    · rw [Machine.trace_cons, Machine.trace_cons, hstep, htrace]

/-! ## A move that is done -/

variable {cfg : Settings} {axis : Axis} {st : Pid} {inp : PidInput} {t : Tick cfg axis}
  {ticks : List (Tick cfg axis)}

/-- The trajectory has ended, and the errors are small. -/
def Settled (inp : PidInput) : Prop :=
  inp.trajectoryDone = true ∧
    ((inp.refXMdeg - inp.actXMdeg).natAbs : Int) ≤ inp.completion.posToleranceMdeg ∧
    ((inp.refVMdegps - inp.actVMdegps).natAbs : Int) ≤ inp.completion.speedToleranceMdegps

/-- The errors are what their words and the magnitudes of these say, when the trajectory has ended;
but for a position far behind, which is seen as the largest number. -/
def Exact (inp : PidInput) : Prop :=
  inp.trajectoryDone = true →
    (-2147483648 < inp.refXMdeg - inp.actXMdeg ∧
      inp.refXMdeg - inp.actXMdeg < 9223372036854775808) ∧
    -2147483648 < inp.refVMdegps - inp.actVMdegps ∧ inp.refVMdegps - inp.actVMdegps < 2147483648

/-- The last updates have been settled for the window. -/
def Completed (ticks : List (Tick cfg axis)) : Prop :=
  ∃ l suffix, ticks = l ++ suffix ∧ suffix ≠ [] ∧ (∀ t ∈ suffix, Settled t.inp) ∧
    (cfg.completionAxis axis).doneWindowMs ≤ (suffix.map fun t => t.inp.dtMs).sum

theorem settled_of_within (hcfg : cfg.Accepted) (hexact : Exact t.inp) (hwithin : Within t.inp) :
    Settled t.inp := by
  obtain ⟨hdone, hpos, hspeed⟩ := hwithin
  obtain ⟨⟨hlow, hhigh⟩, hv⟩ := hexact hdone
  obtain ⟨-, htol⟩ := Settings.posTolerance_bounds hcfg axis
  rw [← t.completion] at htol
  obtain ⟨hposErr, hposAbs⟩ := posErr_of_wide ⟨hlow, hhigh⟩
  obtain ⟨hspeedErr, hspeedAbs⟩ := speedErr_of_fits hv
  refine ⟨hdone, ?_, ?_⟩
  · rw [hposAbs, hposErr] at hpos
    unfold clampI32 int32Min int32Max at hpos
    split at hpos
    · omega
    · split at hpos <;> omega
  · rw [hspeedAbs, hspeedErr] at hspeed
    exact hspeed

/-- What is not touched at the end of a move. -/
structure Keeps (st st' : Pid) : Prop where
  doneStreakMs : st'.doneStreakMs = st.doneStreakMs
  done : st'.done = st.done
  iAcc : st'.iAcc = st.iAcc

theorem keeps_smartHold (st : Pid) (inp : PidInput) : Keeps st (st.smartHold inp) := by
  simp only [smartHold]
  split <;> split <;> [split; skip; split; skip] <;> exact ⟨rfl, rfl, rfl⟩

/-- **What becomes of a move**: the duty goes on, or there is none. -/
theorem arbitrate_keeps (st : Pid) (inp : PidInput) (duty : Int) :
    Keeps st (st.arbitrate inp duty).1 ∧ (st.arbitrate inp duty).2.done = st.done ∧
      ((st.arbitrate inp duty).2.duty = duty ∨ (st.arbitrate inp duty).2.duty = 0) := by
  unfold arbitrate
  cases hdone : st.done with
  | false => exact ⟨⟨rfl, rfl, rfl⟩, rfl, .inl rfl⟩
  | true =>
    rw [if_pos rfl]
    split
    · exact ⟨⟨rfl, rfl, rfl⟩, rfl, .inr rfl⟩
    · split
      · exact ⟨⟨rfl, rfl, rfl⟩, rfl, .inr rfl⟩
      · split
        · have hkeeps := keeps_smartHold st inp
          simp only
          split
          · exact ⟨⟨hkeeps.doneStreakMs, hkeeps.done, hkeeps.iAcc⟩, rfl, .inr rfl⟩
          · exact ⟨hkeeps, rfl, .inl rfl⟩
        · exact ⟨⟨rfl, rfl, rfl⟩, rfl, .inl rfl⟩

theorem updateWord_of_live (hlive : st.latchedPassiveDone = false) (inp : PidInput) :
    st.updateWord inp =
      ((st.controlWord inp).1.bookkeepWord inp).arbitrate inp (st.controlWord inp).2 := by
  rw [updateWord, hlive]
  rfl

/-- The streak is that of the last updates. -/
def Streak (ticks : List (Tick cfg axis)) (doneStreakMs : Nat) (done : Bool) : Prop :=
  ∃ l suffix, ticks = l ++ suffix ∧ (∀ t ∈ suffix, Settled t.inp) ∧
    doneStreakMs ≤ (suffix.map fun t => t.inp.dtMs).sum ∧
    (done = true → suffix ≠ [] ∧
      (cfg.completionAxis axis).doneWindowMs ≤ (suffix.map fun t => t.inp.dtMs).sum)

/-- **One update** adds to the streak or ends it. -/
theorem Streak.bookkeepWord (h : Streak ticks st.doneStreakMs st.done) (hcfg : cfg.Accepted)
    (hexact : Exact t.inp) :
    Streak (ticks ++ [t]) (st.bookkeepWord t.inp).doneStreakMs (st.bookkeepWord t.inp).done := by
  unfold Pid.bookkeepWord
  split
  · next hwithin =>
    obtain ⟨l, suffix, rfl, hsettled, hstreak, hdone⟩ := h
    have hsum : ((suffix ++ [t]).map fun t => t.inp.dtMs).sum =
        (suffix.map fun t => t.inp.dtMs).sum + t.inp.dtMs := by simp
    have hmod : (st.doneStreakMs + t.inp.dtMs) % 4294967296 ≤ st.doneStreakMs + t.inp.dtMs :=
      Nat.mod_le _ _
    refine ⟨l, suffix ++ [t], append_assoc l suffix [t], ?_, ?_, ?_⟩
    · intro u hu
      rcases mem_append.mp hu with hu | hu
      · exact hsettled u hu
      · rw [mem_singleton.mp hu]
        exact settled_of_within hcfg hexact hwithin
    · rw [hsum]
      exact Nat.le_trans hmod (Nat.add_le_add_right hstreak _)
    · intro hnow
      refine ⟨by simp, ?_⟩
      rcases Bool.or_eq_true_iff.mp hnow with hbefore | hlong
      · have hwindow := (hdone hbefore).2
        omega
      · have hwindow := of_decide_eq_true hlong
        rw [t.completion] at hwindow
        omega
  · exact ⟨ticks ++ [t], [], (append_nil _).symm, by simp, Nat.le_refl _, nofun⟩

/-- **Every run** keeps the streak, as long as it has not latched. -/
theorem streak_run (hcfg : cfg.Accepted) (ticks : List (Tick cfg axis))
    (hexact : ∀ t ∈ ticks, Exact t.inp)
    (hlive : ((machine cfg axis).run reset ticks).latchedPassiveDone = false) :
    Streak ticks ((machine cfg axis).run reset ticks).doneStreakMs
      ((machine cfg axis).run reset ticks).done := by
  induction ticks using List.reverseRecOn with
  | nil => exact ⟨[], [], rfl, by simp, Nat.le_refl _, nofun⟩
  | append_singleton ticks t ih =>
    rw [Machine.run_concat] at hlive ⊢
    have hbefore : ((machine cfg axis).run reset ticks).latchedPassiveDone = false := by
      by_contra hlatched
      rw [Bool.not_eq_false] at hlatched
      have hstep : (machine cfg axis).step ((machine cfg axis).run reset ticks) t = _ :=
        if_pos hlatched
      rw [hstep, hlatched] at hlive
      exact absurd hlive (by decide)
    have hstreak := ih (fun u hu => hexact u (mem_append_left _ hu)) hbefore
    have hstep : (machine cfg axis).step ((machine cfg axis).run reset ticks) t = _ :=
      updateWord_of_live hbefore t.inp
    obtain ⟨hkeeps, -⟩ := arbitrate_keeps
      ((((machine cfg axis).run reset ticks).controlWord t.inp).1.bookkeepWord t.inp) t.inp
      (((machine cfg axis).run reset ticks).controlWord t.inp).2
    rw [hstep, hkeeps.doneStreakMs, hkeeps.done]
    exact Streak.bookkeepWord hstreak hcfg (hexact t (by simp))

/-! ## A controller that is off -/

/-- What is called on a controller that is off. -/
inductive Call where
  | update (inp : PidInput)
  /-- `db_pid_pause(st, true)`. -/
  | pause

def calls : Machine Pid Call (Option PidOutput) where
  step st
    | .update inp => ((st.updateWord inp).1, some (st.updateWord inp).2)
    | .pause => (st.pause true, none)

/-- **It stays off**, with the same actuation. -/
theorem off_run (hlatched : st.latchedPassiveDone = true) (cs : List Call) :
    ∀ e ∈ calls.trace st cs, ∀ out ∈ e.2, out = ⟨0, st.latchedActuation, true⟩ := by
  induction cs generalizing st with
  | nil =>
    intro e he
    cases he
  | cons c cs ih =>
    intro e he out hout
    rw [Machine.trace_cons] at he
    cases c with
    | update inp =>
      have hstep : st.updateWord inp = (st, ⟨0, st.latchedActuation, true⟩) := if_pos hlatched
      simp only [calls, hstep] at he
      rcases mem_cons.mp he with rfl | he
      · exact (Option.some.inj hout).symm
      · exact ih hlatched e he out hout
    | pause =>
      rcases mem_cons.mp he with rfl | he
      · cases hout
      · exact @ih (st.pause true) hlatched e he out hout

/-- A controller that has latched coasts or brakes. -/
def Resting (st : Pid) : Prop :=
  st.latchedPassiveDone = true → st.latchedActuation = .coast ∨ st.latchedActuation = .brake

theorem resting_run (ticks : List (Tick cfg axis)) :
    Resting ((machine cfg axis).run reset ticks) := by
  have hstep : ∀ (st : Pid) (t : Tick cfg axis), Resting st →
      Resting ((machine cfg axis).step st t).1 := by
    intro st t hresting
    cases hlatched : st.latchedPassiveDone with
    | true =>
      have hsame : (machine cfg axis).step st t = _ := if_pos hlatched
      rw [hsame]
      exact hresting
    | false =>
      have hlive : (machine cfg axis).step st t = _ := updateWord_of_live hlatched t.inp
      have hbookkeep : ((st.controlWord t.inp).1.bookkeepWord t.inp).latchedPassiveDone =
          false := by
        unfold bookkeepWord
        split <;> exact hlatched
      rw [hlive]
      rcases arbitrate_cases hbookkeep (st.controlWord t.inp).2 with
        ⟨hnot, -⟩ | ⟨-, ⟨-, hcoast⟩ | ⟨-, hbrake⟩⟩
      · intro hyes
        exact absurd (hyes.symm.trans hnot) (by decide)
      · intro _
        exact .inl hcoast.latchedActuation
      · intro _
        exact .inr hbrake.latchedActuation
  exact (machine cfg axis).run_invariant hstep reset ticks nofun

/-- **A move that is reported done is done**, where the errors do not leave their words. One that
has latched stays off, whatever comes. -/
theorem done_is_settled (hcfg : cfg.Accepted) (ticks : List (Tick cfg axis)) (t : Tick cfg axis)
    (hexact : ∀ u ∈ ticks ++ [t], Exact u.inp) :
    let st := (machine cfg axis).run reset ticks
    (st.latchedPassiveDone = false → (st.updateWord t.inp).2.done = true →
      Completed (ticks ++ [t])) ∧
    (st.latchedPassiveDone = true →
      (st.latchedActuation = .coast ∨ st.latchedActuation = .brake) ∧
      ∀ cs : List Call, ∀ e ∈ calls.trace st cs, ∀ out ∈ e.2,
        out = ⟨0, st.latchedActuation, true⟩) := by
  intro st
  refine ⟨?_, ?_⟩
  · intro hlive hdone
    have hstreak : Streak ticks st.doneStreakMs st.done :=
      streak_run hcfg ticks (fun u hu => hexact u (mem_append_left _ hu)) hlive
    rw [updateWord_of_live hlive] at hdone
    obtain ⟨-, hout, -⟩ := arbitrate_keeps ((st.controlWord t.inp).1.bookkeepWord t.inp) t.inp
      (st.controlWord t.inp).2
    rw [hout] at hdone
    obtain ⟨l, suffix, heq, hsettled, -, hlong⟩ :=
      @Streak.bookkeepWord cfg axis (st.controlWord t.inp).1 t ticks hstreak hcfg
        (hexact t (by simp))
    obtain ⟨hne, hwindow⟩ := hlong hdone
    exact ⟨l, suffix, heq, hne, hsettled, hwindow⟩
  · intro hlatched
    exact ⟨resting_run ticks hlatched, off_run hlatched⟩

/-- An input with the compiled-in settings of the distance, that asks for a coast. -/
def restingTick (actXMdeg : Int)
    (hx : -9223372036854775808 ≤ actXMdeg ∧ actXMdeg ≤ 9223372036854775807) :
    Tick Settings.defaults .distance where
  inp :=
    { refXMdeg := 0, refVMdegps := 0, actXMdeg := actXMdeg, actVMdegps := 0, dtMs := 50,
      gains := Settings.defaults.gains .distance,
      completion := Settings.defaults.completionAxis .distance, dutyFf := 0,
      trajectoryDone := true, onCompletion := .coast }
  gains := rfl
  completion := rfl
  refX := (by decide : Wide 0)
  actX := hx
  refV := (by decide : int32Min ≤ 0 ∧ 0 ≤ int32Max)
  actV := (by decide : int32Min ≤ 0 ∧ 0 ≤ int32Max)
  dtMs := (by decide : 50 < 4294967296)
  dutyFf := (by decide : int32Min ≤ 0 ∧ 0 ≤ int32Max)

theorem run_unbounded_near :
    let ticks := [restingTick 8000 (by decide)]
    (machine .defaults .distance).run reset ticks =
        (unbounded .defaults .distance).run reset ticks ∧
      (machine .defaults .distance).trace reset ticks =
        (unbounded .defaults .distance).trace reset ticks :=
  run_unbounded ⟨⟨by decide, by decide, by decide, by decide, by decide⟩, trivial⟩

theorem done_is_settled_near :
    let t := restingTick 8000 (by decide)
    (reset.updateWord t.inp).2.done = true ∧ Completed [t] ∧
      ∀ cs : List Call, ∀ e ∈ calls.trace (reset.updateWord t.inp).1 cs, ∀ out ∈ e.2,
        out = ⟨0, .coast, true⟩ := by
  intro t
  have hexact : Exact t.inp := fun _ => by decide
  have hdone : (reset.updateWord t.inp).2.done = true := by decide
  have hone := done_is_settled Settings.accepted_defaults [] t (fun u hu => by
    rw [nil_append, mem_singleton] at hu
    exact hu ▸ hexact)
  have htwo := done_is_settled Settings.accepted_defaults [t] t (fun u hu => by
    rw [mem_append, mem_singleton, or_self] at hu
    exact hu ▸ hexact)
  refine ⟨hdone, hone.1 rfl hdone, ?_⟩
  exact (htwo.2 (by decide)).2

/-- A wheel that is 2147483648 thousandths of a degree ahead of its target is taken to be there. -/
theorem done_is_not_settled :
    let t := restingTick 2147483648 (by decide)
    (reset.updateWord t.inp).2 = ⟨0, .coast, true⟩ ∧ ¬Completed [t] := by
  intro t
  refine ⟨by decide, ?_⟩
  rintro ⟨l, suffix, heq, hne, hsettled, -⟩
  have hin : t ∈ suffix := by
    rcases append_eq_singleton_iff.mp heq.symm with ⟨-, rfl⟩ | ⟨-, rfl⟩
    · exact mem_singleton_self t
    · exact absurd rfl hne
  exact absurd (hsettled t hin).2.1 (by decide)

end Brickwright.Drivebase.Pid
