import Brickwright.Drivebase.Aggregate
import Brickwright.Machine.Basic

/-!
# The clock of a trajectory

The reference of an axis is read at the time of its trajectory, which stands still while the axis is
paused. An update decides at its end, when the reference has been taken, whether the axis is paused
until the next one; a drive without an end that is given a new speed goes on in the same time.

* `Keeps` — what is true of the clock after every call: it is a stopwatch that is not ahead of the
  real time (`keeps_run`).
* `getRefTime_call` — a call within a trajectory finds the clock and leaves it where it is.
* `getRefTime_run` — so over a run the clock gains the time the axis was not paused.
-/

namespace Brickwright.Drivebase.Aggregate

inductive Call where
  | drivePosition (originMdeg deltaMdeg vMaxMdegps accelMdegps2 decelMdegps2 : Int)
      (onCompletion : OnCompletion)
  | driveForever (originMdeg vTargetMdegps accelMdegps2 : Int)
  | driveHold (originMdeg : Int)
  | stop (currentStateMdeg : Int) (onCompletion : OnCompletion)
  | reset
  | update (xMdeg vMdegps : Int) (dtMs : Nat)

/-- A call, with the time since the last one. -/
structure TimedCall where
  elapsedUs : Nat
  call : Call

/-- An axis, and the time of its last call. -/
structure Timed where
  ctl : Aggregate
  nowUs : Nat

def call (cfg : Settings) (ctl : Aggregate) (nowUs : Nat) : Call → Aggregate
  | .drivePosition originMdeg deltaMdeg vMaxMdegps accelMdegps2 decelMdegps2 onCompletion =>
    ctl.drivePosition cfg nowUs originMdeg deltaMdeg vMaxMdegps accelMdegps2 decelMdegps2
      onCompletion
  | .driveForever originMdeg vTargetMdegps accelMdegps2 =>
    ctl.driveForever nowUs originMdeg vTargetMdegps accelMdegps2
  | .driveHold originMdeg => ctl.driveHold nowUs originMdeg
  | .stop currentStateMdeg onCompletion => ctl.stop nowUs currentStateMdeg onCompletion
  | .reset => ctl.reset
  | .update xMdeg vMdegps dtMs => (ctl.update cfg nowUs xMdeg vMdegps dtMs).1

def calls (cfg : Settings) : Machine Timed TimedCall Unit where
  step s c := (⟨s.ctl.call cfg (s.nowUs + c.elapsedUs) c.call, s.nowUs + c.elapsedUs⟩, ())

/-- The call goes on with the trajectory: it is an update, or a new speed for a drive without an
end. -/
def Continues (ctl : Aggregate) : Call → Prop
  | .driveForever _ _ _ => ctl.trajectoryActive = true ∧ ctl.trajectory.infinite = true
  | .update _ _ _ => ctl.trajectoryActive = true
  | _ => False

/-- The time in which the axis was not paused. -/
def unpausedUs (cfg : Settings) : Timed → List TimedCall → Nat
  | _, [] => 0
  | s, c :: cs =>
    (if s.ctl.trajPaused then 0 else c.elapsedUs) + unpausedUs cfg ((calls cfg).step s c).1 cs

/-- What is true of the clock of an axis whose last call was at `nowUs`. -/
structure Keeps (ctl : Aggregate) (nowUs : Nat) : Prop where
  /-- The pauses lie in the past, so the unsigned differences do not wrap. -/
  clock : ctl.Clock nowUs
  idle : ctl.trajectoryActive = false → ctl.trajPaused = false
  /-- The clock is not ahead. -/
  behind : ∀ t, nowUs ≤ t → ctl.getRefTime t ≤ t
  /-- It stands still while the axis is paused, and goes with the real time otherwise. -/
  advances : ∀ t t', nowUs ≤ t → t ≤ t' →
    ctl.getRefTime t' = ctl.getRefTime t + if ctl.trajPaused then 0 else t' - t

variable {cfg : Settings} {ctl : Aggregate} {nowUs : Nat} {c : Call}

/-! ## What a call keeps -/

theorem keeps_of_clock (hclock : ctl.Clock nowUs)
    (hidle : ctl.trajectoryActive = false → ctl.trajPaused = false) : ctl.Keeps nowUs := by
  obtain ⟨hbegin, htotal⟩ := hclock
  refine ⟨⟨hbegin, htotal⟩, hidle, ?_, ?_⟩
  · intro t ht
    unfold getRefTime
    split
    · next hpaused =>
      have := hbegin hpaused
      omega
    · omega
  · intro t t' ht htt'
    unfold getRefTime
    cases hpaused : ctl.trajPaused with
    | true => rfl
    | false =>
      rw [hpaused] at htotal
      simp only [Bool.false_eq_true, if_false] at htotal ⊢
      omega

theorem keeps_resetPause (hunpaused : ctl.trajPaused = false) (htotal : ctl.trajPauseTotalUs = 0) :
    ctl.Keeps nowUs := by
  apply keeps_of_clock
  · refine ⟨fun hpaused => ?_, ?_⟩
    · rw [hunpaused] at hpaused
      cases hpaused
    · rw [htotal]
      exact Nat.zero_le _
  · intro _
    exact hunpaused

theorem keeps_update (h : ctl.Keeps nowUs) (x v : Int) (dt : Nat) :
    (ctl.update cfg nowUs x v dt).1.Keeps nowUs := by
  apply keeps_of_clock (clock_update h.clock)
  intro hidle
  rw [sameMove_update.trajectoryActive] at hidle
  simp only [update, hidle, Bool.false_eq_true, if_false]
  split
  · rfl
  · simp [resetPause, hidle]

theorem keeps_driveForever (h : ctl.Keeps nowUs) (x v a : Int) :
    (ctl.driveForever nowUs x v a).Keeps nowUs := by
  unfold driveForever
  split
  · next hactive =>
    -- a new speed leaves the clock as it is
    rw [Bool.and_eq_true] at hactive
    refine keeps_of_clock ?_ ?_
    · exact ⟨h.clock.begin_le, h.clock.total_le⟩
    · intro hidle
      exact absurd (hidle.symm.trans hactive.1) Bool.false_ne_true
  · exact keeps_resetPause rfl rfl

theorem keeps_stop (x : Int) (oc : OnCompletion) : (ctl.stop nowUs x oc).Keeps nowUs := by
  unfold stop
  split
  · exact keeps_resetPause rfl rfl
  · split
    · exact keeps_resetPause rfl rfl
    · exact keeps_resetPause rfl rfl

theorem keeps_call (h : ctl.Keeps nowUs) : (ctl.call cfg nowUs c).Keeps nowUs := by
  cases c with
  | drivePosition => exact keeps_resetPause rfl rfl
  | driveForever x v a => exact keeps_driveForever h x v a
  | driveHold => exact keeps_resetPause rfl rfl
  | stop x oc => exact keeps_stop x oc
  | reset => exact keeps_resetPause rfl rfl
  | update x v dt => exact keeps_update h x v dt

theorem Keeps.later {nowUs' : Nat} (h : ctl.Keeps nowUs) (hle : nowUs ≤ nowUs') :
    ctl.Keeps nowUs' :=
  keeps_of_clock (h.clock.mono hle) h.idle

/-- **After every run the clock is kept.** -/
theorem keeps_run (s : Timed) (cs : List TimedCall) (h : s.ctl.Keeps s.nowUs) :
    ((calls cfg).run s cs).ctl.Keeps ((calls cfg).run s cs).nowUs := by
  have hstep : ∀ (s : Timed) (c : TimedCall), s.ctl.Keeps s.nowUs →
      ((calls cfg).step s c).1.ctl.Keeps ((calls cfg).step s c).1.nowUs :=
    fun s c hs => keeps_call (hs.later (Nat.le_add_right _ _))
  exact @Machine.run_invariant _ _ _ (calls cfg) (fun s => s.ctl.Keeps s.nowUs) hstep s cs h

theorem keeps_init (axis : Axis) (tickMs : Nat) : (init axis tickMs).Keeps nowUs :=
  keeps_resetPause rfl rfl

/-! ## Within a trajectory -/

/-- **A call within a trajectory** leaves the clock where it is. -/
theorem getRefTime_call (h : ctl.Keeps nowUs) (hcontinues : ctl.Continues c) :
    (ctl.call cfg nowUs c).getRefTime nowUs = ctl.getRefTime nowUs := by
  cases c with
  | driveForever x v a =>
    obtain ⟨hactive, hinfinite⟩ := hcontinues
    rw [call, driveForever, hactive, hinfinite]
    rfl
  | update x v dt => exact getRefTime_update h.clock hcontinues
  | drivePosition => exact hcontinues.elim
  | driveHold => exact hcontinues.elim
  | stop => exact hcontinues.elim
  | reset => exact hcontinues.elim

theorem getReference_update (h : ctl.Keeps nowUs) (hactive : ctl.trajectoryActive = true)
    (x v : Int) (dt : Nat) :
    (ctl.update cfg nowUs x v dt).1.trajectory.getReference
        ((ctl.update cfg nowUs x v dt).1.getRefTime nowUs) =
      ctl.trajectory.getReference (ctl.getRefTime nowUs) := by
  rw [getRefTime_update h.clock hactive, sameMove_update.trajectory]

/-- **Over a run within a trajectory** the clock gains the time in which the axis was not
paused. -/
theorem getRefTime_run (s : Timed) (cs : List TimedCall) (h : s.ctl.Keeps s.nowUs)
    (hcontinues : (calls cfg).Throughout (fun s c => s.ctl.Continues c.call) s cs) :
    ((calls cfg).run s cs).ctl.getRefTime ((calls cfg).run s cs).nowUs =
      s.ctl.getRefTime s.nowUs + unpausedUs cfg s cs := by
  induction cs generalizing s with
  | nil => rfl
  | cons c cs ih =>
    have hlater := h.later (Nat.le_add_right s.nowUs c.elapsedUs)
    have hcall := @getRefTime_call cfg _ _ _ hlater hcontinues.1
    have hrest := ih ((calls cfg).step s c).1 (keeps_call hlater) hcontinues.2
    have hgap := h.advances s.nowUs (s.nowUs + c.elapsedUs) (Nat.le_refl _) (Nat.le_add_right _ _)
    rw [Nat.add_sub_cancel_left] at hgap
    rw [Machine.run_cons, hrest, unpausedUs, ← Nat.add_assoc, ← hgap]
    exact congrArg (· + _) hcall

theorem getRefTime_starts (hcontinues : ¬ctl.Continues c)
    (hactive : (ctl.call cfg nowUs c).trajectoryActive = true) :
    (ctl.call cfg nowUs c).getRefTime nowUs = nowUs := by
  cases c with
  | drivePosition => rfl
  | driveForever x v a =>
    have hnew : ¬(ctl.trajectoryActive && ctl.trajectory.infinite) = true := by
      rw [Bool.and_eq_true]
      exact hcontinues
    rw [call, driveForever, if_neg hnew]
    rfl
  | driveHold => rfl
  | stop x oc =>
    simp only [call, stop] at hactive ⊢
    split
    · next hcoast =>
      rw [if_pos hcoast] at hactive
      cases hactive
    · next hcoast =>
      rw [if_neg hcoast] at hactive
      split
      · next hbrake =>
        rw [if_pos hbrake] at hactive
        cases hactive
      · rfl
  | reset => cases hactive
  | update x v dt =>
    have hsame := @sameMove_update ctl nowUs cfg x v dt
    exact absurd (hsame.trajectoryActive.symm.trans hactive) hcontinues

/-- **The clock of a trajectory.** After every run of calls the clock is not ahead of the real time,
stands still while the axis is paused and goes with the real time otherwise, and an idle axis is not
paused. A trajectory begins at the real time; an update and a new speed leave its clock where it is,
and an update its reference too; and over any calls within a trajectory the clock gains the time in
which the axis was not paused. -/
theorem reference_time (cfg : Settings) (axis : Axis) (tickMs startUs : Nat) (cs : List TimedCall) :
    let s := (calls cfg).run ⟨init axis tickMs, startUs⟩ cs
    s.ctl.Keeps s.nowUs ∧
      (∀ (elapsedUs : Nat) (c : Call),
        let now := s.nowUs + elapsedUs
        let ctl := s.ctl.call cfg now c
        (¬s.ctl.Continues c → ctl.trajectoryActive = true → ctl.getRefTime now = now) ∧
        (s.ctl.Continues c → ctl.getRefTime now = s.ctl.getRefTime now) ∧
        ∀ x v dt, c = .update x v dt → s.ctl.trajectoryActive = true →
          ctl.trajectory.getReference (ctl.getRefTime now) =
            s.ctl.trajectory.getReference (s.ctl.getRefTime now)) ∧
      ∀ more : List TimedCall,
        (calls cfg).Throughout (fun s c => s.ctl.Continues c.call) s more →
        ((calls cfg).run s more).ctl.getRefTime ((calls cfg).run s more).nowUs =
          s.ctl.getRefTime s.nowUs + unpausedUs cfg s more := by
  intro s
  have hkeeps : s.ctl.Keeps s.nowUs := keeps_run _ cs (keeps_init axis tickMs)
  refine ⟨hkeeps, ?_, fun more hmore => getRefTime_run s more hkeeps hmore⟩
  intro elapsedUs c
  have hlater := hkeeps.later (Nat.le_add_right s.nowUs elapsedUs)
  refine ⟨getRefTime_starts, getRefTime_call hlater, ?_⟩
  rintro x v dt rfl hactive
  exact getReference_update hlater hactive x v dt

end Brickwright.Drivebase.Aggregate
