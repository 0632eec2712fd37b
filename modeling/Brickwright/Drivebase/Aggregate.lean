import Brickwright.Drivebase.Trajectory

/-!
# One axis of the drivebase

`drivebase_aggregate.c`: a trajectory and the controller that follows it, for the distance or for
the heading. The clock of the trajectory is paused while the controller is at its limit, and the end
of the last move is remembered, so that the next one can start from there.

`update_cases` says what one update can do, in the terms of `Pid.update_cases`; the clock lemmas say
that the time a trajectory is read at never goes back.
-/

namespace Brickwright.Drivebase

/-- `struct db_aggregate_control_s`. The gains and tolerances it points to are those of the frozen
settings. -/
structure Aggregate where
  axis : Axis
  trajectory : Trajectory := {}
  trajectoryActive : Bool := false
  pid : Pid := {}
  tickMs : Nat
  prevEndpointValid : Bool := false
  prevEndpointMdeg : Int := 0
  onCompletion : OnCompletion := 0
  trajPaused : Bool := false
  trajPauseBeginUs : Nat := 0
  trajPauseTotalUs : Nat := 0
  deriving DecidableEq, Repr

/-- `struct db_aggregate_output_s`. -/
structure AggregateOutput where
  duty : Int
  refVMdegps : Int
  actuation : OnCompletion
  done : Bool
  trajectoryDone : Bool
  posErrMdeg : Int
  deriving DecidableEq, Repr

namespace Aggregate

/-! ## The clock -/

/-- `aggregate_get_ref_time`. The pauses lie in the past, so the differences are not negative
(`Clock`). -/
def getRefTime (ctl : Aggregate) (nowUs : Nat) : Nat :=
  if ctl.trajPaused then ctl.trajPauseBeginUs - ctl.trajPauseTotalUs
  else nowUs - ctl.trajPauseTotalUs

/-- `aggregate_set_pause`: nothing changes when the clock already is as it shall be. -/
def setPause (ctl : Aggregate) (pause : Bool) (nowUs : Nat) : Aggregate :=
  { ctl with
    trajPauseBeginUs := if pause && !ctl.trajPaused then nowUs else ctl.trajPauseBeginUs
    trajPauseTotalUs :=
      if !pause && ctl.trajPaused then ctl.trajPauseTotalUs + (nowUs - ctl.trajPauseBeginUs)
      else ctl.trajPauseTotalUs
    trajPaused := pause }

/-- `aggregate_reset_pause`. -/
def resetPause (ctl : Aggregate) : Aggregate :=
  { ctl with trajPaused := false, trajPauseBeginUs := 0, trajPauseTotalUs := 0 }

/-! ## Commands -/

/-- `db_aggregate_control_init`. -/
def init (axis : Axis) (tickMs : Nat) : Aggregate where
  axis := axis
  tickMs := if tickMs = 0 then 2 else tickMs
  onCompletion := .coast

/-- `db_aggregate_control_reset`. -/
def reset (ctl : Aggregate) : Aggregate :=
  { ctl.resetPause with
    trajectoryActive := false
    prevEndpointValid := false
    prevEndpointMdeg := 0
    onCompletion := .coast
    pid := .reset }

/-- Where a move starts: at the end of the last one, if that is near enough. -/
def actualOrigin (cfg : Settings) (ctl : Aggregate) (originMdeg : Int) : Int :=
  if ctl.prevEndpointValid ∧
      abs32 (ctl.prevEndpointMdeg - originMdeg) ≤
        (cfg.completionAxis ctl.axis).smartContinueWindowMdeg then ctl.prevEndpointMdeg
  else originMdeg

/-- `db_aggregate_control_drive_position`. -/
def drivePosition (cfg : Settings) (ctl : Aggregate) (nowUs : Nat)
    (originMdeg deltaMdeg vMaxMdegps accelMdegps2 decelMdegps2 : Int)
    (onCompletion : OnCompletion) : Aggregate :=
  let origin := ctl.actualOrigin cfg originMdeg
  let target := origin + deltaMdeg
  { ctl.resetPause with
    trajectory := .initPosition nowUs origin target vMaxMdegps accelMdegps2 decelMdegps2
    trajectoryActive := true
    prevEndpointValid := true
    prevEndpointMdeg := target
    onCompletion := onCompletion
    pid := .reset }

/-- `db_aggregate_control_drive_forever`. -/
def driveForever (ctl : Aggregate) (nowUs : Nat) (originMdeg vTargetMdegps accelMdegps2 : Int) :
    Aggregate :=
  if ctl.trajectoryActive && ctl.trajectory.infinite then
    { ctl with
      trajectory := ctl.trajectory.retargetForever (ctl.getRefTime nowUs) vTargetMdegps accelMdegps2
      prevEndpointValid := false
      onCompletion := .coast }
  else
    { ctl.resetPause with
      trajectory := .initForever nowUs originMdeg vTargetMdegps accelMdegps2
      trajectoryActive := true
      prevEndpointValid := false
      onCompletion := .coast
      pid := .reset }

/-- `db_aggregate_control_drive_hold`. -/
def driveHold (ctl : Aggregate) (nowUs : Nat) (originMdeg : Int) : Aggregate :=
  { ctl.resetPause with
    trajectory := .initPosition nowUs originMdeg originMdeg 1 1 1
    trajectoryActive := true
    prevEndpointValid := false
    onCompletion := .hold
    pid := .reset }

def stopPassive (ctl : Aggregate) (onCompletion latchedActuation : OnCompletion) : Aggregate :=
  { ctl.resetPause with
    trajectoryActive := false
    prevEndpointValid := false
    onCompletion := onCompletion
    pid := { Pid.stopPassive with
      latchedPassiveDone := true, latchedActuation := latchedActuation } }

/-- `db_aggregate_control_stop`. -/
def stop (ctl : Aggregate) (nowUs : Nat) (currentStateMdeg : Int) (onCompletion : OnCompletion) :
    Aggregate :=
  if onCompletion = .coast ∨ onCompletion = .coastSmart then ctl.stopPassive onCompletion .coast
  else if onCompletion = .brake ∨ onCompletion = .brakeSmart then
    ctl.stopPassive onCompletion .brake
  else ctl.driveHold nowUs currentStateMdeg

/-! ## Ticks -/

def reference (ctl : Aggregate) (nowUs : Nat) (xMdeg : Int) : Ref :=
  if ctl.trajectoryActive then ctl.trajectory.getReference (ctl.getRefTime nowUs)
  else ⟨xMdeg, 0, 0, true⟩

/-- The reference has come to the end of its trajectory, or there is none. -/
def referenceDone (ctl : Aggregate) (nowUs : Nat) : Bool := (ctl.reference nowUs 0).done

def sign (v : Int) : Int := if v > 0 then 1 else if v < 0 then -1 else 0

/-- The controller is at its limit in the direction of the error, and the reference is neither
coming back nor slowing down. -/
def wantPause (pid : Pid) (ref : Ref) (xMdeg vMdegps : Int) : Bool :=
  let signP := sign (ref.xMdeg - xMdeg)
  let signV := sign (ref.vMdegps - vMdegps)
  let signA := sign ref.aMdegps2
  let pLimited := (decide (signP > 0) && pid.outputSaturatedHigh) ||
    (decide (signP < 0) && pid.outputSaturatedLow)
  !pid.latchedPassiveDone && pLimited &&
    !(decide (signP ≠ 0) && decide (signV ≠ 0) && decide (signP = -signV)) &&
    !(decide (signP ≠ 0) && decide (signA ≠ 0) && decide (signP = -signA))

def pidInput (cfg : Settings) (ctl : Aggregate) (ref : Ref) (xMdeg vMdegps : Int) (dtMs : Nat) :
    PidInput where
  refXMdeg := ref.xMdeg
  refVMdegps := ref.vMdegps
  actXMdeg := xMdeg
  actVMdegps := vMdegps
  dtMs := if dtMs = 0 then ctl.tickMs else dtMs
  gains := cfg.gains ctl.axis
  completion := cfg.completionAxis ctl.axis
  dutyFf :=
    if ctl.trajectoryActive then
      (cfg.ffAxis ctl.axis).kV * ref.vMdegps.tdiv 1000 +
        (cfg.ffAxis ctl.axis).kA * ref.aMdegps2.tdiv 1000
    else 0
  trajectoryDone := ref.done
  onCompletion := ctl.onCompletion

/-- `db_aggregate_control_update`. -/
def update (cfg : Settings) (ctl : Aggregate) (nowUs : Nat) (xMdeg vMdegps : Int) (dtMs : Nat) :
    Aggregate × AggregateOutput :=
  let ctl := if ctl.trajectoryActive then ctl else ctl.resetPause
  if !ctl.trajectoryActive && !ctl.pid.latchedPassiveDone then
    (ctl, { duty := 0, refVMdegps := 0, actuation := .coast, done := ctl.pid.done,
            trajectoryDone := true, posErrMdeg := 0 })
  else
    let ref := ctl.reference nowUs xMdeg
    let (pid, pout) := ctl.pid.update (ctl.pidInput cfg ref xMdeg vMdegps dtMs)
    let ctl := { ctl with pid := pid }
    (if ctl.trajectoryActive then ctl.setPause (wantPause pid ref xMdeg vMdegps) nowUs else ctl,
      { duty := pout.duty, refVMdegps := ref.vMdegps, actuation := pout.actuation,
        done := pout.done, trajectoryDone := ref.done,
        posErrMdeg := clampI32 (ref.xMdeg - xMdeg) int32Min int32Max })

/-! ## Facts -/

variable {ctl : Aggregate} {nowUs nowUs' : Nat} {cfg : Settings} {xMdeg vMdegps : Int} {dtMs : Nat}

/-- The pauses of a trajectory lie in the past. -/
structure Clock (ctl : Aggregate) (nowUs : Nat) : Prop where
  begin_le : ctl.trajPaused = true → ctl.trajPauseBeginUs ≤ nowUs
  total_le : ctl.trajPauseTotalUs ≤ if ctl.trajPaused then ctl.trajPauseBeginUs else nowUs

theorem clock_resetPause (ctl : Aggregate) (nowUs : Nat) : ctl.resetPause.Clock nowUs where
  begin_le h := nomatch h
  total_le := Nat.zero_le _

theorem getRefTime_resetPause (ctl : Aggregate) (nowUs : Nat) :
    ctl.resetPause.getRefTime nowUs = nowUs := rfl

theorem Clock.mono (h : ctl.Clock nowUs) (hle : nowUs ≤ nowUs') : ctl.Clock nowUs' := by
  refine ⟨fun hp => Nat.le_trans (h.begin_le hp) hle, ?_⟩
  have htotal := h.total_le
  split at htotal
  · next hp =>
    rw [if_pos hp]
    exact htotal
  · next hp =>
    rw [if_neg hp]
    exact Nat.le_trans htotal hle

/-- **The clock of a trajectory does not go back.** -/
theorem getRefTime_mono (ctl : Aggregate) (hle : nowUs ≤ nowUs') :
    ctl.getRefTime nowUs ≤ ctl.getRefTime nowUs' := by
  unfold getRefTime
  split
  · exact Nat.le_refl _
  · omega

theorem getRefTime_setPause (h : ctl.Clock nowUs) (pause : Bool) :
    (ctl.setPause pause nowUs).getRefTime nowUs = ctl.getRefTime nowUs := by
  obtain ⟨hbegin, htotal⟩ := h
  cases hp : ctl.trajPaused <;> simp only [hp, setPause, getRefTime] at htotal ⊢
  all_goals simp_all
  omega

theorem Clock.setPause (h : ctl.Clock nowUs) (pause : Bool) :
    (ctl.setPause pause nowUs).Clock nowUs := by
  obtain ⟨hbegin, htotal⟩ := h
  constructor <;> cases hp : ctl.trajPaused <;> cases pause <;>
    simp_all [Aggregate.setPause]
  omega

theorem stop_of_coasts {oc : OnCompletion} (h : oc.Coasts) (nowUs : Nat) (xMdeg : Int) :
    ctl.stop nowUs xMdeg oc = ctl.stopPassive oc .coast :=
  if_pos h

theorem stop_of_brakes {oc : OnCompletion} (h : oc.Brakes) (nowUs : Nat) (xMdeg : Int) :
    ctl.stop nowUs xMdeg oc = ctl.stopPassive oc .brake :=
  (if_neg h.not_coasts).trans (if_pos h)

/-- The same move as before, whatever became of its clock and its controller. -/
structure SameMove (ctl ctl' : Aggregate) : Prop where
  trajectory : ctl'.trajectory = ctl.trajectory
  trajectoryActive : ctl'.trajectoryActive = ctl.trajectoryActive
  onCompletion : ctl'.onCompletion = ctl.onCompletion
  prevEndpointValid : ctl'.prevEndpointValid = ctl.prevEndpointValid
  prevEndpointMdeg : ctl'.prevEndpointMdeg = ctl.prevEndpointMdeg
  axis : ctl'.axis = ctl.axis

theorem sameMove_update : SameMove ctl (ctl.update cfg nowUs xMdeg vMdegps dtMs).1 := by
  unfold update
  by_cases hactive : ctl.trajectoryActive = true
  · simp only [hactive, if_true, Bool.not_true, Bool.false_and, Bool.false_eq_true, if_false]
    exact ⟨rfl, hactive.symm, rfl, rfl, rfl, rfl⟩
  · rw [Bool.not_eq_true] at hactive
    simp only [hactive, Bool.false_eq_true, if_false, resetPause]
    split <;> exact ⟨rfl, hactive.symm, rfl, rfl, rfl, rfl⟩

theorem update_idle (hactive : ctl.trajectoryActive = false)
    (hlatched : ctl.pid.latchedPassiveDone = false) :
    ctl.update cfg nowUs xMdeg vMdegps dtMs =
      (ctl.resetPause, { duty := 0, refVMdegps := 0, actuation := .coast, done := ctl.pid.done,
                         trajectoryDone := true, posErrMdeg := 0 }) := by
  simp [update, resetPause, hactive, hlatched]

theorem update_latched (hlatched : ctl.pid.latchedPassiveDone = true) :
    (ctl.update cfg nowUs xMdeg vMdegps dtMs).1.pid = ctl.pid ∧
      (ctl.update cfg nowUs xMdeg vMdegps dtMs).2.actuation = ctl.pid.latchedActuation ∧
      (ctl.update cfg nowUs xMdeg vMdegps dtMs).2.done = true := by
  unfold update
  cases hactive : ctl.trajectoryActive <;>
    simp [hactive, resetPause, setPause, hlatched, Pid.update_of_latched]

/-- A move that is under way goes on, or it latches at the end of its trajectory. -/
theorem update_running (hactive : ctl.trajectoryActive = true)
    (hlatched : ctl.pid.latchedPassiveDone = false) :
    ((ctl.update cfg nowUs xMdeg vMdegps dtMs).1.pid.latchedPassiveDone = false ∧
      (ctl.update cfg nowUs xMdeg vMdegps dtMs).2.actuation = .hold) ∨
    (ctl.referenceDone nowUs = true ∧
      ((ctl.update cfg nowUs xMdeg vMdegps dtMs).1.pid.latchedPassiveDone = true ∧
        (ctl.update cfg nowUs xMdeg vMdegps dtMs).1.pid.latchedActuation =
          (ctl.update cfg nowUs xMdeg vMdegps dtMs).2.actuation) ∧
      ((ctl.onCompletion = .coast ∨ ctl.onCompletion = .coastSmart) ∧
          (ctl.update cfg nowUs xMdeg vMdegps dtMs).2.actuation = .coast ∨
        (ctl.onCompletion = .brake ∨ ctl.onCompletion = .brakeSmart) ∧
          (ctl.update cfg nowUs xMdeg vMdegps dtMs).2.actuation = .brake)) := by
  have hdone : (ctl.reference nowUs xMdeg).done = ctl.referenceDone nowUs := by
    rw [referenceDone, reference, reference, if_pos hactive, if_pos hactive]
  have hcases := (@Pid.update_cases ctl.pid (ctl.pidInput cfg (ctl.reference nowUs xMdeg) xMdeg
      vMdegps dtMs)) hlatched
  simp only [update, hactive, if_true, Bool.not_true, Bool.false_and, Bool.false_eq_true, if_false,
    setPause]
  rcases hcases with hgoes | ⟨hend, ⟨hcoast, hlatch⟩ | ⟨hbrake, hlatch⟩⟩
  · exact .inl hgoes
  · refine .inr ⟨hdone.symm.trans hend, ⟨hlatch.latched, ?_⟩, .inl ⟨hcoast, hlatch.actuation⟩⟩
    rw [hlatch.latchedActuation, hlatch.actuation]
  · refine .inr ⟨hdone.symm.trans hend, ⟨hlatch.latched, ?_⟩, .inr ⟨hbrake, hlatch.actuation⟩⟩
    rw [hlatch.latchedActuation, hlatch.actuation]

theorem clock_update (hclock : ctl.Clock nowUs) :
    (ctl.update cfg nowUs xMdeg vMdegps dtMs).1.Clock nowUs := by
  unfold update
  by_cases hactive : ctl.trajectoryActive = true
  · simp only [hactive, if_true, Bool.not_true, Bool.false_and, Bool.false_eq_true, if_false]
    exact (@Clock.setPause { ctl with trajectoryActive := true, pid := _ })
      ⟨hclock.begin_le, hclock.total_le⟩ _
  · simp only [hactive, Bool.false_eq_true, if_false]
    split
    · exact clock_resetPause ctl nowUs
    · have hreset := clock_resetPause ctl nowUs
      have hidle : ¬ctl.resetPause.trajectoryActive = true := by simp [resetPause, hactive]
      simp only [if_neg hidle]
      exact ⟨hreset.begin_le, hreset.total_le⟩

theorem getRefTime_update (hclock : ctl.Clock nowUs) (hactive : ctl.trajectoryActive = true) :
    (ctl.update cfg nowUs xMdeg vMdegps dtMs).1.getRefTime nowUs = ctl.getRefTime nowUs := by
  simp only [update, hactive, if_true, Bool.not_true, Bool.false_and, Bool.false_eq_true, if_false]
  exact (@getRefTime_setPause { ctl with trajectoryActive := true, pid := _ })
    ⟨hclock.begin_le, hclock.total_le⟩ _

end Aggregate

end Brickwright.Drivebase
