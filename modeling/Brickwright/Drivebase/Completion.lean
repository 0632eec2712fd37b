import Brickwright.Drivebase.Base

/-!
# When a move ends passively

A tick brakes both wheels as soon as one axis has latched BRAKE. An axis latches at the end of its
own trajectory only, on a clock of its own; whether the other one has come to its end by then
depends on what it was armed with. The axis a straight or a turn is not about is held where it is,
and a trajectory that goes nowhere is always at its end. A curve arms both axes with the completion
of the command.

`Sound` is what holds of one axis in every run and `Paired` what holds of the two together;
`Sound.update` is the step that needs an argument: an axis latches only where its reference has come
to its end.
-/

namespace Brickwright.Drivebase

open List

namespace Aggregate

variable {cfg : Settings} {ctl : Aggregate} {nowUs nowUs' : Nat} {xMdeg vMdegps : Int} {dtMs : Nat}

/-- The axis follows a trajectory that ends with BRAKE. -/
def MayBrake (ctl : Aggregate) : Prop := ctl.trajectoryActive = true ∧ ctl.onCompletion.Brakes

/-- The axis is held where it is, or free. -/
def Still (ctl : Aggregate) : Prop :=
  ctl.trajectoryActive = true → ctl.trajectory.infinite = false ∧ ctl.trajectory.direction = 0

structure Sound (ctl : Aggregate) (nowUs : Nat) : Prop where
  clock : ctl.Clock nowUs
  started : ctl.trajectoryActive = true → ctl.trajectory.infinite = false →
    ctl.trajectory.t0Us ≤ ctl.getRefTime nowUs
  ended : ctl.trajectoryActive = true → ctl.pid.latchedPassiveDone = true →
    ctl.referenceDone nowUs = true
  brakes : ctl.trajectoryActive = true → ctl.pid.latchedPassiveDone = true →
    ctl.pid.latchedActuation = .brake → ctl.onCompletion.Brakes
  finite : ctl.MayBrake → ctl.trajectory.infinite = false

theorem referenceDone_of_inactive (h : ctl.trajectoryActive = false) :
    ctl.referenceDone nowUs = true := by
  rw [referenceDone, reference, if_neg (by simp [h])]

theorem referenceDone_of_active (h : ctl.trajectoryActive = true) :
    ctl.referenceDone nowUs = (ctl.trajectory.getReference (ctl.getRefTime nowUs)).done := by
  rw [referenceDone, reference, if_pos h]

theorem Still.referenceDone (h : ctl.Still) (hsound : ctl.Sound nowUs) :
    ctl.referenceDone nowUs = true := by
  cases hactive : ctl.trajectoryActive with
  | false => exact referenceDone_of_inactive hactive
  | true =>
    obtain ⟨hfinite, hdirection⟩ := h hactive
    rw [referenceDone_of_active hactive]
    exact Trajectory.done_of_still hfinite hdirection (hsound.started hactive hfinite)

theorem Sound.mono (h : ctl.Sound nowUs) (hle : nowUs ≤ nowUs') : ctl.Sound nowUs' where
  clock := h.clock.mono hle
  started hactive hfinite := Nat.le_trans (h.started hactive hfinite) (getRefTime_mono ctl hle)
  ended hactive hlatched := by
    have hdone := h.ended hactive hlatched
    rw [referenceDone_of_active hactive] at hdone ⊢
    exact Trajectory.done_mono hdone (getRefTime_mono ctl hle)
  brakes := h.brakes
  finite := h.finite

/-- The clock of an axis is fresh: it has not been paused since it was set. -/
theorem clock_of_fresh (h : ctl.resetPause = ctl) : ctl.Clock nowUs :=
    h ▸ clock_resetPause ctl nowUs

theorem sound_of_inactive (hclock : ctl.Clock nowUs) (h : ctl.trajectoryActive = false) :
    ctl.Sound nowUs where
  clock := hclock
  started hactive := by rw [h] at hactive; cases hactive
  ended hactive := by rw [h] at hactive; cases hactive
  brakes hactive := by rw [h] at hactive; cases hactive
  finite hmay := by have hactive := hmay.1; rw [h] at hactive; cases hactive

theorem sound_of_armed (hfresh : ctl.resetPause = ctl)
    (hlatched : ctl.pid.latchedPassiveDone = false) (hstart : ctl.trajectory.t0Us ≤ nowUs)
    (hfinite : ctl.trajectory.infinite = false) : ctl.Sound nowUs where
  clock := clock_of_fresh hfresh
  started _ _ := by
    rw [← hfresh, getRefTime_resetPause, hfresh]
    exact hstart
  ended _ h := by rw [hlatched] at h; cases h
  brakes _ h := by rw [hlatched] at h; cases h
  finite _ := hfinite

theorem sound_drivePosition {originMdeg deltaMdeg vMaxMdegps accelMdegps2 decelMdegps2 : Int}
    {oc : OnCompletion} : (ctl.drivePosition cfg nowUs originMdeg deltaMdeg vMaxMdegps accelMdegps2
      decelMdegps2 oc).Sound nowUs := by
  obtain ⟨hstart, -, -, hfinite⟩ := Trajectory.initPosition_spec nowUs
    (ctl.actualOrigin cfg originMdeg) (ctl.actualOrigin cfg originMdeg + deltaMdeg) vMaxMdegps
    accelMdegps2 decelMdegps2
  exact sound_of_armed rfl rfl (Nat.le_of_eq hstart) hfinite

theorem sound_driveHold (ctl : Aggregate) (nowUs : Nat) (originMdeg : Int) :
    (ctl.driveHold nowUs originMdeg).Sound nowUs := by
  obtain ⟨hstart, -, -, hfinite⟩ := Trajectory.initPosition_spec nowUs originMdeg originMdeg 1 1 1
  exact sound_of_armed rfl rfl (Nat.le_of_eq hstart) hfinite

theorem still_driveHold (ctl : Aggregate) (nowUs : Nat) (originMdeg : Int) :
    (ctl.driveHold nowUs originMdeg).Still := fun _ =>
  ⟨(Trajectory.initPosition_spec nowUs originMdeg originMdeg 1 1 1).2.2.2,
    Trajectory.initPosition_same nowUs originMdeg 1 1 1⟩

theorem not_mayBrake_driveHold (ctl : Aggregate) (nowUs : Nat) (originMdeg : Int) :
    ¬(ctl.driveHold nowUs originMdeg).MayBrake := fun h =>
  absurd (show OnCompletion.hold.Brakes from h.2) (by decide)

theorem not_brakes_coast : ¬OnCompletion.coast.Brakes := by decide

theorem Sound.driveForever (h : ctl.Sound nowUs) (originMdeg vTargetMdegps accelMdegps2 : Int) :
    (ctl.driveForever nowUs originMdeg vTargetMdegps accelMdegps2).Sound nowUs := by
  unfold Aggregate.driveForever
  split
  · next hforever =>
    obtain ⟨hactive, hinfinite⟩ := Bool.and_eq_true_iff.mp hforever
    -- A forever drive has no end, so it has not latched.
    have hlatched : ctl.pid.latchedPassiveDone = false := by
      cases hlatched : ctl.pid.latchedPassiveDone with
      | false => rfl
      | true =>
        have hdone := h.ended hactive hlatched
        rw [referenceDone_of_active hactive, Trajectory.done_iff, hinfinite] at hdone
        cases hdone.1
    have hinfinite' : (ctl.trajectory.retargetForever (ctl.getRefTime nowUs) vTargetMdegps
        accelMdegps2).infinite = true := by
      rw [Trajectory.infinite_retargetForever]
      exact hinfinite
    refine ⟨⟨h.clock.begin_le, h.clock.total_le⟩, fun _ hfinite => ?_, fun _ hlatched' => ?_,
      fun _ hlatched' => ?_, fun hmay => absurd hmay.2 not_brakes_coast⟩
    · rw [hinfinite'] at hfinite
      cases hfinite
    · exact absurd (hlatched.symm.trans hlatched') Bool.false_ne_true
    · exact absurd (hlatched.symm.trans hlatched') Bool.false_ne_true
  · refine ⟨clock_of_fresh rfl, fun _ hfinite => ?_, fun _ h => ?_, fun _ h => ?_,
      fun hmay => absurd hmay.2 not_brakes_coast⟩
    · cases hfinite
    · cases h
    · cases h

theorem sound_stop (ctl : Aggregate) (nowUs : Nat) (xMdeg : Int) (oc : OnCompletion) :
    (ctl.stop nowUs xMdeg oc).Sound nowUs := by
  unfold stop
  split
  · exact sound_of_inactive (clock_of_fresh rfl) rfl
  · split
    · exact sound_of_inactive (clock_of_fresh rfl) rfl
    · exact sound_driveHold ctl nowUs xMdeg

/-- **An axis latches at the end of its trajectory.** -/
theorem Sound.update (h : ctl.Sound nowUs) :
    (ctl.update cfg nowUs xMdeg vMdegps dtMs).1.Sound nowUs := by
  obtain ⟨htrajectory, hactive', hcompletion, -⟩ := @sameMove_update ctl nowUs cfg xMdeg vMdegps
      dtMs
  have hclock := @clock_update _ _ cfg xMdeg vMdegps dtMs
    h.clock
  cases hactive : ctl.trajectoryActive with
  | false => exact sound_of_inactive hclock (hactive'.trans hactive)
  | true =>
    have htime := (@getRefTime_update _ _ cfg xMdeg vMdegps dtMs) h.clock hactive
    have hdone : (ctl.update cfg nowUs xMdeg vMdegps dtMs).1.referenceDone nowUs =
        ctl.referenceDone nowUs := by
      rw [referenceDone_of_active (hactive'.trans hactive), referenceDone_of_active hactive, htime,
        htrajectory]
    refine ⟨hclock, fun _ hfinite => ?_, fun _ hlatched => ?_, fun _ hlatched hbrake => ?_,
      fun hmay => ?_⟩
    · rw [htime, htrajectory]
      rw [htrajectory] at hfinite
      exact h.started hactive hfinite
    · rw [hdone]
      cases hbefore : ctl.pid.latchedPassiveDone with
      | true => exact h.ended hactive hbefore
      | false =>
        rcases update_running hactive hbefore with ⟨hgoes, -⟩ | ⟨hend, -⟩
        · exact absurd (hgoes.symm.trans hlatched) Bool.false_ne_true
        · exact hend
    · rw [hcompletion]
      cases hbefore : ctl.pid.latchedPassiveDone with
      | true =>
        rw [(update_latched hbefore).1] at hbrake
        exact h.brakes hactive hbefore hbrake
      | false =>
        rcases update_running hactive hbefore with ⟨hgoes, -⟩ | ⟨-, ⟨-, hactuation⟩, hhow⟩
        · exact absurd (hgoes.symm.trans hlatched) Bool.false_ne_true
        · rw [hactuation] at hbrake
          rcases hhow with ⟨-, hcoast⟩ | ⟨hbrakes, -⟩
          · exact absurd (hcoast.symm.trans hbrake) OnCompletion.coast_ne_brake
          · exact hbrakes
    · rw [htrajectory]
      refine h.finite ⟨hactive, ?_⟩
      rw [← hcompletion]
      exact hmay.2

/-! ## Two axes -/

/-- What an axis lets be said of the other one. -/
structure HalfPaired (ctl other : Aggregate) : Prop where
  latched : ctl.trajectoryActive = false → ctl.pid.latchedPassiveDone = true →
    other.trajectoryActive = false
  brakes : ctl.MayBrake → other.MayBrake ∨ other.Still
  together : ctl.MayBrake → other.MayBrake → ctl.trajectory.t0Us = other.trajectory.t0Us

/-- What holds of the two axes at all times. -/
structure Paired (d h : Aggregate) (nowUs : Nat) : Prop where
  distance : d.Sound nowUs
  heading : h.Sound nowUs
  there : HalfPaired d h
  back : HalfPaired h d

variable {d h d' h' : Aggregate}

theorem Paired.mono (hp : Paired d h nowUs) (hle : nowUs ≤ nowUs') : Paired d h nowUs' :=
  ⟨hp.distance.mono hle, hp.heading.mono hle, hp.there, hp.back⟩

theorem Paired.symm (hp : Paired d h nowUs) : Paired h d nowUs :=
  ⟨hp.heading, hp.distance, hp.back, hp.there⟩

theorem halfPaired_of_inactive (hd : d.trajectoryActive = false) (hh : h.trajectoryActive = false) :
    HalfPaired d h where
  latched _ _ := hh
  brakes hmay := absurd (hd.symm.trans hmay.1) Bool.false_ne_true
  together hmay := absurd (hd.symm.trans hmay.1) Bool.false_ne_true

/-- An axis that is active and does not end with BRAKE says nothing of the other one. -/
theorem halfPaired_of_not_mayBrake (hd : d.trajectoryActive = true) (hmay : ¬d.MayBrake) :
    HalfPaired d h where
  latched hinactive := absurd (hinactive.symm.trans hd) Bool.false_ne_true
  brakes h := absurd h hmay
  together h := absurd h hmay

theorem halfPaired_of_held (hd : d.trajectoryActive = true) (hstill : h.Still)
    (hmay : ¬h.MayBrake) : HalfPaired d h where
  latched hinactive := absurd (hinactive.symm.trans hd) Bool.false_ne_true
  brakes _ := .inr hstill
  together _ h := absurd h hmay

theorem halfPaired_of_same (hd : d.trajectoryActive = true) (hh : h.trajectoryActive = true)
    (hcompletion : h.onCompletion = d.onCompletion)
    (hstart : d.trajectory.t0Us = h.trajectory.t0Us) : HalfPaired d h where
  latched hinactive := absurd (hinactive.symm.trans hd) Bool.false_ne_true
  brakes hmay := .inl ⟨hh, hcompletion ▸ hmay.2⟩
  together _ _ := hstart

theorem mayBrake_of_sameMove (h : SameMove ctl d) : d.MayBrake ↔ ctl.MayBrake := by
  rw [MayBrake, MayBrake, h.trajectoryActive, h.onCompletion]

theorem still_of_sameMove (h : SameMove ctl d) : d.Still ↔ ctl.Still := by
  rw [Still, Still, h.trajectoryActive, h.trajectory]

theorem pid_update_of_inactive (hactive : ctl.trajectoryActive = false) :
    (ctl.update cfg nowUs xMdeg vMdegps dtMs).1.pid = ctl.pid := by
  cases hlatched : ctl.pid.latchedPassiveDone with
  | false =>
    rw [update_idle hactive hlatched]
    rfl
  | true => exact (update_latched hlatched).1

theorem HalfPaired.update (hp : HalfPaired d h) {xMdeg' vMdegps' : Int} :
    HalfPaired (d.update cfg nowUs xMdeg vMdegps dtMs).1
      (h.update cfg nowUs xMdeg' vMdegps' dtMs).1 := by
  have hd : SameMove d (d.update cfg nowUs xMdeg vMdegps dtMs).1 := sameMove_update
  have hh : SameMove h (h.update cfg nowUs xMdeg' vMdegps' dtMs).1 := sameMove_update
  refine ⟨fun hinactive hlatched => ?_, fun hmay => ?_, fun hmay hmay' => ?_⟩
  · rw [hd.trajectoryActive] at hinactive
    rw [pid_update_of_inactive hinactive] at hlatched
    exact hh.trajectoryActive.trans (hp.latched hinactive hlatched)
  · rw [mayBrake_of_sameMove hd] at hmay
    rw [mayBrake_of_sameMove hh, still_of_sameMove hh]
    exact hp.brakes hmay
  · rw [mayBrake_of_sameMove hd] at hmay
    rw [mayBrake_of_sameMove hh] at hmay'
    rw [hd.trajectory, hh.trajectory]
    exact hp.together hmay hmay'

/-- The trajectories of two axes that move take the same time, and their clocks show the same. -/
structure InStep (d h : Aggregate) (nowUs : Nat) : Prop where
  distance : d.trajectory.direction ≠ 0
  heading : h.trajectory.direction ≠ 0
  duration : d.trajectory.duration = h.trajectory.duration
  clocks : d.getRefTime nowUs = h.getRefTime nowUs

theorem InStep.symm (hs : InStep d h nowUs) : InStep h d nowUs :=
  ⟨hs.heading, hs.distance, hs.duration.symm, hs.clocks.symm⟩

/-- **An axis that brakes is at its end**, and so is the other one, unless a curve moves both. -/
theorem HalfPaired.ends (hp : HalfPaired d h) (hd : d.Sound nowUs) (hh : h.Sound nowUs)
    (hbrake : (d.update cfg nowUs xMdeg vMdegps dtMs).2.actuation = .brake) :
    d.referenceDone nowUs = true ∧
      (¬(d.MayBrake ∧ h.MayBrake) ∨ InStep d h nowUs → h.referenceDone nowUs = true) := by
  cases hactive : d.trajectoryActive with
  | false =>
    have hlatched : d.pid.latchedPassiveDone = true := by
      cases hlatched : d.pid.latchedPassiveDone with
      | true => rfl
      | false =>
        rw [update_idle hactive hlatched] at hbrake
        exact absurd hbrake OnCompletion.coast_ne_brake
    refine ⟨referenceDone_of_inactive hactive, fun _ => ?_⟩
    exact referenceDone_of_inactive (hp.latched hactive hlatched)
  | true =>
    obtain ⟨hdone, hbrakes⟩ : d.referenceDone nowUs = true ∧ d.onCompletion.Brakes := by
      cases hlatched : d.pid.latchedPassiveDone with
      | true =>
        rw [(update_latched hlatched).2.1] at hbrake
        exact ⟨hd.ended hactive hlatched, hd.brakes hactive hlatched hbrake⟩
      | false =>
        rcases update_running hactive hlatched with ⟨-, hhold⟩ |
          ⟨hend, -, ⟨-, hcoast⟩ | ⟨hbrakes, -⟩⟩
        · exact absurd (hhold.symm.trans hbrake) (by decide)
        · exact absurd (hcoast.symm.trans hbrake) OnCompletion.coast_ne_brake
        · exact ⟨hend, hbrakes⟩
    refine ⟨hdone, fun hor => ?_⟩
    rcases hp.brakes ⟨hactive, hbrakes⟩ with hmay | hstill
    · have hstep := hor.resolve_left fun hnot => hnot ⟨⟨hactive, hbrakes⟩, hmay⟩
      have hstart := hp.together ⟨hactive, hbrakes⟩ hmay
      rw [referenceDone_of_active hactive] at hdone
      rw [referenceDone_of_active hmay.1]
      obtain ⟨-, hle, hend⟩ := Trajectory.done_iff.mp hdone
      have hduration := hend.resolve_left hstep.distance
      rw [hstep.duration, hstart, hstep.clocks] at hduration
      rw [hstart, hstep.clocks] at hle
      exact Trajectory.done_iff.mpr ⟨hh.finite hmay, hle, .inr hduration⟩
    · exact hstill.referenceDone hh

theorem paired_stop (nowUs : Nat) (oc : OnCompletion) (xMdeg xMdeg' : Int) :
    Paired (d.stop nowUs xMdeg oc) (h.stop nowUs xMdeg' oc) nowUs := by
  have hhalf (d h : Aggregate) (xMdeg xMdeg' : Int) :
      HalfPaired (d.stop nowUs xMdeg oc) (h.stop nowUs xMdeg' oc) := by
    unfold stop
    split
    · exact halfPaired_of_inactive rfl rfl
    · split
      · exact halfPaired_of_inactive rfl rfl
      · exact halfPaired_of_not_mayBrake rfl (not_mayBrake_driveHold d nowUs xMdeg)
  exact ⟨sound_stop d nowUs xMdeg oc, sound_stop h nowUs xMdeg' oc, hhalf .., hhalf ..⟩

end Aggregate

namespace Base

open Aggregate

variable {cfg : Settings} {db : Base} {nowUs nowUs' : Nat} {imu : Imu} {oc : OnCompletion}

/-- `Aggregate.Paired` of the axes of a drivebase. -/
def Paired (db : Base) (nowUs : Nat) : Prop := Aggregate.Paired db.distance db.heading nowUs

theorem paired_of_held {primary held : Aggregate} {xMdeg deltaMdeg vOverrideMdegps xMdeg' : Int}
    {limits : Limits} :
    Aggregate.Paired
        (armAxis cfg primary true nowUs xMdeg deltaMdeg vOverrideMdegps limits oc)
        (held.driveHold nowUs xMdeg') nowUs ∧
      ¬((armAxis cfg primary true nowUs xMdeg deltaMdeg vOverrideMdegps limits oc).MayBrake ∧
        (held.driveHold nowUs xMdeg').MayBrake) := by
  have hnot := not_mayBrake_driveHold held nowUs xMdeg'
  rw [armAxis, if_neg (by simp)]
  exact ⟨⟨sound_drivePosition, sound_driveHold held nowUs xMdeg',
    halfPaired_of_held rfl (still_driveHold held nowUs xMdeg') hnot,
    halfPaired_of_not_mayBrake rfl hnot⟩, fun h => hnot h.2⟩

theorem paired_driveStraight (distanceMm speedMmps : Int) :
    (db.driveStraight cfg nowUs imu distanceMm speedMmps oc).Paired nowUs :=
  paired_of_held.1

theorem paired_turn (angleDeg turnRateDps : Int) :
    (db.turn cfg nowUs imu angleDeg turnRateDps oc).Paired nowUs :=
  paired_of_held.1.symm

/-- Both axes move, for as long as each other where that can be had. -/
theorem paired_of_both {first second : Aggregate} {xMdeg deltaMdeg xMdeg' deltaMdeg' : Int}
    {limits limits' : Limits} {d h : Aggregate}
    (hd : d = first.drivePosition cfg nowUs xMdeg deltaMdeg limits.vMaxMdegps limits.accelMdegps2
      limits.decelMdegps2 oc)
    (hh : h = second.drivePosition cfg nowUs xMdeg' deltaMdeg' limits'.vMaxMdegps
      limits'.accelMdegps2 limits'.decelMdegps2 oc) :
    Aggregate.Paired { d with trajectory := (stretchPair d.trajectory h.trajectory).1 }
      { h with trajectory := (stretchPair d.trajectory h.trajectory).2 } nowUs := by
  obtain ⟨hwayD, hwayH⟩ := sameWay_stretchPair d.trajectory h.trajectory
  have hstartD : d.trajectory.t0Us = nowUs ∧ d.trajectory.infinite = false := by
    obtain ⟨hstart, -, -, hfinite⟩ := Trajectory.initPosition_spec nowUs
      (first.actualOrigin cfg xMdeg) (first.actualOrigin cfg xMdeg + deltaMdeg) limits.vMaxMdegps
      limits.accelMdegps2 limits.decelMdegps2
    rw [hd]
    exact ⟨hstart, hfinite⟩
  have hstartH : h.trajectory.t0Us = nowUs ∧ h.trajectory.infinite = false := by
    obtain ⟨hstart, -, -, hfinite⟩ := Trajectory.initPosition_spec nowUs
      (second.actualOrigin cfg xMdeg') (second.actualOrigin cfg xMdeg' + deltaMdeg')
      limits'.vMaxMdegps limits'.accelMdegps2 limits'.decelMdegps2
    rw [hh]
    exact ⟨hstart, hfinite⟩
  have hD := hwayD.t0Us.trans hstartD.1
  have hH := hwayH.t0Us.trans hstartH.1
  subst hd hh
  refine ⟨sound_of_armed rfl rfl (Nat.le_of_eq hD) (hwayD.infinite.trans hstartD.2),
    sound_of_armed rfl rfl (Nat.le_of_eq hH) (hwayH.infinite.trans hstartH.2), ?_, ?_⟩
  · exact halfPaired_of_same rfl rfl rfl (hD.trans hH.symm)
  · exact halfPaired_of_same rfl rfl rfl (hH.trans hD.symm)

theorem paired_driveBoth (distanceDeltaMdeg headingDeltaMdeg : Int) :
    (db.driveBoth cfg nowUs imu distanceDeltaMdeg headingDeltaMdeg oc).Paired nowUs := by
  let armed := { db with activeCommand := .curve }.latchUseGyro imu
  exact @paired_of_both _ _ _ armed.distance armed.heading
    (armed.aggState imu).distanceXMdeg distanceDeltaMdeg (armed.aggState imu).headingXMdeg
    headingDeltaMdeg (distanceLimits armed.wheelDUm)
    (headingLimits armed.wheelDUm armed.axleTUm) _ _ rfl rfl

theorem Paired.driveCurve (h : db.Paired nowUs) (radiusMm angleDeg : Int) :
    (db.driveCurve cfg nowUs imu radiusMm angleDeg oc).Paired nowUs := by
  simp only [Base.driveCurve]
  split
  · exact paired_turn angleDeg 0
  · split
    · exact h
    · split
      · exact paired_turn angleDeg 0
      · split
        · exact paired_driveStraight _ 0
        · split
          · exact h
          · exact paired_driveBoth _ _

theorem Paired.driveArcDistance (h : db.Paired nowUs) (radiusMm distanceMm : Int) :
    (db.driveArcDistance cfg nowUs imu radiusMm distanceMm oc).Paired nowUs := by
  unfold Base.driveArcDistance
  split
  · exact paired_driveStraight distanceMm 0
  · exact h.driveCurve radiusMm _

theorem not_mayBrake_driveForever (ctl : Aggregate) (nowUs : Nat)
    (originMdeg vTargetMdegps accelMdegps2 : Int) :
    (ctl.driveForever nowUs originMdeg vTargetMdegps accelMdegps2).trajectoryActive = true ∧
      ¬(ctl.driveForever nowUs originMdeg vTargetMdegps accelMdegps2).MayBrake := by
  unfold Aggregate.driveForever
  split
  · next hforever =>
    exact ⟨(Bool.and_eq_true_iff.mp hforever).1, fun h => not_brakes_coast h.2⟩
  · exact ⟨rfl, fun h => not_brakes_coast h.2⟩

theorem Paired.driveForever (h : db.Paired nowUs) (speedMmps turnRateDps : Int) :
    (db.driveForever nowUs imu speedMmps turnRateDps).Paired nowUs := by
  have haxes (db' : Base) (hd : db'.distance = db.distance) (hh : db'.heading = db.heading)
      (x v a x' v' a' : Int) : Aggregate.Paired (db'.distance.driveForever nowUs x v a)
        (db'.heading.driveForever nowUs x' v' a') nowUs := by
    rw [hd, hh]
    obtain ⟨hactive, hmay⟩ := not_mayBrake_driveForever db.distance nowUs x v a
    obtain ⟨hactive', hmay'⟩ := not_mayBrake_driveForever db.heading nowUs x' v' a'
    exact ⟨h.distance.driveForever x v a, h.heading.driveForever x' v' a',
      halfPaired_of_not_mayBrake hactive hmay, halfPaired_of_not_mayBrake hactive' hmay'⟩
  obtain ⟨hd, hh⟩ := latchUseGyro_axes db imu
  unfold Base.driveForever
  split
  · exact haxes db rfl rfl ..
  · exact haxes _ hd hh ..

theorem paired_reset (imu : Imu) (xL xR : Int) : (db.reset imu xL xR).Paired nowUs :=
  ⟨sound_of_inactive (clock_of_fresh rfl) rfl, sound_of_inactive (clock_of_fresh rfl) rfl,
    halfPaired_of_inactive rfl rfl, halfPaired_of_inactive rfl rfl⟩

theorem Paired.setUseGyro (h : db.Paired nowUs) (imu : Imu) (mode : UInt8) :
    (db.setUseGyro imu mode).Paired nowUs := by
  obtain ⟨hdistance, hheading⟩ := setUseGyro_axes db imu mode
  rw [Paired, hdistance, hheading]
  split
  · refine ⟨h.distance, sound_of_inactive (clock_of_fresh rfl) rfl, ⟨fun _ _ => rfl, ?_, ?_⟩, ?_⟩
    · exact fun _ => .inr nofun
    · exact fun _ hmay => nomatch hmay.1
    · exact ⟨fun _ hlatched => (nomatch hlatched), fun hmay => (nomatch hmay.1),
        fun hmay => (nomatch hmay.1)⟩
  · exact h

theorem Paired.update (h : db.Paired nowUs) (reading : Reading) :
    (db.update cfg nowUs imu reading).1.Paired nowUs := by
  have hgoes : Aggregate.Paired (db.tickDistance cfg nowUs imu reading).1
      (db.tickHeading cfg nowUs imu reading).1 nowUs :=
    ⟨h.distance.update, h.heading.update, h.there.update, h.back.update⟩
  rcases @update_cases cfg db nowUs imu reading with
    ⟨-, hd, hh, -⟩ | ⟨-, -, hd, hh, -⟩ | ⟨-, -, hd, hh, -⟩
  · rw [Paired, hd, hh]
    exact hgoes
  · rw [Paired, hd, hh]
    exact ⟨sound_of_inactive (clock_of_fresh rfl) rfl, sound_of_inactive (clock_of_fresh rfl) rfl,
      halfPaired_of_inactive rfl rfl, halfPaired_of_inactive rfl rfl⟩
  · rw [Paired, hd, hh]
    exact hgoes

theorem Paired.apply (h : db.Paired nowUs) (op : Op) :
    (db.apply cfg nowUs imu op).1.Paired nowUs := by
  cases op with
  | reset xL xR => exact paired_reset imu xL xR
  | setOrigin angleMdeg => exact h
  | setUseGyro mode => exact h.setUseGyro imu mode
  | driveStraight distanceMm speedMmps oc => exact paired_driveStraight distanceMm speedMmps
  | turn angleDeg turnRateDps oc => exact paired_turn angleDeg turnRateDps
  | driveCurve radiusMm angleDeg oc => exact h.driveCurve radiusMm angleDeg
  | driveArcDistance radiusMm distanceMm oc => exact h.driveArcDistance radiusMm distanceMm
  | driveForever speedMmps turnRateDps => exact h.driveForever speedMmps turnRateDps
  | stop oc => exact paired_stop nowUs oc ..
  | update reading => exact h.update reading

/-- **A tick that brakes does so at the end of an axis**, and at the end of both unless a curve
moves both. -/
theorem Paired.ends (h : db.Paired nowUs) {reading : Reading}
    (hbrake : (db.tickDistance cfg nowUs imu reading).2.actuation = .brake ∨
      (db.tickHeading cfg nowUs imu reading).2.actuation = .brake) :
    (db.distance.referenceDone nowUs = true ∨ db.heading.referenceDone nowUs = true) ∧
      (¬(db.distance.MayBrake ∧ db.heading.MayBrake) ∨ InStep db.distance db.heading nowUs →
        db.distance.referenceDone nowUs = true ∧ db.heading.referenceDone nowUs = true) := by
  rcases hbrake with hd | hh
  · obtain ⟨hdone, hother⟩ := h.there.ends h.distance h.heading hd
    exact ⟨.inl hdone, fun hor => ⟨hdone, hother hor⟩⟩
  · obtain ⟨hdone, hother⟩ := h.back.ends h.heading h.distance hh
    refine ⟨.inr hdone, fun hor => ⟨hother ?_, hdone⟩⟩
    rcases hor with hnot | hstep
    · exact .inl fun hboth => hnot hboth.symm
    · exact .inr hstep.symm

end Base

/-! ## Runs -/

/-- A wheel is left to coast, or braked. -/
def SomePassive (actions : List (Side × Action)) : Prop :=
  ∃ action ∈ actions, action.2 = .coast ∨ action.2 = .brake

instance (actions : List (Side × Action)) : Decidable (SomePassive actions) :=
  inferInstanceAs (Decidable (∃ action ∈ actions, action.2 = .coast ∨ action.2 = .brake))

def Op.Undisturbed : Op → Prop
  | .update reading => reading.reclaimPending = false ∧ reading.reclaimAfter = false
  | _ => False

def Op.Drives : Op → Prop
  | .driveStraight .. | .turn .. | .driveCurve .. | .driveArcDistance .. => True
  | _ => False

/-- The references of the distance and of the heading are at their ends. -/
def DistanceDone (s : State) (e : Event) : Prop :=
  s.db.distance.referenceDone (s.nowUs + e.elapsedUs) = true

def HeadingDone (s : State) (e : Event) : Prop :=
  s.db.heading.referenceDone (s.nowUs + e.elapsedUs) = true

/-- Both axes are under way with BRAKE or BRAKE_SMART, which only a curve or an arc makes them
be. -/
def BothMayBrake (s : State) : Prop := s.db.distance.MayBrake ∧ s.db.heading.MayBrake

/-- The wheels are made passive at the end of an axis only, and at the end of both unless both may
brake and are not in step. -/
def EndsWhole (cfg : Settings) (s : State) (e : Event) : Prop :=
  e.op.Undisturbed → SomePassive ((machine cfg).step s e).2 →
    (DistanceDone s e ∨ HeadingDone s e) ∧
      (¬BothMayBrake s ∨
          Aggregate.InStep s.db.distance s.db.heading (s.nowUs + e.elapsedUs) →
        DistanceDone s e ∧ HeadingDone s e)

variable {cfg : Settings}

theorem not_somePassive_duty {left right : Int} :
    ¬SomePassive ([(.left, .duty left), (.right, .duty right)] ++ []) := by
  rintro ⟨action, hmem, hor⟩
  simp only [append_nil, mem_cons, not_mem_nil, or_false] at hmem
  rcases hmem with rfl | rfl <;> rcases hor with h | h <;> cases h

theorem endsWhole_of_paired {s : State} {e : Event} (h : s.db.Paired s.nowUs) :
    EndsWhole cfg s e := by
  obtain ⟨elapsedUs, imu, op⟩ := e
  intro htick hpassive
  cases op with
  | update reading =>
    have hlater : s.db.Paired (s.nowUs + elapsedUs) := h.mono (Nat.le_add_right _ _)
    rcases @Base.update_cases cfg s.db (s.nowUs + elapsedUs) imu reading with ⟨hlost, -⟩ |
        ⟨-, hbrake, -⟩ | ⟨-, -, -, -, left, right, hactions⟩
    · exact absurd (hlost.symm.trans htick.1) (by decide)
    · rcases @Base.propagate_cases ((s.db.tickDistance cfg (s.nowUs + elapsedUs) imu reading).2)
          ((s.db.tickHeading cfg (s.nowUs + elapsedUs) imu reading).2) with
        ⟨-, -, -, haxis⟩ | ⟨hnone, -⟩
      · exact hlater.ends haxis
      · exact absurd (hbrake.symm.trans hnone) (by decide)
    · rw [htick.2] at hactions
      have hpassive' : SomePassive (s.db.update cfg (s.nowUs + elapsedUs) imu reading).2 := hpassive
      rw [hactions] at hpassive'
      exact absurd hpassive' not_somePassive_duty
  | _ => exact htick.elim

/-- **Moves end whole**, in every run of a drivebase. -/
theorem endsWhole_of_init {wheelDUm axleTUm tickMs nowUs : Nat} {db : Base}
    (hinit : Base.init wheelDUm axleTUm tickMs = .ok db) (es : List Event) :
    (machine cfg).Throughout (EndsWhole cfg) ⟨db, nowUs⟩ es := by
  have hstep : ∀ (s : State) (e : Event), s.db.Paired s.nowUs → True →
      EndsWhole cfg s e ∧ ((machine cfg).step s e).1.db.Paired
        ((machine cfg).step s e).1.nowUs := by
    intro s e h _
    have hlater : s.db.Paired (s.nowUs + e.elapsedUs) := h.mono (Nat.le_add_right _ _)
    exact ⟨endsWhole_of_paired h, hlater.apply e.op⟩
  refine (machine cfg).throughout_of_invariant hstep ?_
    ((machine cfg).throughout_of_forall (fun _ _ _ => trivial) _)
  unfold Base.init at hinit
  split at hinit
  · cases hinit
  · cases hinit
    exact ⟨Aggregate.sound_of_inactive (Aggregate.clock_of_fresh rfl) rfl,
      Aggregate.sound_of_inactive (Aggregate.clock_of_fresh rfl) rfl,
      Aggregate.halfPaired_of_inactive rfl rfl, Aggregate.halfPaired_of_inactive rfl rfl⟩

/-- The drivebase stands where the heading of a quarter of a circle ends. -/
def turned : Base.Reading where
  left := ⟨200000, 0⟩
  right := ⟨560000, 0⟩

def turnedTick (elapsedUs : Nat) : Event := { elapsedUs := elapsedUs, op := .update turned }

/-- The ticks of a quarter of a circle until the heading has almost been at its end for long
enough. -/
def turnedTicks : List Event := turnedTick 1100000 :: List.replicate 23 (turnedTick 2000)

theorem endsWhole_booted :
    (machine .defaults).Throughout (EndsWhole .defaults) .booted
      ({ op := .driveCurve 150 90 .brake } :: turnedTicks ++ [turnedTick 2000]) :=
  endsWhole_of_init init_booted _

/-- A curve is cut short by the axis that ends first. -/
theorem curve_cut_short :
    ¬∀ (cfg : Settings) (wheelDUm axleTUm tickMs nowUs : Nat) (db : Base) (before : List Event)
      (e : Event) (es : List Event), Base.init wheelDUm axleTUm tickMs = .ok db → e.op.Drives →
      (∀ e ∈ es, e.op.Undisturbed) →
      (machine cfg).Throughout
        (fun s e => SomePassive ((machine cfg).step s e).2 → DistanceDone s e ∧ HeadingDone s e)
        ((machine cfg).step ((machine cfg).run ⟨db, nowUs⟩ before) e).1 es := by
  intro h
  have hticks : ∀ e ∈ turnedTicks ++ [turnedTick 2000], e.op.Undisturbed := by
    intro e he
    simp only [turnedTicks, cons_append, mem_cons, mem_append, mem_replicate,
      not_mem_nil, or_false] at he
    rcases he with rfl | ⟨-, rfl⟩ | rfl <;> exact ⟨rfl, rfl⟩
  have hrun := h .defaults 56000 112000 2 0 State.booted.db [] { op := .driveCurve 150 90 .brake }
    (turnedTicks ++ [turnedTick 2000]) init_booted trivial hticks
  rw [Machine.throughout_append] at hrun
  have hdone := (hrun.2.1 (by decide +kernel)).1
  exact absurd hdone (by unfold DistanceDone; decide +kernel)

end Brickwright.Drivebase
