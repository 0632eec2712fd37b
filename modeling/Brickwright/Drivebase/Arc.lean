import Brickwright.Drivebase.Base
import Brickwright.Drivebase.Conversions

/-!
# An arc of a given length

`db_drivebase_drive_arc_distance` goes through `db_drivebase_drive_curve`, whose arcs are given by
their angle in whole degrees. So the length becomes an angle in thousandths of a degree, which is
cut down to degrees, and then a length again; and when nothing is left of it, nothing moves.

`plan` is what is computed before the axes are armed, with every operation checked, and
`armed_driveArcDistance` says that the axes are armed with it. How far the arc is from the requested
one is in `travels_iff`.
-/

namespace Brickwright.Drivebase

open Checked

/-! ## The plan -/

/-- What an arc becomes: its angle, its length, and the ways of the two axes. -/
structure ArcPlan where
  angleDeg : Int
  travelMm : Int
  distanceMdeg : Int
  headingMdeg : Int
  deriving DecidableEq, Repr

/-- `angle_mdeg / 1000` of `db_drivebase_drive_arc_distance`. -/
def arcAngleDeg (radiusMm distanceMm : Int) : Option Int := do
  let scaled ← int64 ((← int64 ((← int64 (distanceMm * 1000)) * 180)) * 113)
  let angleMdeg ← int32 (← quot scaled (← int64 (radiusMm * 355)))
  some (angleMdeg.tdiv 1000)

/-- `dl_avg_mm` of `db_drivebase_drive_curve`. -/
def curveTravelMm (radiusMm angleDeg : Int) : Option Int := do
  let arc ← int64 ((← int64 (radiusMm * angleDeg)) * 355)
  int32 (← quot (← quot arc 113) 180)

/-- `db_angle_heading_mdeg_to_state_mdeg`. -/
def curveHeadingMdeg (angleDeg : Int) (wheelDUm axleTUm : Nat) : Option Int := do
  let headingMdeg ← int64 (angleDeg * 1000)
  if wheelDUm = 0 then some 0 else quot (← int64 (headingMdeg * axleTUm)) wheelDUm

/-- What the two functions compute of an arc before they arm the axes. -/
def arcPlan (wheelDUm axleTUm : Nat) (radiusMm distanceMm : Int) : Option ArcPlan := do
  let angleDeg ← arcAngleDeg radiusMm distanceMm
  let travelMm ← curveTravelMm radiusMm angleDeg
  let distanceMdeg ← Angle.mmToMdeg travelMm wheelDUm
  let headingMdeg ← curveHeadingMdeg angleDeg wheelDUm axleTUm
  some ⟨angleDeg, travelMm, distanceMdeg, headingMdeg⟩

/-- An arc over this many degrees, and this length, are the requested travel but for the rounding of
a millimetre. An arc of `angleDeg` degrees is `355 * radiusMm * angleDeg / 20340` long. -/
structure ArcPlan.Travels (radiusMm distanceMm : Int) (p : ArcPlan) : Prop where
  length : (p.travelMm - distanceMm).natAbs ≤ 1
  heading : (355 * radiusMm * p.angleDeg - 20340 * distanceMm).natAbs ≤ 20340

namespace ArcPlan

variable {wheelDUm axleTUm : Nat} {radiusMm distanceMm angleDeg travelMm mdeg : Int} {p : ArcPlan}

/-! ## What is computed -/

theorem arcAngleDeg_eq (h : arcAngleDeg radiusMm distanceMm = some angleDeg) :
    (toInt32 ((distanceMm * 1000 * 180 * 113).tdiv (radiusMm * 355))).tdiv 1000 = angleDeg ∧
      angleDeg = (20340 * distanceMm).tdiv (355 * radiusMm) := by
  simp only [arcAngleDeg, Option.bind_eq_bind, Option.bind_eq_some_iff, Option.some.injEq] at h
  obtain ⟨x, hx, y, hy, z, hz, w, hw, v, hv, u, hu, hangle⟩ := h
  obtain rfl := of_int64 hx
  obtain rfl := of_int64 hy
  obtain rfl := of_int64 hz
  obtain rfl := of_int64 hw
  obtain rfl := of_quot hv
  obtain ⟨rfl, hfits⟩ := of_int32 hu
  rw [toInt32_of_fits hfits]
  refine ⟨hangle, ?_⟩
  rw [← hangle, tdiv_tdiv,
    show distanceMm * 1000 * 180 * 113 = 1000 * (20340 * distanceMm) by ring,
    show radiusMm * 355 * 1000 = 1000 * (355 * radiusMm) by ring,
    Int.mul_tdiv_mul_of_pos _ _ (by decide)]

theorem curveTravelMm_eq (h : curveTravelMm radiusMm angleDeg = some travelMm) :
    toInt32 (((radiusMm * angleDeg * 355).tdiv 113).tdiv 180) = travelMm ∧
      travelMm = (355 * radiusMm * angleDeg).tdiv 20340 := by
  simp only [curveTravelMm, Option.bind_eq_bind, Option.bind_eq_some_iff] at h
  obtain ⟨x, hx, y, hy, z, hz, w, hw, htravel⟩ := h
  obtain rfl := of_int64 hx
  obtain rfl := of_int64 hy
  obtain rfl := of_quot hz
  obtain rfl := of_quot hw
  obtain ⟨rfl, hfits⟩ := of_int32 htravel
  refine ⟨toInt32_of_fits hfits, ?_⟩
  rw [tdiv_tdiv, show radiusMm * angleDeg * 355 = 355 * radiusMm * angleDeg by ring]
  rfl

theorem curveHeadingMdeg_eq (h : curveHeadingMdeg angleDeg wheelDUm axleTUm = some mdeg) :
    headingMdegToStateMdeg (angleDeg * 1000) wheelDUm axleTUm = mdeg := by
  simp only [curveHeadingMdeg, Option.bind_eq_bind, Option.bind_eq_some_iff] at h
  obtain ⟨x, hx, hrest⟩ := h
  obtain rfl := of_int64 hx
  unfold headingMdegToStateMdeg
  split at hrest
  · next hwheel =>
    rw [if_pos hwheel]
    exact Option.some.inj hrest
  · next hwheel =>
    rw [if_neg hwheel]
    rw [Option.bind_eq_some_iff] at hrest
    obtain ⟨y, hy, hquot⟩ := hrest
    obtain rfl := of_int64 hy
    exact of_quot hquot

/-- What an arc becomes, as the two functions compute it, and what its angle and its length are. -/
theorem arcPlan_eq (h : arcPlan wheelDUm axleTUm radiusMm distanceMm = some p) :
    arcAngleDeg radiusMm distanceMm = some p.angleDeg ∧
      curveTravelMm radiusMm p.angleDeg = some p.travelMm ∧
      mmToMdeg p.travelMm wheelDUm = p.distanceMdeg ∧
      headingMdegToStateMdeg (p.angleDeg * 1000) wheelDUm axleTUm = p.headingMdeg := by
  simp only [arcPlan, Option.bind_eq_bind, Option.bind_eq_some_iff, Option.some.injEq] at h
  obtain ⟨angleDeg, hangle, travelMm, htravel, distance, hdistance, heading, hheading, rfl⟩ := h
  exact ⟨hangle, htravel, Angle.of_mmToMdeg hdistance, curveHeadingMdeg_eq hheading⟩

/-! ## How far it is from the requested travel -/

/-- **An arc is short of the requested travel by what is left of its angle**, and its length is cut
down to millimetres too. -/
theorem travels_iff (h : arcPlan wheelDUm axleTUm radiusMm distanceMm = some p) :
    Travels radiusMm distanceMm p ↔
      20340 * distanceMm.natAbs % (355 * radiusMm.natAbs) ≤ 20340 := by
  obtain ⟨hangle, htravel, -, -⟩ := arcPlan_eq h
  have hdegrees := (arcAngleDeg_eq hangle).2
  have hlength := (curveTravelMm_eq htravel).2
  -- What is left of the angle has the sign of the distance.
  have hwhole := Int.mul_tdiv_add_tmod (20340 * distanceMm) (355 * radiusMm)
  rw [← hdegrees] at hwhole
  have habs : ((20340 * distanceMm).tmod (355 * radiusMm)).natAbs =
      20340 * distanceMm.natAbs % (355 * radiusMm.natAbs) := by
    rw [Int.natAbs_tmod, Int.natAbs_mul, Int.natAbs_mul]
    rfl
  rw [← habs]
  generalize hleft : (20340 * distanceMm).tmod (355 * radiusMm) = left at hwhole habs ⊢
  generalize harc : 355 * radiusMm * p.angleDeg = arc at hwhole hlength
  have hle : left.natAbs ≤ 20340 * distanceMm.natAbs := by
    rw [habs]
    exact Nat.mod_le _ _
  have hshort : (p.travelMm - distanceMm).natAbs ≤ 1 ↔ left.natAbs ≤ 20340 := by
    rcases Int.le_total 0 distanceMm with hsign | hsign
    · have hnonneg : 0 ≤ left := hleft ▸ Int.tmod_nonneg _ (by omega)
      rw [hlength, Int.tdiv_eq_ediv_of_nonneg (by omega)]
      omega
    · have hnonneg : 0 ≤ -left := by
        rw [← hleft, ← Int.neg_tmod]
        exact Int.tmod_nonneg _ (by omega)
      rw [hlength, ← Int.neg_neg arc, Int.neg_tdiv, Int.tdiv_eq_ediv_of_nonneg (by omega)]
      omega
  constructor
  · intro htravels
    exact hshort.mp htravels.length
  · intro hsmall
    refine ⟨hshort.mpr hsmall, ?_⟩
    rw [show 355 * radiusMm * p.angleDeg - 20340 * distanceMm = -left by omega, Int.natAbs_neg]
    exact hsmall

end ArcPlan

/-! ## What is armed -/

/-- How far the reference of an axis is to go. -/
def Aggregate.way (ctl : Aggregate) : Int := ctl.trajectory.x1Mdeg - ctl.trajectory.x0Mdeg

namespace Base

variable {cfg : Settings} {db db' : Base} {nowUs : Nat} {imu : Imu} {oc : OnCompletion}

/-- Both axes are armed for their ways; when neither has one, the command has not changed them. -/
def Armed (db db' : Base) (distanceMdeg headingMdeg : Int) : Prop :=
  (distanceMdeg = 0 ∧ headingMdeg = 0 ∧ db'.distance = db.distance ∧ db'.heading = db.heading) ∨
    (db'.distance.trajectoryActive = true ∧ db'.distance.way = distanceMdeg ∧
      db'.heading.trajectoryActive = true ∧ db'.heading.way = headingMdeg)

theorem way_drivePosition (ctl : Aggregate) (x delta v a d : Int) :
    (ctl.drivePosition cfg nowUs x delta v a d oc).way = delta := by
  obtain ⟨-, hx0, hx1, -⟩ := Trajectory.initPosition_spec nowUs (ctl.actualOrigin cfg x)
    (ctl.actualOrigin cfg x + delta) v a d
  show Trajectory.x1Mdeg _ - Trajectory.x0Mdeg _ = delta
  simp only [Aggregate.drivePosition, hx0, hx1]
  omega

theorem way_driveHold (ctl : Aggregate) (x : Int) : (ctl.driveHold nowUs x).way = 0 := by
  obtain ⟨-, hx0, hx1, -⟩ := Trajectory.initPosition_spec nowUs x x 1 1 1
  show Trajectory.x1Mdeg _ - Trajectory.x0Mdeg _ = 0
  simp only [Aggregate.driveHold, hx0, hx1]
  omega

/-- An axis is armed for its way, and one that is not what the move is about is held without one. -/
theorem armAxis_way (ctl : Aggregate) (primary : Bool) (x delta v : Int) (limits : Limits) :
    (armAxis cfg ctl primary nowUs x delta v limits oc).trajectoryActive = true ∧
      (armAxis cfg ctl primary nowUs x delta v limits oc).way = delta := by
  unfold armAxis
  split
  · next hheld =>
    refine ⟨rfl, ?_⟩
    rw [way_driveHold, hheld.1]
  · exact ⟨rfl, way_drivePosition ctl x delta _ _ _⟩

theorem armed_setupPositionMove (db db' : Base) (distance heading v w : Int) (primary : Axis) :
    Armed db' (db.setupPositionMove cfg nowUs imu distance heading v w primary oc) distance
      heading := by
  obtain ⟨hdactive, hdway⟩ := @armAxis_way cfg nowUs oc
    (db.latchUseGyro imu).distance (primary == .distance)
    ((db.latchUseGyro imu).aggState imu).distanceXMdeg distance v
    (distanceLimits (db.latchUseGyro imu).wheelDUm)
  obtain ⟨hhactive, hhway⟩ := @armAxis_way cfg nowUs oc
    (db.latchUseGyro imu).heading (primary == .heading)
    ((db.latchUseGyro imu).aggState imu).headingXMdeg heading w
    (headingLimits (db.latchUseGyro imu).wheelDUm (db.latchUseGyro imu).axleTUm)
  exact .inr ⟨hdactive, hdway, hhactive, hhway⟩

theorem armed_driveBoth (db db' : Base) (distance heading : Int) :
    Armed db' (db.driveBoth cfg nowUs imu distance heading oc) distance heading := by
  simp only [driveBoth]
  generalize ({ db with activeCommand := .curve }.latchUseGyro imu) = latched
  have hdway := @way_drivePosition cfg nowUs oc latched.distance
    (latched.aggState imu).distanceXMdeg distance (distanceLimits latched.wheelDUm).vMaxMdegps
    (distanceLimits latched.wheelDUm).accelMdegps2 (distanceLimits latched.wheelDUm).decelMdegps2
  have hhway := @way_drivePosition cfg nowUs oc latched.heading
    (latched.aggState imu).headingXMdeg heading
    (headingLimits latched.wheelDUm latched.axleTUm).vMaxMdegps
    (headingLimits latched.wheelDUm latched.axleTUm).accelMdegps2
    (headingLimits latched.wheelDUm latched.axleTUm).decelMdegps2
  generalize hd : Aggregate.drivePosition cfg latched.distance nowUs _ distance _ _ _ oc = d
    at hdway ⊢
  generalize hh : Aggregate.drivePosition cfg latched.heading nowUs _ heading _ _ _ oc = h
    at hhway ⊢
  obtain ⟨hd', hh'⟩ := sameWay_stretchPair d.trajectory h.trajectory
  refine .inr ⟨by rw [← hd]; rfl, ?_, by rw [← hh]; rfl, ?_⟩
  · rw [← hdway]
    exact congrArg₂ (· - ·) hd'.x1Mdeg hd'.x0Mdeg
  · rw [← hhway]
    exact congrArg₂ (· - ·) hh'.x1Mdeg hh'.x0Mdeg

theorem armed_turn (db db' : Base) (angleDeg turnRateDps : Int) :
    Armed db' (db.turn cfg nowUs imu angleDeg turnRateDps oc) 0
      (headingMdegToStateMdeg (angleDeg * 1000) db.wheelDUm db.axleTUm) :=
  armed_setupPositionMove { db with activeCommand := .turn } db' _ _ _ _ _

theorem armed_driveStraight (db db' : Base) (distanceMm speedMmps : Int) :
    Armed db' (db.driveStraight cfg nowUs imu distanceMm speedMmps oc)
      (mmToMdeg distanceMm db.wheelDUm) 0 :=
  armed_setupPositionMove { db with activeCommand := .straight } db' _ _ _ _ _

theorem mmToMdeg_zero (wheelDUm : Nat) : mmToMdeg 0 wheelDUm = 0 := by
  unfold mmToMdeg
  split
  · rfl
  · next hwheel =>
    have hzero : divRound (0 * 360000000) wheelDUm = 0 := by
      exact Rounding.nearest_eq (by omega) (by omega) (by omega)
    simp only [hzero]
    decide

theorem headingMdegToStateMdeg_zero (wheelDUm axleTUm : Nat) :
    headingMdegToStateMdeg (0 * 1000) wheelDUm axleTUm = 0 := by
  unfold headingMdegToStateMdeg
  simp

/-- **A curve arms both axes** for the length of its arc and for its angle. -/
theorem armed_driveCurve (db : Base) {radiusMm angleDeg travelMm : Int} (hradius : radiusMm ≠ 0)
    (htravel : curveTravelMm radiusMm angleDeg = some travelMm) :
    Armed db (db.driveCurve cfg nowUs imu radiusMm angleDeg oc) (mmToMdeg travelMm db.wheelDUm)
      (headingMdegToStateMdeg (angleDeg * 1000) db.wheelDUm db.axleTUm) := by
  obtain ⟨hcast, hlength⟩ := ArcPlan.curveTravelMm_eq htravel
  rw [driveCurve, if_neg hradius]
  split
  · next hangle =>
    -- no degree is left of the arc
    rw [hangle, Int.mul_zero, Int.zero_tdiv] at hlength
    rw [hlength, hangle, mmToMdeg_zero, headingMdegToStateMdeg_zero]
    exact .inl ⟨rfl, rfl, rfl, rfl⟩
  · simp only [hcast]
    split
    · next hturn =>
      rw [hturn.1]
      exact armed_turn db db angleDeg 0
    · split
      · next hstraight =>
        rw [hstraight.1]
        exact armed_driveStraight db db travelMm 0
      · split
        · next hnone =>
          rw [hnone.1, hnone.2]
          exact .inl ⟨rfl, rfl, rfl, rfl⟩
        · exact armed_driveBoth db db _ _

theorem armed_driveArcDistance (db : Base) {radiusMm distanceMm : Int} {p : ArcPlan}
    (hradius : radiusMm ≠ 0) (hplan : arcPlan db.wheelDUm db.axleTUm radiusMm distanceMm = some p) :
    Armed db (db.driveArcDistance cfg nowUs imu radiusMm distanceMm oc) p.distanceMdeg
      p.headingMdeg := by
  obtain ⟨hangle, htravel, hdistance, hheading⟩ := ArcPlan.arcPlan_eq hplan
  rw [driveArcDistance, if_neg hradius, ← hdistance, ← hheading]
  simp only [(ArcPlan.arcAngleDeg_eq hangle).1]
  exact armed_driveCurve db hradius htravel

/-- **An arc of a given length** is driven as it is planned. The plan is the requested travel, but
for the rounding of a millimetre, when the travel is a whole number of degrees on its radius, or a
millimetre longer at most. -/
theorem driveArcDistance_travels (cfg : Settings) (db : Base) (nowUs : Nat) (imu : Imu)
    (oc : OnCompletion) {radiusMm distanceMm : Int} {p : ArcPlan} (hradius : radiusMm ≠ 0)
    (hplan : arcPlan db.wheelDUm db.axleTUm radiusMm distanceMm = some p) :
    Armed db (db.driveArcDistance cfg nowUs imu radiusMm distanceMm oc) p.distanceMdeg
        p.headingMdeg ∧
      p.distanceMdeg = mmToMdeg p.travelMm db.wheelDUm ∧
      p.headingMdeg = headingMdegToStateMdeg (p.angleDeg * 1000) db.wheelDUm db.axleTUm ∧
      (ArcPlan.Travels radiusMm distanceMm p ↔
        20340 * distanceMm.natAbs % (355 * radiusMm.natAbs) ≤ 20340) := by
  obtain ⟨-, -, hdistance, hheading⟩ := ArcPlan.arcPlan_eq hplan
  exact ⟨armed_driveArcDistance db hradius hplan, hdistance.symm, hheading.symm,
    ArcPlan.travels_iff hplan⟩

theorem driveArcDistance_travels_500 :
    Armed State.booted.db (State.booted.db.driveArcDistance .defaults 0 {} 50 500 .brake)
        1021093 1144000 ∧
      1021093 = mmToMdeg 499 56000 ∧
      1144000 = headingMdegToStateMdeg (572 * 1000) 56000 112000 ∧
      (ArcPlan.Travels 50 500 ⟨572, 499, 1021093, 1144000⟩ ↔
        20340 * (500 : Int).natAbs % (355 * (50 : Int).natAbs) ≤ 20340) :=
  @driveArcDistance_travels .defaults State.booted.db 0 {} .brake 50 500
    ⟨572, 499, 1021093, 1144000⟩ (by decide) (by decide)

/-- Asked for 34 mm on a radius of a metre, the drivebase drives a degree, which is 17 mm. -/
theorem arc_of_34 :
    ∃ p, arcPlan 56000 112000 1000 34 = some p ∧ p.angleDeg = 1 ∧ p.travelMm = 17 ∧
      Armed State.booted.db (State.booted.db.driveArcDistance .defaults 0 {} 1000 34 .brake)
        (mmToMdeg 17 56000) (headingMdegToStateMdeg (1 * 1000) 56000 112000) ∧
      ¬ArcPlan.Travels 1000 34 p := by
  refine ⟨⟨1, 17, 34787, 2000⟩, by decide, rfl, rfl, ?_, ?_⟩
  · exact armed_driveArcDistance (p := ⟨1, 17, 34787, 2000⟩) State.booted.db (by decide)
      (by decide)
  · intro h
    exact absurd h.length (by decide)

end Base

end Brickwright.Drivebase
