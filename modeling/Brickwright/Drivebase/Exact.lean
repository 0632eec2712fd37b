import Brickwright.Drivebase.Trajectory
import Brickwright.Motion.Ramps

/-!
# Trajectories in exact arithmetic

`db_trajectory_init_position` and `db_trajectory_get_reference` once more, without the conversions
to 32 and 64 bits: what the formulas of `drivebase_trajectory.c` say where nothing wraps. The bound
of `triangle_peak` stays, as it is a branch and not a conversion.

* `follows_initPosition` — a planned move is a `Motion.Profile`.
* `reference_of_follows` — the reference reads its position and its speed off the profile.
-/

namespace Brickwright.Drivebase.Exact

open Motion

def dxFromV (vMdegps : Int) (dtUs : Nat) : Int := (vMdegps * dtUs).tdiv usPerS

def dxFromA (aMdegps2 : Int) (dtUs : Nat) : Int :=
  (aMdegps2 * dtUs * dtUs).tdiv (2 * (usPerS * usPerS))

def vFromA (aMdegps2 : Int) (dtUs : Nat) : Int := (aMdegps2 * dtUs).tdiv usPerS

def dtToReachV (vMdegps aMdegps2 : Int) : Nat :=
  if aMdegps2 ≤ 0 then 0 else ((vMdegps * usPerS).tdiv aMdegps2).toNat

def trianglePeak (dTotalMdeg : Nat) (a d : Int) : Int :=
  if a ≤ 0 ∨ d ≤ 0 then 0
  else
    let den := a.toNat + d.toNat
    let k := 2 * a.toNat * d.toNat / den
    if k = 0 then 0
    else if dTotalMdeg > 18446744073709551615 / k then int32Max
    else
      let v2 := dTotalMdeg * k
      let hi := if v2 < 2147483648 then 2147483648 else 4294967296
      isqrt v2 64 0 hi 0

/-- The peak speed of a move and how long its parts take: it speeds up, cruises, slows down. -/
structure Phases where
  vPeak : Int
  accelDt : Nat
  cruiseDt : Nat
  decelDt : Nat

/-- The two branches of `db_trajectory_init_position`. -/
def phases (dAbs : Nat) (vPeakMdegps accel decel : Int) : Phases :=
  let dAccel := (vPeakMdegps * vPeakMdegps).toNat / (2 * accel.toNat)
  let dDecel := (vPeakMdegps * vPeakMdegps).toNat / (2 * decel.toNat)
  if dAccel + dDecel ≥ dAbs then
    let vTri := trianglePeak dAbs accel decel
    ⟨vTri, dtToReachV vTri accel, 0, dtToReachV vTri decel⟩
  else
    let dCruise := dAbs - dAccel - dDecel
    ⟨vPeakMdegps, dtToReachV vPeakMdegps accel, dCruise * usPerS / vPeakMdegps.toNat,
      dtToReachV vPeakMdegps decel⟩

/-- `db_trajectory_init_position`. -/
def initPosition (t0Us : Nat) (x0Mdeg x1Mdeg vPeakMdegps accelMdegps2 decelMdegps2 : Int) :
    Trajectory :=
  let accel := if accelMdegps2 > 0 then accelMdegps2 else 1
  let decel := if decelMdegps2 > 0 then decelMdegps2 else accel
  let delta := x1Mdeg - x0Mdeg
  if delta = 0 ∨ vPeakMdegps ≤ 0 then
    { t0Us := t0Us, x0Mdeg := x0Mdeg, x1Mdeg := x1Mdeg
      accelMdegps2 := accel, decelMdegps2 := decel
      xAccelEndMdeg := x0Mdeg, xCruiseEndMdeg := x0Mdeg }
  else
    let direction := if delta > 0 then 1 else -1
    let dAbs := (delta * direction).toNat
    let ⟨vPeak, accelDt, cruiseDt, decelDt⟩ := phases dAbs vPeakMdegps accel decel
    let xOffAccel := dxFromA accel accelDt
    let xOffCruise := xOffAccel + dxFromV vPeak cruiseDt
    { t0Us := t0Us, x0Mdeg := x0Mdeg, x1Mdeg := x1Mdeg
      vPeakMdegps := vPeak, accelMdegps2 := accel, decelMdegps2 := decel
      direction := direction
      accelDtUs := accelDt, cruiseDtUs := cruiseDt, decelDtUs := decelDt
      totalDtUs := accelDt + cruiseDt + decelDt
      xAccelEndMdeg := x0Mdeg + direction * xOffAccel
      xCruiseEndMdeg := x0Mdeg + direction * xOffCruise }

/-- `db_trajectory_get_reference`. -/
def getReference (tr : Trajectory) (tUs : Nat) : Ref :=
  if tUs < tr.t0Us then ⟨tr.x0Mdeg, 0, 0, false⟩
  else
    let dt := tUs - tr.t0Us
    if tr.direction = 0 then ⟨tr.x0Mdeg, 0, 0, !tr.infinite⟩
    else if dt < tr.accelDtUs then
      ⟨tr.x0Mdeg + tr.direction * dxFromA tr.accelMdegps2 dt,
        tr.direction * vFromA tr.accelMdegps2 dt, tr.direction * tr.accelMdegps2, false⟩
    else if tr.infinite then
      ⟨tr.xAccelEndMdeg + tr.direction * dxFromV tr.vPeakMdegps (dt - tr.accelDtUs),
        tr.direction * tr.vPeakMdegps, 0, false⟩
    else
      let cruiseEndDt := tr.accelDtUs + tr.cruiseDtUs
      if dt < cruiseEndDt then
        ⟨tr.xAccelEndMdeg + tr.direction * dxFromV tr.vPeakMdegps (dt - tr.accelDtUs),
          tr.direction * tr.vPeakMdegps, 0, false⟩
      else if dt < tr.totalDtUs then
        let dtInDecel := dt - cruiseEndDt
        let vAbs := tr.vPeakMdegps - vFromA tr.decelMdegps2 dtInDecel
        let vAbs := if vAbs < 0 then 0 else vAbs
        let dxAbs := dxFromV tr.vPeakMdegps dtInDecel - dxFromA tr.decelMdegps2 dtInDecel
        ⟨tr.xCruiseEndMdeg + tr.direction * dxAbs, tr.direction * vAbs,
          -tr.direction * tr.decelMdegps2, false⟩
      else ⟨tr.x1Mdeg, 0, 0, true⟩

/-! ## The pieces -/

section

variable {v a d : Int} {dt : Nat}

theorem dxFromV_eq_way (hv : 0 ≤ v) : dxFromV v dt = way usPerS v dt :=
  Int.tdiv_eq_ediv_of_nonneg (mul_nonneg hv (Int.natCast_nonneg dt))

theorem dxFromA_eq_rise (ha : 0 ≤ a) : dxFromA a dt = rise usPerS a dt :=
  Int.tdiv_eq_ediv_of_nonneg
    (mul_nonneg (mul_nonneg ha (Int.natCast_nonneg dt)) (Int.natCast_nonneg dt))

theorem vFromA_eq_way (ha : 0 ≤ a) : vFromA a dt = way usPerS a dt :=
  Int.tdiv_eq_ediv_of_nonneg (mul_nonneg ha (Int.natCast_nonneg dt))

theorem mul_dtToReachV_le (hv : 0 ≤ v) (ha : 0 < a) : a * dtToReachV v a ≤ v * usPerS := by
  have hnum : 0 ≤ v * usPerS := mul_nonneg hv (by decide)
  have hquot : 0 ≤ v * usPerS / a := Int.ediv_nonneg hnum ha.le
  rw [dtToReachV, if_neg ha.not_ge, Int.tdiv_eq_ediv_of_nonneg hnum, Int.toNat_of_nonneg hquot,
    mul_comm]
  exact Int.ediv_mul_le _ ha.ne'

theorem isqrt_mul_self_le {v2 : Nat} (fuel lo hi : Nat) {r : Nat} (h : r * r ≤ v2) :
    isqrt v2 fuel lo hi r * isqrt v2 fuel lo hi r ≤ v2 := by
  induction fuel generalizing lo hi r with
  | zero => exact h
  | succ fuel ih =>
    rw [isqrt]
    split
    · simp only
      split
      next hmid => exact ih _ _ hmid
      · exact ih _ _ h
    · exact h

/-- A move without cruise turns at a speed from which both ramps are not too long. -/
theorem trianglePeak_spec (dTotal : Nat) (ha : 0 < a) (hd : 0 < d) :
    0 ≤ trianglePeak dTotal a d ∧
      trianglePeak dTotal a d * trianglePeak dTotal a d * (a + d) ≤ 2 * a * d * dTotal := by
  obtain ⟨m, rfl⟩ := Int.eq_ofNat_of_zero_le ha.le
  obtain ⟨n, rfl⟩ := Int.eq_ofNat_of_zero_le hd.le
  have hroot : ∀ {r : Nat}, r * r ≤ dTotal * (2 * m * n / (m + n)) →
      (r : Int) * r * (m + n) ≤ 2 * m * n * dTotal := by
    intro r hr
    have hk : 2 * m * n / (m + n) * (m + n) ≤ 2 * m * n := Nat.div_mul_le_self _ _
    have hle : r * r * (m + n) ≤ 2 * m * n * dTotal := by
      calc r * r * (m + n) ≤ dTotal * (2 * m * n / (m + n)) * (m + n) :=
            Nat.mul_le_mul_right _ hr
        _ = dTotal * (2 * m * n / (m + n) * (m + n)) := Nat.mul_assoc _ _ _
        _ ≤ dTotal * (2 * m * n) := Nat.mul_le_mul_left _ hk
        _ = 2 * m * n * dTotal := Nat.mul_comm _ _
    exact_mod_cast hle
  rw [trianglePeak, if_neg (by omega)]
  simp only [Int.toNat_natCast]
  split
  next hzero =>
    refine ⟨le_rfl, ?_⟩
    rw [zero_mul, zero_mul]
    positivity
  next hpos =>
    split
    next hguard =>
      -- The ceiling of the source is below the root as well.
      have hmore := Nat.lt_mul_of_div_lt hguard (Nat.pos_of_ne_zero hpos)
      exact ⟨by decide, hroot (r := 2147483647) (by omega)⟩
    · exact ⟨Int.natCast_nonneg _, hroot (isqrt_mul_self_le 64 0 _ (Nat.zero_le _))⟩

theorem ramp_bounds (hv : 0 ≤ v) (ha : 0 < a) :
    2 * a * ((v * v).toNat / (2 * a.toNat) : Nat) ≤ v * v ∧
      v * v < 2 * a * (((v * v).toNat / (2 * a.toNat) : Nat) + 1) := by
  obtain ⟨m, rfl⟩ := Int.eq_ofNat_of_zero_le ha.le
  obtain ⟨n, rfl⟩ := Int.eq_ofNat_of_zero_le hv
  constructor
  · exact_mod_cast Nat.mul_div_le (n * n) (2 * m)
  · exact_mod_cast Nat.lt_mul_div_succ (n * n) (by omega : 0 < 2 * m)

theorem peak_le (dAbs : Nat) (hv : 0 < v) (ha : 0 < a) (hd : 0 < d) :
    0 ≤ (phases dAbs v a d).vPeak ∧ (phases dAbs v a d).vPeak ≤ v := by
  rw [phases]
  split
  next hshort =>
    obtain ⟨hnonneg, hpeak⟩ := trianglePeak_spec dAbs ha hd
    refine ⟨hnonneg, ?_⟩
    have haccel := (ramp_bounds hv.le ha).1
    have hdecel := (ramp_bounds hv.le hd).1
    have hway : (dAbs : Int) ≤
        ((v * v).toNat / (2 * a.toNat) : Nat) + ((v * v).toNat / (2 * d.toNat) : Nat) := by
      exact_mod_cast hshort
    generalize ((v * v).toNat / (2 * a.toNat) : Nat) = dAccel at haccel hway
    generalize ((v * v).toNat / (2 * d.toNat) : Nat) = dDecel at hdecel hway
    have hscaled : trianglePeak dAbs a d * trianglePeak dAbs a d * (a + d) ≤ v * v * (a + d) := by
      calc trianglePeak dAbs a d * trianglePeak dAbs a d * (a + d)
          ≤ 2 * a * d * dAbs := hpeak
        _ ≤ 2 * a * d * (dAccel + dDecel) := mul_le_mul_of_nonneg_left hway (by positivity)
        _ = d * (2 * a * dAccel) + a * (2 * d * dDecel) := by ring
        _ ≤ d * (v * v) + a * (v * v) :=
            add_le_add (mul_le_mul_of_nonneg_left haccel hd.le)
              (mul_le_mul_of_nonneg_left hdecel ha.le)
        _ = v * v * (a + d) := by ring
    exact (mul_self_le_mul_self_iff hnonneg hv.le).mpr
      (le_of_mul_le_mul_right hscaled (by omega))
  · exact ⟨hv.le, le_rfl⟩

theorem phases_ramps (dAbs : Nat) (hv : 0 < v) (ha : 0 < a) (hd : 0 < d) :
    a * (phases dAbs v a d).accelDt ≤ (phases dAbs v a d).vPeak * usPerS ∧
      d * (phases dAbs v a d).decelDt ≤ (phases dAbs v a d).vPeak * usPerS := by
  rw [phases]
  split
  · have hpeak := (trianglePeak_spec dAbs ha hd).1
    exact ⟨mul_dtToReachV_le hpeak ha, mul_dtToReachV_le hpeak hd⟩
  · exact ⟨mul_dtToReachV_le hv.le ha, mul_dtToReachV_le hv.le hd⟩

theorem phases_fits (dAbs : Nat) (hv : 0 < v) (ha : 0 < a) (hd : 0 < d) :
    (phases dAbs v a d).vPeak * (phases dAbs v a d).vPeak < 2 * d * (dAbs -
      (rise usPerS a (phases dAbs v a d).accelDt +
        way usPerS (phases dAbs v a d).vPeak (phases dAbs v a d).cruiseDt) + 1) := by
  have hunit : (0 : Int) < usPerS := by decide
  have hrisen := rise_le hunit ha.le (Int.natCast_nonneg _) (phases_ramps dAbs hv ha hd).1
  revert hrisen
  rw [phases]
  split
  next hshort =>
    intro hrisen
    have hstill : way usPerS (trianglePeak dAbs a d) (0 : Nat) = 0 := by simp [way]
    simp only [hstill, add_zero]
    exact fits_of_triangle ha hd hrisen (trianglePeak_spec dAbs ha hd).2
  next hlong =>
    intro hrisen
    have haccel := (ramp_bounds hv.le ha).2
    have hdecel := (ramp_bounds hv.le hd).2
    simp only at hrisen ⊢
    generalize (v * v).toNat / (2 * a.toNat) = dAccel at haccel hlong ⊢
    generalize (v * v).toNat / (2 * d.toNat) = dDecel at hdecel hlong ⊢
    refine fits_of_trapezoid hd ?_ hdecel
    have hrise : rise usPerS a (dtToReachV v a) < dAccel + 1 :=
      lt_of_mul_lt_mul_left (hrisen.trans_lt haccel) (by omega)
    have hway : way usPerS v ((dAbs - dAccel - dDecel) * usPerS / v.toNat : Nat) ≤
        (dAbs - dAccel - dDecel : Nat) := by
      apply Int.ediv_le_of_le_mul hunit
      obtain ⟨n, rfl⟩ := Int.eq_ofNat_of_zero_le hv.le
      exact_mod_cast Nat.mul_div_le _ n
    omega

end

/-! ## The move -/

/-- The move that is planned for a way of the length `dAbs`. -/
def profile (dAbs : Nat) (v accel decel : Int) (hv : 0 < v) (haccel : 0 < accel)
    (hdecel : 0 < decel) : Profile where
  unit := usPerS
  speed := (phases dAbs v accel decel).vPeak
  accel := accel
  decel := decel
  length := dAbs
  rising := (phases dAbs v accel decel).accelDt
  cruising := (phases dAbs v accel decel).cruiseDt
  falling := (phases dAbs v accel decel).decelDt
  unit_pos := by decide
  speed_nonneg := (peak_le dAbs hv haccel hdecel).1
  accel_nonneg := haccel.le
  decel_pos := hdecel
  length_nonneg := Int.natCast_nonneg _
  rising_nonneg := Int.natCast_nonneg _
  cruising_nonneg := Int.natCast_nonneg _
  falling_nonneg := Int.natCast_nonneg _
  rises := (phases_ramps dAbs hv haccel hdecel).1
  falls := (phases_ramps dAbs hv haccel hdecel).2
  fits := phases_fits dAbs hv haccel hdecel

/-- The trajectory is the move `p`, forwards or backwards from its beginning. -/
structure Follows (tr : Trajectory) (p : Profile) : Prop where
  unit : p.unit = usPerS
  finite : tr.infinite = false
  moves : tr.direction = (tr.x1Mdeg - tr.x0Mdeg).sign
  goes : tr.x1Mdeg ≠ tr.x0Mdeg
  length : p.length = (tr.x1Mdeg - tr.x0Mdeg).natAbs
  speed : tr.vPeakMdegps = p.speed
  accel : tr.accelMdegps2 = p.accel
  decel : tr.decelMdegps2 = p.decel
  rising : p.rising = tr.accelDtUs
  cruising : p.cruising = tr.cruiseDtUs
  falling : p.falling = tr.decelDtUs
  total : tr.totalDtUs = tr.accelDtUs + tr.cruiseDtUs + tr.decelDtUs
  xAccelEnd : tr.xAccelEndMdeg = tr.x0Mdeg + tr.direction * p.risen
  xCruiseEnd : tr.xCruiseEndMdeg = tr.x0Mdeg + tr.direction * p.cruised

theorem direction_eq_sign {delta : Int} (h : delta ≠ 0) :
    (if delta > 0 then 1 else -1) = delta.sign := by
  split
  next hpos => exact (Int.sign_eq_one_of_pos hpos).symm
  next hneg => exact (Int.sign_eq_neg_one_of_neg (by omega)).symm

/-- **A planned move is a profile.** -/
theorem follows_initPosition (t0Us : Nat) {x0Mdeg x1Mdeg v accel decel : Int} (hv : 0 < v)
    (haccel : 0 < accel) (hdecel : 0 < decel) (h : x1Mdeg ≠ x0Mdeg) :
    Follows (initPosition t0Us x0Mdeg x1Mdeg v accel decel)
      (profile (x1Mdeg - x0Mdeg).natAbs v accel decel hv haccel hdecel) := by
  have hdelta : x1Mdeg - x0Mdeg ≠ 0 := by omega
  have hway : ((x1Mdeg - x0Mdeg) * (x1Mdeg - x0Mdeg).sign).toNat = (x1Mdeg - x0Mdeg).natAbs := by
    rw [mul_comm, Int.sign_mul_self_eq_natAbs, Int.toNat_natCast]
  have hpeak := (peak_le (x1Mdeg - x0Mdeg).natAbs hv haccel hdecel).1
  rw [initPosition, if_pos haccel, if_pos hdecel]
  simp only
  rw [if_neg (by omega), direction_eq_sign hdelta, hway]
  constructor
  case xAccelEnd =>
    simp only [dxFromA_eq_rise haccel.le]
    rfl
  case xCruiseEnd =>
    simp only [dxFromA_eq_rise haccel.le, dxFromV_eq_way hpeak]
    rfl
  case goes => exact h
  all_goals rfl

/-- **The reference is where the profile is.** -/
theorem reference_of_follows {tr : Trajectory} {p : Profile} (h : Follows tr p) {tUs : Nat}
    (ht : tr.t0Us ≤ tUs) :
    (getReference tr tUs).xMdeg =
        tr.x0Mdeg + tr.direction * p.position ((tUs - tr.t0Us : Nat) : Int) ∧
      (getReference tr tUs).vMdegps = tr.direction * p.speedAt ((tUs - tr.t0Us : Nat) : Int) ∧
      ((getReference tr tUs).done = true ↔ tr.totalDtUs ≤ tUs - tr.t0Us) := by
  have hdirection : tr.direction ≠ 0 := by
    rw [h.moves]
    exact fun hzero => h.goes (by have := Int.sign_eq_zero_iff_zero.mp hzero; omega)
  have hend : tr.direction * p.length = tr.x1Mdeg - tr.x0Mdeg := by
    rw [h.moves, h.length, Int.sign_mul_natAbs]
  have haccel : 0 ≤ tr.accelMdegps2 := h.accel ▸ p.accel_nonneg
  have hdecel : 0 ≤ tr.decelMdegps2 := h.decel ▸ p.decel_pos.le
  have hspeed : 0 ≤ tr.vPeakMdegps := h.speed ▸ p.speed_nonneg
  have htotal := h.total
  rw [getReference, if_neg (by omega)]
  simp only [hdirection, ↓reduceIte, h.finite, Bool.false_eq_true]
  have hrising := h.rising
  have hcruising := h.cruising
  have hfalling := h.falling
  generalize tUs - tr.t0Us = dt
  split
  next hlt =>
    have hphase : (dt : Int) < p.rising := by omega
    rw [Profile.position_of_rising hphase, Profile.speedAt_of_rising hphase,
      dxFromA_eq_rise haccel, vFromA_eq_way haccel, h.accel, h.unit]
    exact ⟨rfl, rfl, iff_of_false Bool.false_ne_true (by omega)⟩
  next hrisen =>
    have hrisen' : p.rising ≤ dt := by omega
    split
    next hlt =>
      have hphase : (dt : Int) < p.rising + p.cruising := by omega
      rw [Profile.position_of_cruising hrisen' hphase, Profile.speedAt_of_cruising hrisen' hphase,
        dxFromV_eq_way hspeed, h.xAccelEnd, h.speed, h.unit, hrising, Nat.cast_sub (by omega)]
      exact ⟨by ring, rfl, iff_of_false Bool.false_ne_true (by omega)⟩
    next hcruised =>
      have hcruised' : p.rising + p.cruising ≤ dt := by omega
      split
      next hlt =>
        have hphase : (dt : Int) < p.rising + p.cruising + p.falling := by omega
        rw [Profile.position_of_falling hcruised' hphase,
          Profile.speedAt_of_falling hcruised' hphase, dxFromV_eq_way hspeed,
          dxFromA_eq_rise hdecel, vFromA_eq_way hdecel, h.xCruiseEnd, h.speed, h.decel, h.unit,
          hrising, hcruising, Nat.cast_sub (by omega), Nat.cast_add]
        refine ⟨?_, ?_, iff_of_false Bool.false_ne_true (by omega)⟩
        · rw [fall]
          ring
        · show tr.direction * (if _ < (0 : Int) then (0 : Int) else _) = tr.direction * max 0 _
          congr 1
          split <;> omega
      next hended =>
        have hphase : p.rising + p.cruising + p.falling ≤ (dt : Int) := by omega
        rw [Profile.position_ended hphase, Profile.speedAt_ended hphase, hend, mul_zero]
        refine ⟨?_, rfl, iff_of_true rfl (by omega)⟩
        show tr.x1Mdeg = tr.x0Mdeg + (tr.x1Mdeg - tr.x0Mdeg)
        omega

/-! ## Where nothing wraps -/

theorem toUint64_eq_toNat {n : Int} (h : 0 ≤ n) (hlt : n < 18446744073709551616) :
    toUint64 n = n.toNat := by
  rw [toUint64, Int.emod_eq_of_lt h hlt]

theorem toUint32_eq_toNat {n : Int} (h : 0 ≤ n) (hle : n ≤ 2 * int32Max) :
    toUint32 n = n.toNat := by
  have hmax : 2 * int32Max < 4294967296 := by decide
  rw [toUint32, Int.emod_eq_of_lt h (hle.trans_lt hmax)]

section

variable {v a d : Int} {dt : Nat}

theorem dtToReachV_eq (hv : 0 ≤ v) (hvmax : v ≤ int32Max) (ha : 0 < a) (hamax : a ≤ int32Max) :
    Drivebase.dtToReachV v a = dtToReachV v a := by
  have hmax : int32Max = 2147483647 := rfl
  have hnum : 0 ≤ v * usPerS := mul_nonneg hv (by decide)
  have hsmall : v * usPerS < 18446744073709551616 :=
    (mul_le_mul_of_nonneg_right hvmax (by decide)).trans_lt (by decide)
  rw [Drivebase.dtToReachV, dtToReachV, if_neg ha.not_ge, if_neg ha.not_ge,
    toUint64_eq_toNat hv (by omega), toUint32_eq_toNat ha.le (by omega), Int.toNat_of_nonneg hv,
    toUint64_eq_toNat hnum hsmall, Int.tdiv_eq_ediv_of_nonneg hnum]
  obtain ⟨m, hm⟩ := Int.eq_ofNat_of_zero_le hnum
  obtain ⟨n, rfl⟩ := Int.eq_ofNat_of_zero_le ha.le
  rw [hm]
  rfl

end

/-!
## The envelope of a finite trajectory

What a position controller may rely on: the reference is never faster than the planned peak speed,
which is not above the one that was asked for; it stays between the ends of the way and goes towards
the second one, but for what rounding takes; and it is there with the end of the planned time and
not marked as done before.

* `envelope_of_follows` — a trajectory that follows a profile has this envelope.
* `envelope_initPosition` — and so has every planned one, in exact arithmetic.
-/

/-- A trajectory from `x0Mdeg` at `t0Us` to `x1Mdeg`, at `vPeakMdegps` at most, with its
reference. -/
structure Envelope (t0Us : Nat) (x0Mdeg x1Mdeg vPeakMdegps : Int) (tr : Trajectory)
    (ref : Nat → Ref) : Prop where
  peak : tr.vPeakMdegps ≤ vPeakMdegps
  speed : ∀ t, |(ref t).vMdegps| ≤ tr.vPeakMdegps
  between : ∀ t, min x0Mdeg x1Mdeg - 3 ≤ (ref t).xMdeg ∧ (ref t).xMdeg ≤ max x0Mdeg x1Mdeg + 3
  onward : ∀ t t', t ≤ t' →
    (x1Mdeg - x0Mdeg).sign * (ref t).xMdeg ≤ (x1Mdeg - x0Mdeg).sign * (ref t').xMdeg + 3
  ended : ∀ t, t0Us + tr.totalDtUs ≤ t →
    (ref t).xMdeg = x1Mdeg ∧ (ref t).vMdegps = 0 ∧ (ref t).done = true
  unfinished : ∀ t, t < t0Us + tr.totalDtUs → (ref t).done = false

theorem getReference_early {tr : Trajectory} {t : Nat} (h : t < tr.t0Us) :
    getReference tr t = ⟨tr.x0Mdeg, 0, 0, false⟩ := if_pos h

section

variable {tr : Trajectory} {p : Profile}

theorem Follows.sign_cases (h : Follows tr p) :
    tr.direction = 1 ∧ tr.x1Mdeg = tr.x0Mdeg + p.length ∨
      tr.direction = -1 ∧ tr.x1Mdeg = tr.x0Mdeg - p.length := by
  rw [h.moves, h.length]
  rcases lt_or_gt_of_ne h.goes with hless | hmore
  · right
    exact ⟨Int.sign_eq_neg_one_of_neg (by omega), by omega⟩
  · left
    exact ⟨Int.sign_eq_one_of_pos (by omega), by omega⟩

/-- Where the reference is: as far from the beginning as a time of the profile is. -/
theorem Follows.progress (h : Follows tr p) (t : Nat) :
    ∃ o, (getReference tr t).xMdeg = tr.x0Mdeg + tr.direction * o ∧ 0 ≤ o ∧ o ≤ p.length + 1 := by
  rcases Nat.lt_or_ge t tr.t0Us with hearly | hbegun
  · rw [getReference_early hearly]
    have := p.length_nonneg
    exact ⟨0, by simp, le_rfl, by omega⟩
  · exact ⟨_, (reference_of_follows h hbegun).1, Profile.position_mem (Int.natCast_nonneg _)⟩

theorem Follows.speed_le (h : Follows tr p) (t : Nat) :
    |(getReference tr t).vMdegps| ≤ tr.vPeakMdegps := by
  have hspeed := p.speed_nonneg
  rw [h.speed]
  rcases Nat.lt_or_ge t tr.t0Us with hearly | hbegun
  · rw [getReference_early hearly]
    simpa using hspeed
  · obtain ⟨hlow, hhigh⟩ := Profile.speedAt_mem (p := p) (Int.natCast_nonneg (t - tr.t0Us))
    rw [(reference_of_follows h hbegun).2.1, abs_mul, abs_of_nonneg hlow]
    rcases h.sign_cases with ⟨hdirection, -⟩ | ⟨hdirection, -⟩
    · rw [hdirection, abs_one, one_mul]
      exact hhigh
    · rw [hdirection, abs_neg, abs_one, one_mul]
      exact hhigh

theorem Follows.between (h : Follows tr p) (t : Nat) :
    min tr.x0Mdeg tr.x1Mdeg - 3 ≤ (getReference tr t).xMdeg ∧
      (getReference tr t).xMdeg ≤ max tr.x0Mdeg tr.x1Mdeg + 3 := by
  obtain ⟨o, hx, hlow, hhigh⟩ := h.progress t
  rw [hx]
  rcases h.sign_cases with ⟨hdirection, hend⟩ | ⟨hdirection, hend⟩
  · rw [hdirection, hend]
    omega
  · rw [hdirection, hend]
    omega

theorem Follows.direction_mul_self (h : Follows tr p) : tr.direction * tr.direction = 1 := by
  rcases h.sign_cases with ⟨hdirection, -⟩ | ⟨hdirection, -⟩ <;> rw [hdirection] <;> rfl

theorem Follows.onward (h : Follows tr p) {t t' : Nat} (hle : t ≤ t') :
    tr.direction * (getReference tr t).xMdeg ≤ tr.direction * (getReference tr t').xMdeg + 3 := by
  have hsquare := h.direction_mul_self
  have hahead : ∀ {x o : Int}, x = tr.x0Mdeg + tr.direction * o →
      tr.direction * x = tr.direction * tr.x0Mdeg + o := by
    rintro x o rfl
    rw [mul_add, ← mul_assoc, hsquare, one_mul]
  rcases Nat.lt_or_ge t tr.t0Us with hearly | hbegun
  · obtain ⟨o, hx, hlow, -⟩ := h.progress t'
    rw [getReference_early hearly, hahead hx]
    show tr.direction * tr.x0Mdeg ≤ _
    omega
  · have hmove : p.position (t - tr.t0Us : Nat) ≤ p.position (t' - tr.t0Us : Nat) + 1 :=
      Profile.position_le_add_one (Int.natCast_nonneg _) (by omega)
    rw [hahead (reference_of_follows h hbegun).1,
      hahead (reference_of_follows h (hbegun.trans hle)).1]
    omega

theorem Follows.ended (h : Follows tr p) {t : Nat} (hle : tr.t0Us + tr.totalDtUs ≤ t) :
    (getReference tr t).xMdeg = tr.x1Mdeg ∧ (getReference tr t).vMdegps = 0 ∧
      (getReference tr t).done = true := by
  obtain ⟨hx, hv, hdone⟩ := reference_of_follows h (Nat.le_of_add_right_le hle)
  have hphase : p.rising + p.cruising + p.falling ≤ ((t - tr.t0Us : Nat) : Int) := by
    have htotal := h.total
    rw [h.rising, h.cruising, h.falling]
    omega
  rw [hx, hv, Profile.position_ended hphase, Profile.speedAt_ended hphase]
  refine ⟨?_, mul_zero _, hdone.mpr (by omega)⟩
  rcases h.sign_cases with ⟨hdirection, hend⟩ | ⟨hdirection, hend⟩
  · rw [hdirection, hend, one_mul]
  · rw [hdirection, hend, neg_one_mul, sub_eq_add_neg]

theorem Follows.unfinished (h : Follows tr p) {t : Nat} (hlt : t < tr.t0Us + tr.totalDtUs) :
    (getReference tr t).done = false := by
  rcases Nat.lt_or_ge t tr.t0Us with hearly | hbegun
  · rw [getReference_early hearly]
  · rw [← Bool.not_eq_true, (reference_of_follows h hbegun).2.2]
    omega

end

theorem getReference_still {tr : Trajectory} (hdirection : tr.direction = 0)
    (hfinite : tr.infinite = false) (t : Nat) :
    getReference tr t = ⟨tr.x0Mdeg, 0, 0, decide (tr.t0Us ≤ t)⟩ := by
  rw [getReference, hfinite]
  split
  next hearly => rw [decide_eq_false hearly.not_ge]
  next hbegun =>
    rw [decide_eq_true (Nat.le_of_not_lt hbegun)]
    rfl

theorem envelope_of_still {tr : Trajectory} {vPeakMdegps : Int} (hv : 0 < vPeakMdegps)
    (hdirection : tr.direction = 0) (hfinite : tr.infinite = false) (hpeak : tr.vPeakMdegps = 0)
    (hsame : tr.x1Mdeg = tr.x0Mdeg) (htotal : tr.totalDtUs = 0) :
    Envelope tr.t0Us tr.x0Mdeg tr.x1Mdeg vPeakMdegps tr (getReference tr) := by
  have hstill := getReference_still hdirection hfinite
  rw [hsame]
  constructor
  case peak =>
    rw [hpeak]
    exact hv.le
  case speed =>
    intro t
    rw [hstill, hpeak, abs_zero]
  case between =>
    intro t
    rw [hstill]
    simp
  case onward =>
    intro t t' hle
    simp
  case ended =>
    intro t ht
    rw [hstill]
    exact ⟨rfl, rfl, decide_eq_true (by omega)⟩
  case unfinished =>
    intro t ht
    rw [hstill]
    exact decide_eq_false (by omega)

theorem envelope_of_follows {tr : Trajectory} {p : Profile} {vPeakMdegps : Int}
    (h : Follows tr p) (hpeak : p.speed ≤ vPeakMdegps) :
    Envelope tr.t0Us tr.x0Mdeg tr.x1Mdeg vPeakMdegps tr (getReference tr) where
  peak := h.speed ▸ hpeak
  speed := h.speed_le
  between := h.between
  onward t t' hle := by
    rw [← h.moves]
    exact h.onward hle
  ended t ht := h.ended ht
  unfinished t ht := h.unfinished ht

theorem initPosition_spec (t0Us : Nat) (x0Mdeg x1Mdeg vPeakMdegps accelMdegps2 decelMdegps2 : Int) :
    let tr := initPosition t0Us x0Mdeg x1Mdeg vPeakMdegps accelMdegps2 decelMdegps2
    tr.t0Us = t0Us ∧ tr.x0Mdeg = x0Mdeg ∧ tr.x1Mdeg = x1Mdeg ∧ tr.infinite = false := by
  simp only [initPosition]
  split
  · exact ⟨rfl, rfl, rfl, rfl⟩
  · exact ⟨rfl, rfl, rfl, rfl⟩

theorem initPosition_same (t0Us : Nat) (xMdeg vPeakMdegps accelMdegps2 decelMdegps2 : Int) :
    let tr := initPosition t0Us xMdeg xMdeg vPeakMdegps accelMdegps2 decelMdegps2
    tr.direction = 0 ∧ tr.vPeakMdegps = 0 ∧ tr.totalDtUs = 0 := by
  simp [initPosition]

/-- **The envelope.** Whatever the ends of the way, the time it begins at, the speed and the ramps:
the planned trajectory stays below its peak speed and that below the one that was asked for, between
its ends and in its direction but for a rest of 3 mdeg, and it is done, at rest and at its end from
the end of its time on and not before. -/
theorem envelope_initPosition (t0Us : Nat) (x0Mdeg x1Mdeg : Int)
    {vPeakMdegps accelMdegps2 decelMdegps2 : Int} (hv : 0 < vPeakMdegps) (haccel : 0 < accelMdegps2)
    (hdecel : 0 < decelMdegps2) :
    Envelope t0Us x0Mdeg x1Mdeg vPeakMdegps
      (initPosition t0Us x0Mdeg x1Mdeg vPeakMdegps accelMdegps2 decelMdegps2)
      (getReference (initPosition t0Us x0Mdeg x1Mdeg vPeakMdegps accelMdegps2 decelMdegps2)) := by
  obtain ⟨ht0, hx0, hx1, hfinite⟩ :=
    initPosition_spec t0Us x0Mdeg x1Mdeg vPeakMdegps accelMdegps2 decelMdegps2
  by_cases hsame : x1Mdeg = x0Mdeg
  · subst hsame
    obtain ⟨hdirection, hpeak, htotal⟩ :=
      initPosition_same t0Us x1Mdeg vPeakMdegps accelMdegps2 decelMdegps2
    have hstill := envelope_of_still hv hdirection hfinite hpeak (hx1.trans hx0.symm) htotal
    rwa [ht0, hx0, hx1] at hstill
  · have hmoving := envelope_of_follows (follows_initPosition t0Us hv haccel hdecel hsame)
      (peak_le _ hv haccel hdecel).2
    rwa [ht0, hx0, hx1] at hmoving

theorem envelope_initPosition_straight :
    Envelope 5 0 360000 500000 (initPosition 5 0 360000 500000 2000000 2000000)
      (getReference (initPosition 5 0 360000 500000 2000000 2000000)) :=
  envelope_initPosition 5 0 360000 (by decide) (by decide) (by decide)

end Brickwright.Drivebase.Exact
