import Brickwright.Drivebase.Control

/-!
# Trajectories

`drivebase_trajectory.c`: the reference a position controller follows. A finite trajectory ramps up,
cruises and ramps down, or only ramps when the way is short; an infinite one ramps up and stays at
its speed. Times are in microseconds from `t0Us` on. `stretchToTotal` slows a finite trajectory down
so that it takes a given time.

The two searches of the source are over 32-bit values and halve their interval, so they end within
the 64 rounds they are given here.
-/

namespace Brickwright.Drivebase

def EINVAL : Int := 22
def ERANGE : Int := 34
def EBUSY : Int := 16

def usPerS : Nat := 1000000

/-- `struct db_trajectory_s`. -/
structure Trajectory where
  t0Us : Nat := 0
  x0Mdeg : Int := 0
  x1Mdeg : Int := 0
  vPeakMdegps : Int := 0
  accelMdegps2 : Int := 0
  decelMdegps2 : Int := 0
  direction : Int := 0
  infinite : Bool := false
  accelDtUs : Nat := 0
  cruiseDtUs : Nat := 0
  decelDtUs : Nat := 0
  totalDtUs : Nat := 0
  xAccelEndMdeg : Int := 0
  xCruiseEndMdeg : Int := 0
  deriving DecidableEq, Repr

/-- `struct db_trajectory_ref_s`. -/
structure Ref where
  xMdeg : Int
  vMdegps : Int
  aMdegps2 : Int
  done : Bool
  deriving DecidableEq, Repr

/-! ## Ramps -/

def dxFromV (vMdegps : Int) (dtUs : Nat) : Int :=
  (toInt64 (vMdegps * toInt64 dtUs)).tdiv usPerS

def dxFromA (aMdegps2 : Int) (dtUs : Nat) : Int :=
  let dt := toInt64 dtUs
  (toInt64 (toInt64 (aMdegps2 * dt) * dt)).tdiv (2 * (usPerS * usPerS))

def vFromA (aMdegps2 : Int) (dtUs : Nat) : Int :=
  toInt32 ((toInt64 (aMdegps2 * toInt64 dtUs)).tdiv usPerS)

def dtToReachV (vMdegps aMdegps2 : Int) : Nat :=
  if aMdegps2 ≤ 0 then 0 else toUint64 (toUint64 vMdegps * usPerS) / toUint32 aMdegps2

/-- The integer square root of `triangle_peak`, by halving `[lo, hi)`. -/
def isqrt (v2 : Nat) : Nat → Nat → Nat → Nat → Nat
  | 0, _, _, r => r
  | fuel + 1, lo, hi, r =>
    if lo + 1 < hi then
      let mid := (lo + hi) / 2
      if mid * mid ≤ v2 then isqrt v2 fuel mid hi mid else isqrt v2 fuel lo mid r
    else r

/-- The speed at which a move without cruise turns from the one ramp to the other. -/
def trianglePeak (dTotalMdeg : Nat) (a d : Int) : Int :=
  if a ≤ 0 ∨ d ≤ 0 then 0
  else
    let den := toUint64 a + toUint64 d
    let k := toUint64 (2 * toUint64 a * toUint64 d) / den
    if k = 0 then 0
    else if dTotalMdeg > 18446744073709551615 / k then int32Max
    else
      let v2 := dTotalMdeg * k
      let hi := if v2 < 2147483648 then 2147483648 else 4294967296
      toInt32 (isqrt v2 64 0 hi 0)

namespace Trajectory

/-! ## Planning -/

/-- `db_trajectory_init_position`. -/
def initPosition (t0Us : Nat) (x0Mdeg x1Mdeg vPeakMdegps accelMdegps2 decelMdegps2 : Int) :
    Trajectory :=
  let accel := if accelMdegps2 > 0 then accelMdegps2 else 1
  let decel := if decelMdegps2 > 0 then decelMdegps2 else accel
  let delta := x1Mdeg - x0Mdeg
  if delta = 0 ∨ vPeakMdegps ≤ 0 then
    { t0Us := t0Us, x0Mdeg := x0Mdeg, x1Mdeg := x1Mdeg
      accelMdegps2 := accel, decelMdegps2 := decel
      xAccelEndMdeg := x0Mdeg, xCruiseEndMdeg := x0Mdeg }
  else
    let direction := if delta > 0 then 1 else -1
    let dAbs := toUint64 (delta * direction)
    let dAccel := toUint64 (vPeakMdegps * vPeakMdegps) / toUint32 (2 * toUint32 accel)
    let dDecel := toUint64 (vPeakMdegps * vPeakMdegps) / toUint32 (2 * toUint32 decel)
    let (vPeak, accelDt, cruiseDt, decelDt) :=
      if toUint64 (dAccel + dDecel) ≥ dAbs then
        let vTri := trianglePeak dAbs accel decel
        (vTri, dtToReachV vTri accel, 0, dtToReachV vTri decel)
      else
        let dCruise := toUint64 (dAbs - dAccel - dDecel)
        (vPeakMdegps, dtToReachV vPeakMdegps accel,
          toUint64 (dCruise * usPerS) / toUint32 vPeakMdegps, dtToReachV vPeakMdegps decel)
    let xOffAccel := dxFromA accel accelDt
    let xOffCruise := xOffAccel + dxFromV vPeak cruiseDt
    { t0Us := t0Us, x0Mdeg := x0Mdeg, x1Mdeg := x1Mdeg
      vPeakMdegps := vPeak, accelMdegps2 := accel, decelMdegps2 := decel
      direction := direction
      accelDtUs := accelDt, cruiseDtUs := cruiseDt, decelDtUs := decelDt
      totalDtUs := toUint64 (accelDt + cruiseDt + decelDt)
      xAccelEndMdeg := x0Mdeg + direction * xOffAccel
      xCruiseEndMdeg := x0Mdeg + direction * xOffCruise }

def absV (vTargetMdegps : Int) : Int := if vTargetMdegps ≥ 0 then vTargetMdegps else -vTargetMdegps

def signV (vTargetMdegps : Int) : Int :=
  if vTargetMdegps > 0 then 1 else if vTargetMdegps < 0 then -1 else 0

/-- `db_trajectory_init_forever`. -/
def initForever (t0Us : Nat) (x0Mdeg vTargetMdegps accelMdegps2 : Int) : Trajectory :=
  let accel := if accelMdegps2 > 0 then accelMdegps2 else 1
  let direction := signV vTargetMdegps
  let accelDt := dtToReachV (absV vTargetMdegps) accel
  let xAccelEnd := x0Mdeg + direction * dxFromA accel accelDt
  { t0Us := t0Us, x0Mdeg := x0Mdeg, x1Mdeg := x0Mdeg
    vPeakMdegps := absV vTargetMdegps, accelMdegps2 := accel, decelMdegps2 := accel
    direction := direction, infinite := true
    accelDtUs := accelDt
    xAccelEndMdeg := xAccelEnd, xCruiseEndMdeg := xAccelEnd }

/-! ## The reference -/

/-- `db_trajectory_get_reference`. -/
def getReference (tr : Trajectory) (tUs : Nat) : Ref :=
  if tUs < tr.t0Us then ⟨tr.x0Mdeg, 0, 0, false⟩
  else
    let dt := tUs - tr.t0Us
    if tr.direction = 0 then ⟨tr.x0Mdeg, 0, 0, !tr.infinite⟩
    else if dt < tr.accelDtUs then
      ⟨tr.x0Mdeg + tr.direction * dxFromA tr.accelMdegps2 dt,
        tr.direction * vFromA tr.accelMdegps2 dt, tr.direction * tr.accelMdegps2, false⟩
    else if tr.infinite then
      ⟨tr.xAccelEndMdeg + tr.direction * dxFromV tr.vPeakMdegps (dt - tr.accelDtUs),
        tr.direction * tr.vPeakMdegps, 0, false⟩
    else
      let cruiseEndDt := toUint64 (tr.accelDtUs + tr.cruiseDtUs)
      if dt < cruiseEndDt then
        ⟨tr.xAccelEndMdeg + tr.direction * dxFromV tr.vPeakMdegps (dt - tr.accelDtUs),
          tr.direction * tr.vPeakMdegps, 0, false⟩
      else if dt < tr.totalDtUs then
        let dtInDecel := dt - cruiseEndDt
        let vAbs := tr.vPeakMdegps - vFromA tr.decelMdegps2 dtInDecel
        let vAbs := if vAbs < 0 then 0 else vAbs
        let dxAbs := dxFromV tr.vPeakMdegps dtInDecel - dxFromA tr.decelMdegps2 dtInDecel
        ⟨tr.xCruiseEndMdeg + tr.direction * dxAbs, tr.direction * vAbs,
          -tr.direction * tr.decelMdegps2, false⟩
      else ⟨tr.x1Mdeg, 0, 0, true⟩

/-- `db_trajectory_retarget_forever`. -/
def retargetForever (tr : Trajectory) (nowUs : Nat) (vTargetMdegps accelMdegps2 : Int) :
    Trajectory :=
  if tr.infinite = false then tr
  else
    let ref := tr.getReference nowUs
    let accel := if accelMdegps2 > 0 then accelMdegps2 else 1
    let vAbs := absV vTargetMdegps
    let direction := signV vTargetMdegps
    let accelDt := dtToReachV vAbs accel
    let vInNew := ref.vMdegps * direction
    let (t0, x0) :=
      if direction ≠ 0 then
        if vInNew ≥ vAbs then
          (toUint64 (nowUs - accelDt), ref.xMdeg - direction * dxFromA accel accelDt)
        else if vInNew > 0 then
          let dtInto := dtToReachV vInNew accel
          (toUint64 (nowUs - dtInto), ref.xMdeg - direction * dxFromA accel dtInto)
        else (nowUs, ref.xMdeg)
      else (nowUs, ref.xMdeg)
    let xAccelEnd := x0 + direction * dxFromA accel accelDt
    { tr with
      t0Us := t0, x0Mdeg := x0, accelMdegps2 := accel, decelMdegps2 := accel
      vPeakMdegps := vAbs, direction := direction, accelDtUs := accelDt
      xAccelEndMdeg := xAccelEnd, xCruiseEndMdeg := xAccelEnd }

/-! ## Stretching -/

/-- How long a way takes at a given peak speed. -/
def stretchTotalDt (v a d : Int) (dAbs : Nat) : Nat :=
  if v ≤ 0 then 18446744073709551615
  else
    let tA := dtToReachV v a
    let tD := dtToReachV v d
    let dA := toUint64 (dxFromA a tA)
    let dD := toUint64 (dxFromA d tD)
    if toUint64 (dA + dD) ≥ dAbs then toUint64 (tA + tD)
    else
      let dCruise := toUint64 (dAbs - dA - dD)
      toUint64 (tA + toUint64 (dCruise * usPerS) / toUint32 v + tD)

def timeErr (total target : Nat) : Nat := if total ≥ target then total - target else target - total

/-- The best speed so far, with its error, and another candidate. -/
def better (best : Int × Nat) (v : Int) (err : Nat) : Int × Nat :=
  if err < best.2 then (v, err) else best

/-- The speed is searched by halving `[lo, hi)`. -/
def searchPeak (a d : Int) (dAbs target : Nat) : Nat → Int → Int → Int × Nat → Int × Nat
  | 0, _, _, best => best
  | fuel + 1, lo, hi, best =>
    if lo + 1 < hi then
      let mid := (lo + hi).tdiv 2
      let total := stretchTotalDt mid a d dAbs
      let best := better best mid (timeErr total target)
      if total > target then searchPeak a d dAbs target fuel mid hi best
      else searchPeak a d dAbs target fuel lo mid best
    else best

/-- Then the neighbours of the best one are probed. -/
def probePeak (a d : Int) (dAbs target : Nat) (pmin pmax : Int) (best : Int × Nat) : Int × Nat :=
  (List.range (pmax + 1 - pmin).toNat).foldl (fun best (i : Nat) =>
    better best (pmin + i) (timeErr (stretchTotalDt (pmin + i) a d dAbs) target)) best

/-- `db_trajectory_stretch_to_total`. -/
def stretchToTotal (tr : Trajectory) (targetUs : Nat) : Except Int Trajectory :=
  if tr.infinite then .error (-EINVAL)
  else if tr.direction = 0 then .error (-EINVAL)
  else if tr.totalDtUs = 0 then .error (-EINVAL)
  else if targetUs ≤ tr.totalDtUs then .error (-EINVAL)
  else
    let dAbs64 := tr.direction * (tr.x1Mdeg - tr.x0Mdeg)
    if dAbs64 ≤ 0 then .error (-EINVAL)
    else
      let dAbs := toUint64 dAbs64
      let a := tr.accelMdegps2
      let d := tr.decelMdegps2
      if a ≤ 0 ∨ d ≤ 0 then .error (-EINVAL)
      else if tr.vPeakMdegps < 1 then .error (-ERANGE)
      else
        let found := searchPeak a d dAbs targetUs 64 1 tr.vPeakMdegps (1, 18446744073709551615)
        let pmin := if found.1 > 32 then found.1 - 32 else 1
        let pmax := if found.1 < tr.vPeakMdegps - 32 then found.1 + 32 else tr.vPeakMdegps
        let vNew := (probePeak a d dAbs targetUs pmin pmax found).1
        if vNew ≤ 0 then .error (-ERANGE)
        else
          let tA := dtToReachV vNew a
          let tD := dtToReachV vNew d
          if toUint64 (tA + tD) ≥ targetUs then .error (-ERANGE)
          else
            let tC := targetUs - tA - tD
            let xOffAccel := dxFromA a tA
            let xOffCruise := xOffAccel + dxFromV vNew tC
            let stretched := { tr with
              vPeakMdegps := vNew
              accelDtUs := tA, cruiseDtUs := tC, decelDtUs := tD, totalDtUs := targetUs
              xAccelEndMdeg := tr.x0Mdeg + tr.direction * xOffAccel
              xCruiseEndMdeg := tr.x0Mdeg + tr.direction * xOffCruise }
            -- The source samples at `targetUs - 1` of its clock, not of the trajectory's.
            let residual := (stretched.getReference (targetUs - 1)).xMdeg - tr.x1Mdeg
            let residual := if residual < 0 then -residual else residual
            if residual > 100 then .error (-ERANGE) else .ok stretched

/-! ## Facts -/

theorem initPosition_spec (t0Us : Nat) (x0Mdeg x1Mdeg vPeakMdegps accelMdegps2 decelMdegps2 : Int) :
    let tr := initPosition t0Us x0Mdeg x1Mdeg vPeakMdegps accelMdegps2 decelMdegps2
    tr.t0Us = t0Us ∧ tr.x0Mdeg = x0Mdeg ∧ tr.x1Mdeg = x1Mdeg ∧ tr.infinite = false := by
  simp only [initPosition]
  split
  · exact ⟨rfl, rfl, rfl, rfl⟩
  · exact ⟨rfl, rfl, rfl, rfl⟩

theorem initPosition_same (t0Us : Nat) (xMdeg vPeakMdegps accelMdegps2 decelMdegps2 : Int) :
    (initPosition t0Us xMdeg xMdeg vPeakMdegps accelMdegps2 decelMdegps2).direction = 0 := by
  simp [initPosition]

theorem infinite_retargetForever (tr : Trajectory) (nowUs : Nat)
    (vTargetMdegps accelMdegps2 : Int) :
    (tr.retargetForever nowUs vTargetMdegps accelMdegps2).infinite = tr.infinite := by
  simp only [retargetForever]
  split <;> rfl

/-- The same beginning and the same end. -/
structure SameWay (tr tr' : Trajectory) : Prop where
  t0Us : tr'.t0Us = tr.t0Us
  x0Mdeg : tr'.x0Mdeg = tr.x0Mdeg
  x1Mdeg : tr'.x1Mdeg = tr.x1Mdeg
  infinite : tr'.infinite = tr.infinite
  direction : tr'.direction = tr.direction

theorem SameWay.refl (tr : Trajectory) : SameWay tr tr := ⟨rfl, rfl, rfl, rfl, rfl⟩

theorem sameWay_stretchToTotal {tr tr' : Trajectory} {targetUs : Nat}
    (h : tr.stretchToTotal targetUs = .ok tr') : SameWay tr tr' ∧ tr'.totalDtUs = targetUs := by
  have hok : ∀ {c : Prop} [Decidable c] {e : Int} {r : Except Int Trajectory},
      (if c then .error e else r) = .ok tr' → r = .ok tr' := by
    intro c _ e r hr
    split at hr
    · cases hr
    · exact hr
  have hstretched := Except.ok.inj
    (hok (hok (hok (hok (hok (hok (hok (hok (hok (hok h))))))))))
  rw [← hstretched]
  exact ⟨⟨rfl, rfl, rfl, rfl, rfl⟩, rfl⟩

/-- How long a move takes: `totalDtUs`, as long as no sum of its parts wraps. -/
def duration (tr : Trajectory) : Nat :=
  max tr.accelDtUs (max (toUint64 (tr.accelDtUs + tr.cruiseDtUs)) tr.totalDtUs)

theorem done_iff {tr : Trajectory} {t : Nat} :
    (tr.getReference t).done = true ↔ tr.infinite = false ∧ tr.t0Us ≤ t ∧
      (tr.direction = 0 ∨ tr.duration ≤ t - tr.t0Us) := by
  simp only [getReference, duration]
  by_cases hstart : t < tr.t0Us
  · rw [if_pos hstart]
    constructor
    · intro h
      cases h
    · rintro ⟨-, hle, -⟩
      omega
  · rw [if_neg hstart]
    by_cases hdir : tr.direction = 0
    · rw [if_pos hdir]
      have ht : tr.t0Us ≤ t := Nat.le_of_not_lt hstart
      simp only [Bool.not_eq_true', hdir, true_or, and_true, ht]
    · rw [if_neg hdir]
      by_cases hinf : tr.infinite = true
      · simp only [hinf, Bool.true_eq_false, false_and, iff_false]
        split <;> exact Bool.false_ne_true
      · rw [if_neg hinf]
        have hfinite : tr.infinite = false := by simpa using hinf
        simp only [hfinite, hdir, false_or, true_and]
        split
        · simp only [Bool.false_eq_true, false_iff]
          omega
        · split
          · simp only [Bool.false_eq_true, false_iff]
            omega
          · split
            · simp only [Bool.false_eq_true, false_iff]
              omega
            · simp only [true_iff]
              omega

theorem done_mono {tr : Trajectory} {t t' : Nat} (h : (tr.getReference t).done = true)
    (hle : t ≤ t') : (tr.getReference t').done = true := by
  obtain ⟨hinf, ht, hend⟩ := done_iff.mp h
  refine done_iff.mpr ⟨hinf, by omega, ?_⟩
  rcases hend with hdir | hduration
  · exact .inl hdir
  · exact .inr (by omega)

theorem done_of_still {tr : Trajectory} {t : Nat} (hinf : tr.infinite = false)
    (hdir : tr.direction = 0) (ht : tr.t0Us ≤ t) : (tr.getReference t).done = true :=
  done_iff.mpr ⟨hinf, ht, .inl hdir⟩

end Trajectory

end Brickwright.Drivebase
