import Brickwright.Bits.Checked
import Brickwright.Drivebase.Exact

/-!
# Drives without an end that are given a new speed

`db_trajectory_init_forever`, `db_trajectory_get_reference` and `db_trajectory_retarget_forever`
once more, with the signed arithmetic checked, and with no value for a new ramp that would have
started before the beginning of time. Where they have a value it is that of the functions on words
(`of_initForever`, `of_getReference`, `of_retargetForever`).

* `retargetForever_spec` — a new ramp is laid so that its elapsed time at the retarget gives the
  speed, and its position there is the one of the old reference.
* `retarget_continues` — the reference at the retarget and behind it.
-/

namespace Brickwright.Drivebase.Retarget

open Checked
open List

/-- A speed and an acceleration of 32 bits. -/
structure Target where
  vMdegps : Int
  accelMdegps2 : Int
  speed_range : int32Min ≤ vMdegps ∧ vMdegps ≤ int32Max
  accel_range : int32Min ≤ accelMdegps2 ∧ accelMdegps2 ≤ int32Max

namespace Target

def accel (target : Target) : Int := if target.accelMdegps2 > 0 then target.accelMdegps2 else 1

def direction (target : Target) : Int := Trajectory.signV target.vMdegps

end Target

def dxFromA (aMdegps2 : Int) (dtUs : Nat) : Option Int := do
  let dt ← int64 dtUs
  let adt ← int64 (aMdegps2 * dt)
  quot (← int64 (adt * dt)) (2 * (usPerS * usPerS))

def vFromA (aMdegps2 : Int) (dtUs : Nat) : Option Int := do
  let dt ← int64 dtUs
  int32 (← quot (← int64 (aMdegps2 * dt)) usPerS)

/-- `db_trajectory_init_forever`. -/
def initForever (t0Us : Nat) (x0Mdeg : Int) (target : Target) : Option Trajectory := do
  let vAbs ← int32 (Trajectory.absV target.vMdegps)
  let accelDt := dtToReachV vAbs target.accel
  let xAccelEnd ← int64 (x0Mdeg + target.direction * (← dxFromA target.accel accelDt))
  some
    { t0Us := t0Us, x0Mdeg := x0Mdeg, x1Mdeg := x0Mdeg
      vPeakMdegps := vAbs, accelMdegps2 := target.accel, decelMdegps2 := target.accel
      direction := target.direction, infinite := true
      accelDtUs := accelDt
      xAccelEndMdeg := xAccelEnd, xCruiseEndMdeg := xAccelEnd }

/-- `db_trajectory_get_reference`, of a drive without an end. -/
def getReference (tr : Trajectory) (tUs : Nat) : Option Ref :=
  if tUs < tr.t0Us then some ⟨tr.x0Mdeg, 0, 0, false⟩
  else
    let dt := tUs - tr.t0Us
    if tr.direction = 0 then some ⟨tr.x0Mdeg, 0, 0, false⟩
    else if dt < tr.accelDtUs then do
      let vAbs ← vFromA tr.accelMdegps2 dt
      let x ← int64 (tr.x0Mdeg + tr.direction * (← dxFromA tr.accelMdegps2 dt))
      some ⟨x, tr.direction * vAbs, tr.direction * tr.accelMdegps2, false⟩
    else do
      let dtAfterAccel ← int64 (dt - tr.accelDtUs : Nat)
      let dxAbs ← quot (← int64 (tr.vPeakMdegps * dtAfterAccel)) usPerS
      let x ← int64 (tr.xAccelEndMdeg + tr.direction * dxAbs)
      some ⟨x, tr.direction * tr.vPeakMdegps, 0, false⟩

/-- `now_us - dt`; there is no time before 0. -/
def before (nowUs dtUs : Nat) : Option Nat := if dtUs ≤ nowUs then some (nowUs - dtUs) else none

/-- The start of a ramp that has run for a while now and has come to a position. -/
def anchor (target : Target) (nowUs dtUs : Nat) (xMdeg : Int) : Option (Nat × Int) := do
  let t0 ← before nowUs dtUs
  let x0 ← int64 (xMdeg - target.direction * (← dxFromA target.accel dtUs))
  some (t0, x0)

def newStart (target : Target) (nowUs : Nat) (vAbs : Int) (ref : Ref) : Option (Nat × Int) := do
  let vInNew ← int32 (ref.vMdegps * target.direction)
  if target.direction ≠ 0 then
    if vInNew ≥ vAbs then anchor target nowUs (dtToReachV vAbs target.accel) ref.xMdeg
    else if vInNew > 0 then anchor target nowUs (dtToReachV vInNew target.accel) ref.xMdeg
    else some (nowUs, ref.xMdeg)
  else some (nowUs, ref.xMdeg)

/-- `db_trajectory_retarget_forever`. -/
def retargetForever (tr : Trajectory) (nowUs : Nat) (target : Target) : Option Trajectory :=
  if tr.infinite = false then some tr
  else do
    let ref ← getReference tr nowUs
    let vAbs ← int32 (Trajectory.absV target.vMdegps)
    let accelDt := dtToReachV vAbs target.accel
    let start ← newStart target nowUs vAbs ref
    let xAccelEnd ← int64 (start.2 + target.direction * (← dxFromA target.accel accelDt))
    some
      { tr with
        t0Us := start.1, x0Mdeg := start.2
        accelMdegps2 := target.accel, decelMdegps2 := target.accel
        vPeakMdegps := vAbs, direction := target.direction, accelDtUs := accelDt
        xAccelEndMdeg := xAccelEnd, xCruiseEndMdeg := xAccelEnd }

variable {tr tr' : Trajectory} {target : Target} {nowUs t0Us tUs dtUs : Nat} {xMdeg x0Mdeg a : Int}
  {r : Ref}

/-! ## The functions on words -/

theorem word_of_int64 {x y : Int} (h : int64 x = some y) : toInt64 x = y := by
  unfold int64 at h
  split at h
  · next hfits => exact (toInt64_of_fits hfits).trans (Option.some.inj h)
  · cases h

theorem of_dxFromA {dx : Int} (h : dxFromA a dtUs = some dx) : Drivebase.dxFromA a dtUs = dx := by
  simp only [dxFromA, Option.bind_eq_bind, Option.bind_eq_some_iff] at h
  obtain ⟨dt, hdt, adt, hadt, adt2, hadt2, hquot⟩ := h
  rw [Drivebase.dxFromA, word_of_int64 hdt, word_of_int64 hadt, word_of_int64 hadt2]
  exact of_quot hquot

theorem of_vFromA {v : Int} (h : vFromA a dtUs = some v) :
    Drivebase.vFromA a dtUs = v ∧ v = (a * dtUs).tdiv usPerS := by
  simp only [vFromA, Option.bind_eq_bind, Option.bind_eq_some_iff] at h
  obtain ⟨dt, hdt, adt, hadt, q, hq, hv⟩ := h
  obtain ⟨rfl, hrange⟩ := of_int32 hv
  rw [Drivebase.vFromA, word_of_int64 hdt, word_of_int64 hadt, of_quot hq]
  obtain rfl := of_int64 hdt
  obtain rfl := of_int64 hadt
  exact ⟨toInt32_of_fits hrange, (of_quot hq).symm⟩

theorem of_initForever (h : initForever t0Us x0Mdeg target = some tr) :
    Trajectory.initForever t0Us x0Mdeg target.vMdegps target.accelMdegps2 = tr := by
  simp only [initForever, Option.bind_eq_bind, Option.bind_eq_some_iff, Option.some.injEq] at h
  obtain ⟨vAbs, hv, dx, hdx, xEnd, hx, rfl⟩ := h
  obtain ⟨rfl, -⟩ := of_int32 hv
  obtain rfl := of_int64 hx
  rw [← of_dxFromA hdx]
  rfl

theorem of_getReference (hinfinite : tr.infinite = true) (h : getReference tr tUs = some r) :
    tr.getReference tUs = r := by
  unfold getReference at h
  unfold Trajectory.getReference
  split at h
  · next hearly =>
    rw [if_pos hearly]
    exact Option.some.inj h
  · next hearly =>
    rw [if_neg hearly]
    simp only at h ⊢
    split at h
    · next hdir =>
      rw [if_pos hdir, hinfinite]
      exact Option.some.inj h
    · next hdir =>
      rw [if_neg hdir]
      split at h
      · next hramp =>
        rw [if_pos hramp]
        simp only [Option.bind_eq_bind, Option.bind_eq_some_iff, Option.some.injEq] at h
        obtain ⟨v, hv, dx, hdx, x, hx, rfl⟩ := h
        obtain rfl := of_int64 hx
        rw [(of_vFromA hv).1, of_dxFromA hdx]
      · next hramp =>
        rw [if_neg hramp, if_pos hinfinite]
        simp only [Option.bind_eq_bind, Option.bind_eq_some_iff, Option.some.injEq] at h
        obtain ⟨dt, hdt, p, hp, dx, hdx, x, hx, rfl⟩ := h
        obtain rfl := of_int64 hx
        rw [dxFromV, word_of_int64 hdt, word_of_int64 hp, of_quot hdx]

/-! ## Ramps -/

namespace Target

def vAbs (target : Target) : Int := Trajectory.absV target.vMdegps

theorem accel_pos (target : Target) : 0 < target.accel ∧ target.accel ≤ int32Max := by
  have hmax : int32Max = 2147483647 := rfl
  have hrange := target.accel_range
  unfold accel
  split <;> omega

theorem direction_mul_vAbs (target : Target) : target.direction * target.vAbs = target.vMdegps := by
  unfold direction vAbs Trajectory.signV Trajectory.absV
  rcases Int.lt_trichotomy target.vMdegps 0 with hneg | hzero | hpos
  · rw [if_neg (by omega), if_pos hneg, if_neg (by omega)]
    omega
  · rw [hzero]
    rfl
  · rw [if_pos hpos, if_pos (by omega), Int.one_mul]

theorem vAbs_nonneg (target : Target) : 0 ≤ target.vAbs := by
  unfold vAbs Trajectory.absV
  split <;> omega

theorem direction_cases (target : Target) :
    (target.direction = 0 ∧ target.vAbs = 0) ∨
      ((target.direction = 1 ∨ target.direction = -1) ∧ 0 < target.vAbs) := by
  unfold direction vAbs Trajectory.signV Trajectory.absV
  rcases Int.lt_trichotomy target.vMdegps 0 with hneg | hzero | hpos
  · rw [if_neg (by omega), if_pos hneg, if_neg (by omega)]
    exact .inr ⟨.inr rfl, by omega⟩
  · rw [hzero]
    exact .inl ⟨rfl, rfl⟩
  · rw [if_pos hpos, if_pos (by omega)]
    exact .inr ⟨.inl rfl, hpos⟩

end Target

theorem reach_bounds {v : Int} (hv : 0 ≤ v ∧ v ≤ int32Max) (ha : 0 < a ∧ a ≤ int32Max) :
    a * dtToReachV v a ≤ v * 1000000 ∧ v * 1000000 < a * dtToReachV v a + a := by
  have hnum : 0 ≤ v * usPerS := Int.mul_nonneg hv.1 (by decide)
  have hquot : (dtToReachV v a : Int) = v * usPerS / a := by
    rw [Exact.dtToReachV_eq hv.1 hv.2 ha.1 ha.2, Exact.dtToReachV, if_neg (Int.not_le.mpr ha.1),
      Int.tdiv_eq_ediv_of_nonneg hnum]
    exact Int.toNat_of_nonneg (Int.ediv_nonneg hnum (Int.le_of_lt ha.1))
  rw [hquot]
  have hdiv := Int.mul_ediv_add_emod (v * usPerS) a
  have hnonneg := Int.emod_nonneg (v * usPerS) (Int.ne_of_gt ha.1)
  have hlt := Int.emod_lt_of_pos (v * usPerS) ha.1
  have hunit : (usPerS : Int) = 1000000 := rfl
  rw [hunit] at hdiv hnonneg hlt ⊢
  omega

/-- How long the new ramp has run when it is laid. -/
def elapsed (target : Target) (vInNew : Int) : Nat :=
  if vInNew ≥ target.vAbs then dtToReachV target.vAbs target.accel
  else if vInNew > 0 then dtToReachV vInNew target.accel
  else 0

/-- A new ramp, laid through a reference. -/
structure Laid (target : Target) (nowUs : Nat) (r : Ref) (tr : Trajectory) : Prop where
  speed : target.vAbs ≤ int32Max
  infinite : tr.infinite = true
  vPeak : tr.vPeakMdegps = target.vAbs
  accel : tr.accelMdegps2 = target.accel
  direction : tr.direction = target.direction
  accelDt : tr.accelDtUs = dtToReachV target.vAbs target.accel
  early : elapsed target (r.vMdegps * target.direction) ≤ nowUs
  t0 : tr.t0Us = nowUs - elapsed target (r.vMdegps * target.direction)
  x0 : ∃ dx, dxFromA target.accel (elapsed target (r.vMdegps * target.direction)) = some dx ∧
    tr.x0Mdeg = r.xMdeg - target.direction * dx
  xAccelEnd : ∃ dx, dxFromA target.accel tr.accelDtUs = some dx ∧
    tr.xAccelEndMdeg = tr.x0Mdeg + target.direction * dx ∧
    int64 tr.xAccelEndMdeg = some tr.xAccelEndMdeg

theorem dxFromA_zero (a : Int) : dxFromA a 0 = some 0 := by
  simp [dxFromA, int64, quot, usPerS]

theorem int64_idem {x y : Int} (h : int64 x = some y) : int64 y = some y := by
  obtain rfl := of_int64 h
  exact h

theorem of_before {t0 : Nat} (h : before nowUs dtUs = some t0) :
    dtUs ≤ nowUs ∧ t0 = nowUs - dtUs := by
  unfold before at h
  split at h
  · next hle => exact ⟨hle, (Option.some.inj h).symm⟩
  · cases h

variable {start : Nat × Int}

theorem of_anchor (h : anchor target nowUs dtUs xMdeg = some start) :
    dtUs ≤ nowUs ∧ start.1 = nowUs - dtUs ∧
      ∃ dx, dxFromA target.accel dtUs = some dx ∧ start.2 = xMdeg - target.direction * dx := by
  simp only [anchor, Option.bind_eq_bind, Option.bind_eq_some_iff, Option.some.injEq] at h
  obtain ⟨t, ht, dx, hdx, x, hx, rfl⟩ := h
  obtain rfl := of_int64 hx
  obtain ⟨hle, rfl⟩ := of_before ht
  exact ⟨hle, rfl, dx, hdx, rfl⟩

theorem anchor_eq (hnow : nowUs < 18446744073709551616)
    (h : anchor target nowUs dtUs xMdeg = some start) :
    (toUint64 (nowUs - dtUs), xMdeg - target.direction * Drivebase.dxFromA target.accel dtUs) =
      start := by
  obtain ⟨hle, ht0, dx, hdx, hx0⟩ := of_anchor h
  have hsub : toUint64 (nowUs - dtUs) = nowUs - dtUs := by
    unfold toUint64
    omega
  rw [hsub, of_dxFromA hdx]
  exact Prod.ext ht0.symm hx0.symm

theorem newStart_eq {vAbs : Int} (hnow : nowUs < 18446744073709551616)
    (h : newStart target nowUs vAbs r = some start) :
    (if target.direction ≠ 0 then
        if r.vMdegps * target.direction ≥ vAbs then
          (toUint64 (nowUs - dtToReachV vAbs target.accel),
            r.xMdeg - target.direction *
              Drivebase.dxFromA target.accel (dtToReachV vAbs target.accel))
        else if r.vMdegps * target.direction > 0 then
          (toUint64 (nowUs - dtToReachV (r.vMdegps * target.direction) target.accel),
            r.xMdeg - target.direction * Drivebase.dxFromA target.accel
              (dtToReachV (r.vMdegps * target.direction) target.accel))
        else (nowUs, r.xMdeg)
      else (nowUs, r.xMdeg)) = start := by
  simp only [newStart, Option.bind_eq_bind, Option.bind_eq_some_iff] at h
  obtain ⟨v, hv, h⟩ := h
  obtain ⟨rfl, -⟩ := of_int32 hv
  split at h
  · next hdir =>
    rw [if_pos hdir]
    split at h
    · next hfast =>
      rw [if_pos hfast]
      exact anchor_eq hnow h
    · next hfast =>
      rw [if_neg hfast]
      split at h
      · next hforward =>
        rw [if_pos hforward]
        exact anchor_eq hnow h
      · next hforward =>
        rw [if_neg hforward]
        exact Option.some.inj h
  · next hdir =>
    rw [if_neg hdir]
    exact Option.some.inj h

theorem of_retargetForever (hnow : nowUs < 18446744073709551616)
    (h : retargetForever tr nowUs target = some tr') :
    tr.retargetForever nowUs target.vMdegps target.accelMdegps2 = tr' := by
  unfold retargetForever at h
  unfold Trajectory.retargetForever
  split at h
  · next hfinite =>
    rw [if_pos hfinite]
    exact Option.some.inj h
  · next hinfinite =>
    rw [if_neg hinfinite]
    simp only [Option.bind_eq_bind, Option.bind_eq_some_iff, Option.some.injEq] at h
    obtain ⟨r, href, v, hv, start, hstart, dx, hdx, x, hx, rfl⟩ := h
    obtain ⟨rfl, -⟩ := of_int32 hv
    obtain rfl := of_int64 hx
    rw [← of_dxFromA hdx, ← newStart_eq hnow hstart,
      of_getReference (Bool.not_eq_false _ ▸ hinfinite) href]
    rfl

theorem of_retargets {calls : List (Nat × Target)}
    (hnow : ∀ c ∈ calls, c.1 < 18446744073709551616)
    (h : calls.foldlM (fun tr c => retargetForever tr c.1 c.2) tr = some tr') :
    calls.foldl (fun tr c => tr.retargetForever c.1 c.2.vMdegps c.2.accelMdegps2) tr = tr' := by
  induction calls generalizing tr with
  | nil => exact Option.some.inj h
  | cons c rest ih =>
    obtain ⟨hc, hrest⟩ := forall_mem_cons.mp hnow
    rw [foldlM_cons, Option.bind_eq_bind, Option.bind_eq_some_iff] at h
    obtain ⟨next, hnext, h⟩ := h
    rw [foldl_cons, of_retargetForever hc hnext]
    exact ih hrest h

/-- **A drive that stays in its types** is the one that is computed in words, with whatever targets
and whenever they come. -/
theorem of_drive {calls : List (Nat × Target)} (hnow : ∀ c ∈ calls, c.1 < 18446744073709551616)
    (h : (initForever t0Us x0Mdeg target).bind
      (calls.foldlM fun tr c => retargetForever tr c.1 c.2) = some tr) :
    calls.foldl (fun tr c => tr.retargetForever c.1 c.2.vMdegps c.2.accelMdegps2)
      (Trajectory.initForever t0Us x0Mdeg target.vMdegps target.accelMdegps2) = tr := by
  obtain ⟨start, hstart, h⟩ := Option.bind_eq_some_iff.mp h
  rw [of_initForever hstart]
  exact of_retargets hnow h

theorem elapsed_of_stop (h : target.direction = 0) (v : Int) :
    elapsed target (v * target.direction) = 0 := by
  have hzero : target.vAbs = 0 := by
    rcases target.direction_cases with ⟨-, hv⟩ | ⟨hdir, -⟩
    · exact hv
    · omega
  rw [h, Int.mul_zero, elapsed, hzero, if_pos (Int.le_refl 0)]
  have hbounds := @reach_bounds target.accel 0 (by decide) target.accel_pos
  have hpos := target.accel_pos.1
  have hle : (dtToReachV 0 target.accel : Int) ≤ 0 := by
    by_contra hgt
    have := Int.mul_pos hpos (Int.not_le.mp hgt)
    omega
  omega

/-- **The new start** lies as far back as the new ramp takes to the speed that is kept. -/
theorem of_newStart (h : newStart target nowUs target.vAbs r = some start) :
    let dt := elapsed target (r.vMdegps * target.direction)
    dt ≤ nowUs ∧ start.1 = nowUs - dt ∧
      ∃ dx, dxFromA target.accel dt = some dx ∧ start.2 = r.xMdeg - target.direction * dx := by
  simp only [newStart, Option.bind_eq_bind, Option.bind_eq_some_iff] at h
  obtain ⟨v, hv, h⟩ := h
  obtain ⟨rfl, -⟩ := of_int32 hv
  have hrest : elapsed target (r.vMdegps * target.direction) = 0 →
      some (nowUs, r.xMdeg) = some start →
      elapsed target (r.vMdegps * target.direction) ≤ nowUs ∧
        start.1 = nowUs - elapsed target (r.vMdegps * target.direction) ∧
        ∃ dx, dxFromA target.accel (elapsed target (r.vMdegps * target.direction)) = some dx ∧
          start.2 = r.xMdeg - target.direction * dx := by
    intro hzero hstart
    obtain rfl := Option.some.inj hstart
    rw [hzero]
    refine ⟨Nat.zero_le _, rfl, 0, dxFromA_zero _, ?_⟩
    rw [Int.mul_zero, Int.sub_zero]
  split at h
  · split at h
    · next hfast =>
      rw [elapsed, if_pos hfast]
      exact of_anchor h
    · next hfast =>
      split at h
      · next hforward =>
        rw [elapsed, if_neg hfast, if_pos hforward]
        exact of_anchor h
      · next hforward => exact hrest (by rw [elapsed, if_neg hfast, if_neg hforward]) h
  · next hdir => exact hrest (elapsed_of_stop (not_not.mp hdir) _) h

/-- **A retarget** lays a new ramp through the reference. -/
theorem retargetForever_spec (hinfinite : tr.infinite = true)
    (h : retargetForever tr nowUs target = some tr') :
    ∃ r, getReference tr nowUs = some r ∧ Laid target nowUs r tr' := by
  rw [retargetForever, if_neg (by rw [hinfinite]; decide)] at h
  simp only [Option.bind_eq_bind, Option.bind_eq_some_iff, Option.some.injEq] at h
  obtain ⟨r, href, v, hv, start, hstart, dx, hdx, x, hx, rfl⟩ := h
  obtain ⟨hvAbs, -, hmax⟩ := of_int32 hv
  have hvAbs' : target.vAbs = v := hvAbs
  subst hvAbs'
  obtain ⟨hearly, ht0, hx0⟩ := of_newStart hstart
  refine ⟨r, href, hmax, hinfinite, rfl, rfl, rfl, rfl, hearly, ht0, hx0, dx, hdx, ?_, ?_⟩
  · exact (of_int64 hx).symm
  · exact int64_idem hx

/-! ## The reference of a new ramp -/

/-- How long a new ramp has run, and what that says of the speed along its direction. -/
theorem elapsed_cases (hmax : target.vAbs ≤ int32Max) (s : Int) :
    (target.vAbs ≤ s ∧ elapsed target s = dtToReachV target.vAbs target.accel) ∨
      (0 < s ∧ s < target.vAbs ∧ elapsed target s ≤ dtToReachV target.vAbs target.accel ∧
        target.accel * elapsed target s ≤ s * 1000000 ∧
        s * 1000000 < target.accel * elapsed target s + target.accel) ∨
      (s ≤ 0 ∧ s < target.vAbs ∧ elapsed target s = 0) := by
  have hfull := reach_bounds ⟨target.vAbs_nonneg, hmax⟩ target.accel_pos
  by_cases hfast : s ≥ target.vAbs
  · exact .inl ⟨hfast, by rw [elapsed, if_pos hfast]⟩
  · by_cases hforward : s > 0
    · have hdt : elapsed target s = dtToReachV s target.accel := by
        rw [elapsed, if_neg hfast, if_pos hforward]
      have hbounds := reach_bounds ⟨Int.le_of_lt hforward, by omega⟩ target.accel_pos
      rw [← hdt] at hbounds
      refine .inr (.inl ⟨hforward, Int.not_le.mp hfast, ?_, hbounds⟩)
      by_contra hlong
      have hmul : target.accel * (dtToReachV target.vAbs target.accel + 1) ≤
          target.accel * elapsed target s :=
        Int.mul_le_mul_of_nonneg_left (by omega) (Int.le_of_lt target.accel_pos.1)
      rw [Int.mul_add, Int.mul_one] at hmul
      omega
    · exact .inr (.inr ⟨Int.not_lt.mp hforward, Int.not_le.mp hfast, by
        rw [elapsed, if_neg hfast, if_neg hforward]⟩)

theorem vFromA_of_dxFromA {dx v : Int} (h : dxFromA a dtUs = some dx) (ha : 0 ≤ a)
    (hv : v ≤ int32Max) (hle : a * dtUs ≤ v * 1000000) :
    vFromA a dtUs = some ((a * dtUs).tdiv usPerS) ∧ 0 ≤ (a * dtUs).tdiv usPerS ∧
      (a * dtUs).tdiv usPerS * 1000000 ≤ a * dtUs ∧
      a * dtUs < (a * dtUs).tdiv usPerS * 1000000 + 1000000 := by
  simp only [dxFromA, Option.bind_eq_bind, Option.bind_eq_some_iff] at h
  obtain ⟨dt, hdt, adt, hadt, -⟩ := h
  obtain rfl := of_int64 hdt
  have hnonneg : 0 ≤ a * dtUs := Int.mul_nonneg ha (Int.natCast_nonneg _)
  have hunit : (usPerS : Int) = 1000000 := rfl
  have hquot : (a * dtUs).tdiv usPerS = a * dtUs / 1000000 := by
    rw [Int.tdiv_eq_ediv_of_nonneg hnonneg, hunit]
  have hmax : int32Max = 2147483647 := rfl
  have hfits : int64 (a * dtUs / 1000000) = some (a * dtUs / 1000000) :=
    int64_eq_some (by omega)
  have hword : int32 (a * dtUs / 1000000) = some (a * dtUs / 1000000) :=
    int32_eq_some (by omega)
  have hsame : adt = a * dtUs := (of_int64 hadt).symm
  refine ⟨?_, by omega, by omega, by omega⟩
  simp only [vFromA, hdt, Option.bind_eq_bind, Option.bind_some, hadt]
  rw [hsame, quot, if_neg (by decide), hquot, hfits, Option.bind_some, hword]

namespace Laid

theorem ramp_le (h : Laid target nowUs r tr) {dt : Nat} (hdt : dt ≤ tr.accelDtUs) :
    target.accel * dt ≤ target.vAbs * 1000000 := by
  have hfull := reach_bounds ⟨target.vAbs_nonneg, h.speed⟩ target.accel_pos
  rw [← h.accelDt] at hfull
  have hmul : target.accel * dt ≤ target.accel * tr.accelDtUs :=
    Int.mul_le_mul_of_nonneg_left (by omega) (Int.le_of_lt target.accel_pos.1)
  omega

theorem elapsed_le (h : Laid target nowUs r tr) :
    elapsed target (r.vMdegps * target.direction) ≤ tr.accelDtUs := by
  rw [h.accelDt]
  rcases elapsed_cases h.speed (r.vMdegps * target.direction) with
    ⟨-, hdt⟩ | ⟨-, -, hdt, -⟩ | ⟨-, -, hdt⟩ <;> omega

/-- **The speed** of a new ramp is along its direction, and at the target behind the ramp. -/
theorem speed_at (h : Laid target nowUs r tr) (hle : tr.t0Us ≤ tUs) {r' : Ref}
    (href : getReference tr tUs = some r') :
    ∃ s, r'.vMdegps = target.direction * s ∧ 0 ≤ s ∧ s ≤ target.vAbs ∧
      (tr.accelDtUs ≤ tUs - tr.t0Us → r'.vMdegps = target.vMdegps) := by
  unfold getReference at href
  rw [if_neg (Nat.not_lt.mpr hle)] at href
  simp only [h.direction, h.accel, h.vPeak] at href
  have hnonneg := target.vAbs_nonneg
  split at href
  · next hdir =>
    obtain rfl := Option.some.inj href
    refine ⟨0, (Int.mul_zero _).symm, Int.le_refl 0, hnonneg, fun _ => ?_⟩
    rw [← target.direction_mul_vAbs, hdir, Int.zero_mul]
  · split at href
    · next hramp =>
      simp only [Option.bind_eq_bind, Option.bind_eq_some_iff, Option.some.injEq] at href
      obtain ⟨v, hv, dx, hdx, x, -, rfl⟩ := href
      have hle := h.ramp_le (Nat.le_of_lt hramp)
      obtain ⟨hspeed, hpos, hlow, -⟩ :=
        vFromA_of_dxFromA hdx (Int.le_of_lt target.accel_pos.1) h.speed hle
      obtain rfl := Option.some.inj (hv.symm.trans hspeed)
      refine ⟨_, rfl, hpos, by omega, ?_⟩
      intro hlong
      omega
    · simp only [Option.bind_eq_bind, Option.bind_eq_some_iff, Option.some.injEq] at href
      obtain ⟨dt, -, p, -, dx, -, x, -, rfl⟩ := href
      exact ⟨_, rfl, hnonneg, Int.le_refl _, fun _ => target.direction_mul_vAbs⟩

theorem reference_at_end (h : Laid target nowUs r tr) (hdir : target.direction ≠ 0) :
    getReference tr (tr.t0Us + tr.accelDtUs) =
      some ⟨tr.xAccelEndMdeg, target.vMdegps, 0, false⟩ := by
  obtain ⟨-, -, -, hfits⟩ := h.xAccelEnd
  have hzero : int64 0 = some 0 := rfl
  have hquot : quot 0 usPerS = some 0 := rfl
  unfold getReference
  rw [if_neg (by omega)]
  simp only [h.direction, h.vPeak, if_neg hdir, Nat.add_sub_cancel_left, Nat.lt_irrefl, if_false,
    Nat.sub_self, Int.natCast_zero, hzero, Option.bind_eq_bind, Option.bind_some, Int.mul_zero,
    hquot, Int.add_zero, hfits, target.direction_mul_vAbs]

/-- What a retarget does to the speed along the new direction: a speed of the target and more is cut
to the target, one below it is kept but for rounding, and one the other way is dropped. A target
that is less than a microsecond away is taken at once. -/
structure Steps (target : Target) (s s' : Int) : Prop where
  cut : target.vAbs ≤ s → s' = target.vAbs
  kept : 0 < s → s < target.vAbs →
    s' ≤ s ∧ s * 1000000 < s' * 1000000 + target.accel + 1000000 ∨
      s' = target.vAbs ∧ target.vAbs * 1000000 < s * 1000000 + target.accel
  dropped : s ≤ 0 → s' = 0 ∨ s' = target.vAbs ∧ target.vAbs * 1000000 < target.accel

theorem steps_ramp (h : Laid target nowUs r tr) {s s' : Int}
    (hramp : elapsed target s < tr.accelDtUs) (hnonneg : 0 ≤ s')
    (hlow : s' * 1000000 ≤ target.accel * elapsed target s)
    (hhigh : target.accel * elapsed target s < s' * 1000000 + 1000000) : Steps target s s' := by
  rcases elapsed_cases h.speed s with ⟨-, hdt⟩ | ⟨hpos, hless, -, hle, hlt⟩ | ⟨hneg, hless, hdt⟩
  · rw [h.accelDt, hdt] at hramp
    exact absurd hramp (Nat.lt_irrefl _)
  · refine ⟨fun hge => absurd hge (by omega), fun _ _ => .inl ⟨by omega, by omega⟩, ?_⟩
    intro hneg
    omega
  · rw [hdt, Int.natCast_zero, Int.mul_zero] at hlow
    exact ⟨fun hge => absurd hge (by omega), fun hpos => absurd hpos (by omega),
      fun _ => .inl (by omega)⟩

theorem steps_end (h : Laid target nowUs r tr) {s : Int}
    (hend : elapsed target s = tr.accelDtUs) : Steps target s target.vAbs := by
  have hfull := (reach_bounds ⟨target.vAbs_nonneg, h.speed⟩ target.accel_pos).2
  rw [← h.accelDt, ← hend] at hfull
  refine ⟨fun _ => rfl, fun hpos hless => .inr ⟨rfl, ?_⟩, fun hneg => .inr ⟨rfl, ?_⟩⟩
  · rcases elapsed_cases h.speed s with ⟨hge, -⟩ | ⟨-, -, -, hle, -⟩ | ⟨hneg, -, -⟩
    · omega
    · omega
    · omega
  · rcases elapsed_cases h.speed s with ⟨hge, -⟩ | ⟨hpos, -⟩ | ⟨-, -, hdt⟩
    · have hpos := target.accel_pos.1
      omega
    · omega
    · rw [hdt, Int.natCast_zero, Int.mul_zero] at hfull
      omega

/-- **The reference at the retarget.** -/
theorem reference_now (h : Laid target nowUs r tr) (hr : int64 r.xMdeg = some r.xMdeg) :
    ∃ r' s', getReference tr nowUs = some r' ∧ r'.xMdeg = r.xMdeg ∧
      r'.vMdegps = target.direction * s' ∧ Steps target (r.vMdegps * target.direction) s' := by
  obtain ⟨dx, hdx, hx0⟩ := h.x0
  have hsince : nowUs - tr.t0Us = elapsed target (r.vMdegps * target.direction) := by
    have hearly := h.early
    have ht0 := h.t0
    omega
  have hback : tr.x0Mdeg + target.direction * dx = r.xMdeg := by
    omega
  have hnot : ¬nowUs < tr.t0Us := by
    have ht0 := h.t0
    omega
  unfold getReference
  rw [if_neg hnot]
  simp only [h.direction, h.accel, h.vPeak, hsince]
  by_cases hdir : target.direction = 0
  · rw [if_pos hdir]
    refine ⟨_, 0, rfl, ?_, (Int.mul_zero _).symm, ?_⟩
    · rw [← hback, hdir, Int.zero_mul, Int.add_zero]
    · rw [hdir, Int.mul_zero]
      have hzero : target.vAbs = 0 := by
        rcases target.direction_cases with ⟨-, hv⟩ | ⟨hne, -⟩
        · exact hv
        · omega
      exact ⟨fun _ => hzero.symm, fun hpos => absurd hpos (Int.lt_irrefl 0), fun _ => .inl rfl⟩
  · rw [if_neg hdir]
    by_cases hramp : elapsed target (r.vMdegps * target.direction) < tr.accelDtUs
    · rw [if_pos hramp]
      obtain ⟨hspeed, hpos, hlow, hhigh⟩ := vFromA_of_dxFromA hdx
        (Int.le_of_lt target.accel_pos.1) h.speed (h.ramp_le (Nat.le_of_lt hramp))
      simp only [hspeed, hdx, Option.bind_eq_bind, Option.bind_some, hback, hr]
      exact ⟨_, _, rfl, rfl, rfl, h.steps_ramp hramp hpos hlow hhigh⟩
    · have hend : elapsed target (r.vMdegps * target.direction) = tr.accelDtUs := by
        have hle := h.elapsed_le
        omega
      obtain ⟨dxEnd, hdxEnd, hxEnd, -⟩ := h.xAccelEnd
      rw [hend, hdxEnd] at hdx
      obtain rfl := Option.some.inj hdx
      have hzero : int64 0 = some 0 := rfl
      have hquot : quot 0 usPerS = some 0 := rfl
      rw [if_neg hramp]
      simp only [hend, Nat.sub_self, Int.natCast_zero, hzero, Option.bind_eq_bind,
        Option.bind_some, Int.mul_zero, hquot, Int.add_zero, hxEnd, hback, hr]
      exact ⟨_, _, rfl, rfl, rfl, h.steps_end hend⟩

end Laid

/-! ## Drives -/

/-- The drives without an end that there are. The times of the targets need not be in order. -/
inductive Reachable : Trajectory → Prop where
  | init {t0Us : Nat} {x0Mdeg : Int} {target : Target} {tr : Trajectory}
      (hx : int64 x0Mdeg = some x0Mdeg) (h : initForever t0Us x0Mdeg target = some tr) :
      Reachable tr
  | retarget {tr tr' : Trajectory} {nowUs : Nat} {target : Target} (h : Reachable tr)
      (hnext : retargetForever tr nowUs target = some tr') : Reachable tr'

theorem int64_getReference (hx : int64 tr.x0Mdeg = some tr.x0Mdeg)
    (h : getReference tr tUs = some r) : int64 r.xMdeg = some r.xMdeg := by
  unfold getReference at h
  split at h
  · obtain rfl := Option.some.inj h
    exact hx
  · simp only at h
    split at h
    · obtain rfl := Option.some.inj h
      exact hx
    · split at h
      · simp only [Option.bind_eq_bind, Option.bind_eq_some_iff, Option.some.injEq] at h
        obtain ⟨v, -, dx, -, x, hx', rfl⟩ := h
        exact int64_idem hx'
      · simp only [Option.bind_eq_bind, Option.bind_eq_some_iff, Option.some.injEq] at h
        obtain ⟨dt, -, p, -, dx, -, x, hx', rfl⟩ := h
        exact int64_idem hx'

theorem int64_newStart {vAbs : Int} (hr : int64 r.xMdeg = some r.xMdeg)
    (h : newStart target nowUs vAbs r = some start) : int64 start.2 = some start.2 := by
  simp only [newStart, Option.bind_eq_bind, Option.bind_eq_some_iff] at h
  obtain ⟨v, -, h⟩ := h
  have hanchor : ∀ dt, anchor target nowUs dt r.xMdeg = some start →
      int64 start.2 = some start.2 := by
    intro dt h
    simp only [anchor, Option.bind_eq_bind, Option.bind_eq_some_iff, Option.some.injEq] at h
    obtain ⟨t, -, dx, -, x, hx, rfl⟩ := h
    exact int64_idem hx
  split at h
  · split at h
    · exact hanchor _ h
    · split at h
      · exact hanchor _ h
      · obtain rfl := Option.some.inj h
        exact hr
  · obtain rfl := Option.some.inj h
    exact hr

/-- **What is reached** has no end, and starts at a position of 64 bits. -/
theorem Reachable.spec (h : Reachable tr) :
    tr.infinite = true ∧ int64 tr.x0Mdeg = some tr.x0Mdeg := by
  induction h with
  | init hx h =>
    simp only [initForever, Option.bind_eq_bind, Option.bind_eq_some_iff, Option.some.injEq] at h
    obtain ⟨v, -, dx, -, x, -, rfl⟩ := h
    exact ⟨rfl, hx⟩
  | retarget _ hnext ih =>
    obtain ⟨hinfinite, hx⟩ := ih
    rw [retargetForever, if_neg (by rw [hinfinite]; decide)] at hnext
    simp only [Option.bind_eq_bind, Option.bind_eq_some_iff, Option.some.injEq] at hnext
    obtain ⟨r, href, v, -, start, hstart, dx, -, x, -, rfl⟩ := hnext
    exact ⟨hinfinite, int64_newStart (int64_getReference hx href) hstart⟩

/-- **A retarget** of a drive that is reached. The reference is where it was, its speed makes the
step that it is allowed, and from then on it does not exceed the new target, which it reaches. -/
theorem retarget_continues (h : Reachable tr) (hnext : retargetForever tr nowUs target = some tr') :
    (∃ r r' s', getReference tr nowUs = some r ∧ getReference tr' nowUs = some r' ∧
      r'.xMdeg = r.xMdeg ∧ r'.vMdegps = target.direction * s' ∧
      Laid.Steps target (r.vMdegps * target.direction) s') ∧
    (∀ laterUs r', nowUs ≤ laterUs → getReference tr' laterUs = some r' →
      ∃ s, r'.vMdegps = target.direction * s ∧ 0 ≤ s ∧ s ≤ target.vAbs) ∧
    ∃ endUs r', nowUs ≤ endUs ∧ endUs ≤ nowUs + dtToReachV target.vAbs target.accel ∧
      getReference tr' endUs = some r' ∧ r'.vMdegps = target.vMdegps ∧
      ∀ laterUs r', endUs ≤ laterUs → getReference tr' laterUs = some r' →
        r'.vMdegps = target.vMdegps := by
  obtain ⟨hinfinite, hx⟩ := h.spec
  obtain ⟨r, href, hlaid⟩ := retargetForever_spec hinfinite hnext
  have ht0 := hlaid.t0
  refine ⟨?_, ?_, ?_⟩
  · obtain ⟨r', s', href', hpos, hspeed, hsteps⟩ :=
      hlaid.reference_now (int64_getReference hx href)
    exact ⟨r, r', s', href, href', hpos, hspeed, hsteps⟩
  · intro laterUs r' hlater href'
    obtain ⟨s, hs, hnonneg, hmax, -⟩ := hlaid.speed_at (by omega) href'
    exact ⟨s, hs, hnonneg, hmax⟩
  · by_cases hdir : target.direction = 0
    · have hstop : ∀ laterUs r', nowUs ≤ laterUs → getReference tr' laterUs = some r' →
          r'.vMdegps = target.vMdegps := by
        intro laterUs r' hlater href'
        obtain ⟨s, hs, -⟩ := hlaid.speed_at (by omega) href'
        rw [hs, ← target.direction_mul_vAbs, hdir, Int.zero_mul, Int.zero_mul]
      obtain ⟨r', s', href', -⟩ := hlaid.reference_now (int64_getReference hx href)
      exact ⟨nowUs, r', Nat.le_refl _, Nat.le_add_right _ _, href',
        hstop nowUs r' (Nat.le_refl _) href', hstop⟩
    · have hlong := hlaid.elapsed_le
      have haccel := hlaid.accelDt
      refine ⟨_, _, ?_, ?_, hlaid.reference_at_end hdir, rfl, ?_⟩
      · omega
      · omega
      · intro laterUs r' hlater href'
        obtain ⟨s, -, -, -, hend⟩ := hlaid.speed_at (by omega) href'
        exact hend (by omega)

/-- A degree in a second, reached in a second. -/
def slow : Target := ⟨1000, 1000, by decide, by decide⟩

def faster : Target := ⟨2000, 1000, by decide, by decide⟩

theorem retarget_continues_faster :
    let tr : Trajectory :=
      { infinite := true, vPeakMdegps := 1000, accelMdegps2 := 1000, decelMdegps2 := 1000
        direction := 1, accelDtUs := 1000000, xAccelEndMdeg := 500, xCruiseEndMdeg := 500 }
    let tr' : Trajectory :=
      { infinite := true, vPeakMdegps := 2000, accelMdegps2 := 1000, decelMdegps2 := 1000
        direction := 1, accelDtUs := 2000000, xAccelEndMdeg := 2000, xCruiseEndMdeg := 2000 }
    (∃ r r' s', getReference tr 500000 = some r ∧ getReference tr' 500000 = some r' ∧
      r'.xMdeg = r.xMdeg ∧ r'.vMdegps = faster.direction * s' ∧
      Laid.Steps faster (r.vMdegps * faster.direction) s') ∧
    (∀ laterUs r', 500000 ≤ laterUs → getReference tr' laterUs = some r' →
      ∃ s, r'.vMdegps = faster.direction * s ∧ 0 ≤ s ∧ s ≤ faster.vAbs) ∧
    ∃ endUs r', 500000 ≤ endUs ∧ endUs ≤ 500000 + dtToReachV faster.vAbs faster.accel ∧
      getReference tr' endUs = some r' ∧ r'.vMdegps = faster.vMdegps ∧
      ∀ laterUs r', endUs ≤ laterUs → getReference tr' laterUs = some r' →
        r'.vMdegps = faster.vMdegps :=
  retarget_continues (@Reachable.init 0 0 slow _ (by decide) (by decide)) (by decide)

theorem of_drive_faster :
    [(500000, faster)].foldl (fun tr c => tr.retargetForever c.1 c.2.vMdegps c.2.accelMdegps2)
      (Trajectory.initForever 0 0 slow.vMdegps slow.accelMdegps2) =
    { infinite := true, vPeakMdegps := 2000, accelMdegps2 := 1000, decelMdegps2 := 1000
      direction := 1, accelDtUs := 2000000, xAccelEndMdeg := 2000, xCruiseEndMdeg := 2000 } :=
  of_drive (by decide) (by decide)

/-- A target that is half a microsecond away is taken at once, a speed that falls between two
microseconds is rounded down, and a ramp that would have to start before the beginning of time
starts at its end: the reference is back where the ramp starts, and at rest. -/
theorem not_retarget_continues :
    (∃ tr tr' r r', Reachable tr ∧
      retargetForever tr 1 ⟨1500, 1000000000, by decide, by decide⟩ = some tr' ∧
      getReference tr 1 = some r ∧ getReference tr' 1 = some r' ∧
      r.vMdegps = 1000 ∧ r'.vMdegps = 1500) ∧
    (∃ tr tr' r r', Reachable tr ∧
      retargetForever tr 5000000 ⟨100, 3, by decide, by decide⟩ = some tr' ∧
      getReference tr 5000000 = some r ∧ getReference tr' 5000000 = some r' ∧
      r.vMdegps = 7 ∧ r'.vMdegps = 6) ∧
    let tr := Trajectory.initForever 0 0 1000 1000
    tr.getReference 1000000 = ⟨500, 1000, 0, false⟩ ∧
      (tr.retargetForever 1000000 500 100).getReference 1000000 = ⟨-750, 0, 0, false⟩ := by
  refine ⟨?_, ?_, by decide⟩
  · exact ⟨_, _, _, _,
      @Reachable.init 0 0 ⟨1000, 1000000000, by decide, by decide⟩ _ (by decide) rfl,
      rfl, rfl, rfl, by decide⟩
  · exact ⟨_, _, _, _,
      @Reachable.init 0 0 ⟨7, 7, by decide, by decide⟩ _ (by decide) rfl,
      rfl, rfl, rfl, by decide⟩

end Brickwright.Drivebase.Retarget
