import Brickwright.Bits.Checked
import Brickwright.Drivebase.Regulator

/-!
# The integrator

The output of an update and its integrator are capped, whatever comes (`bounded_run`). The 64-bit
arithmetic fits, and an output that is past its limit does not wind the integrator up further, in
the runs whose updates are `Sparing`, and only in those (`kept_iff`): the tick is not so long that
the products with it overflow, and the speed does not outweigh the position in the integrator while
the output is past the limit on the speed's side, because the gate looks at the position alone.
-/

namespace Brickwright.Drivebase.Pid

open List

/-- What an update computes in 64 bits for its output. -/
def outputTerms (st : Pid) (inp : PidInput) : List Int :=
  [inp.refXMdeg - inp.actXMdeg,
    inp.gains.kpPos * posErr inp, pTerm inp,
    inp.gains.kdPos * toInt32 (posErr inp - st.prevPosErrMdeg), dTerm st inp,
    inp.gains.kpSpeed * speedErr inp, kpv inp, st.iAcc.tdiv 256,
    pTerm inp + dTerm st inp, pTerm inp + dTerm st inp + kpv inp,
    pTerm inp + dTerm st inp + kpv inp + st.iAcc.tdiv 256, outUnsat st inp]

def integralTerms (st : Pid) (inp : PidInput) : List Int :=
  [inp.gains.kiPos * posErr inp, inp.gains.kiPos * posErr inp * inp.dtMs, posStep inp,
    st.iAcc + posStep inp,
    inp.gains.kiSpeed * speedErr inp, inp.gains.kiSpeed * speedErr inp * inp.dtMs, speedStep inp,
    st.iAcc + posStep inp + speedStep inp, iClip inp.gains, -iClip inp.gains]

def intermediates (st : Pid) (inp : PidInput) : List Int :=
  outputTerms st inp ++ if freezes st inp then [] else integralTerms st inp

def NoOverflow (st : Pid) (inp : PidInput) : Prop := ∀ x ∈ intermediates st inp, Wide x

/-- An output past its limit does not move the integrator further that way. -/
def NoWindup (st : Pid) (inp : PidInput) : Prop :=
  (outUnsat st inp > inp.gains.outMax → (st.updateWord inp).1.iAcc ≤ st.iAcc) ∧
    (outUnsat st inp < inp.gains.outMin → st.iAcc ≤ (st.updateWord inp).1.iAcc)

/-- What an update is to keep, when it computes something. -/
def Kept (st : Pid) (inp : PidInput) : Prop :=
  st.latchedPassiveDone = false → NoOverflow st inp ∧ NoWindup st inp

/-- The output and the integrator are within their bounds. -/
def Bounded (st : Pid) (inp : PidInput) : Prop :=
  (inp.gains.outMin ≤ (st.updateWord inp).2.duty ∧
      (st.updateWord inp).2.duty ≤ inp.gains.outMax) ∧
    ((st.updateWord inp).1.iAcc.natAbs : Int) ≤ iClip inp.gains

/-- The products fit, and the integrator is not moved past a limit by a speed that outweighs the
position. -/
structure Sparing (st : Pid) (inp : PidInput) : Prop where
  difference : Wide (inp.refXMdeg - inp.actXMdeg)
  products : freezes st inp = false →
    Wide (inp.gains.kiPos * posErr inp * inp.dtMs) ∧
      Wide (inp.gains.kiSpeed * speedErr inp * inp.dtMs)
  high : freezes st inp = false → satHigh st inp = true → 0 < posStep inp + speedStep inp →
    st.iAcc = iClip inp.gains
  low : freezes st inp = false → satLow st inp = true → posStep inp + speedStep inp < 0 →
    st.iAcc = -iClip inp.gains

variable {cfg : Settings} {axis : Axis} {st : Pid} {inp : PidInput}

/-! ## Single updates -/

theorem capped_range {g : Gains} (hg : 0 ≤ iClip g) (x : Int) :
    ((capped g x).natAbs : Int) ≤ iClip g := by
  unfold capped
  simp only
  split <;> omega

theorem capped_le_iff {g : Gains} (h : (st.iAcc.natAbs : Int) ≤ iClip g) (step : Int) :
    (capped g (st.iAcc + step) ≤ st.iAcc ↔ (0 < step → st.iAcc = iClip g)) ∧
      (st.iAcc ≤ capped g (st.iAcc + step) ↔ (step < 0 → st.iAcc = -iClip g)) := by
  unfold capped
  simp only
  constructor
  · split <;> omega
  · split <;> omega

theorem updateWord_iAcc (hlive : st.latchedPassiveDone = false) (inp : PidInput) :
    (st.updateWord inp).1.iAcc = if freezes st inp then st.iAcc else integrateWord st inp := by
  rw [updateWord_of_live hlive]
  obtain ⟨hkeeps, -⟩ := arbitrate_keeps ((st.controlWord inp).1.bookkeepWord inp) inp
    (st.controlWord inp).2
  rw [hkeeps.iAcc]
  unfold bookkeepWord
  split <;> rfl

/-- How large the terms of an update are. -/
structure Terms (st : Pid) (inp : PidInput) : Prop where
  kpPos : (inp.gains.kpPos * posErr inp).natAbs ≤ 21474836480000
  pTerm : (pTerm inp).natAbs ≤ 21474836480000
  kdPos : (inp.gains.kdPos * toInt32 (posErr inp - st.prevPosErrMdeg)).natAbs ≤ 21474836480000
  dTerm : (dTerm st inp).natAbs ≤ 21474836480000
  kpSpeed : (inp.gains.kpSpeed * speedErr inp).natAbs ≤ 21474836480000
  kpv : (kpv inp).natAbs ≤ 21474836480000
  kiPos : (inp.gains.kiPos * posErr inp).natAbs ≤ 21474836480000
  kiSpeed : (inp.gains.kiSpeed * speedErr inp).natAbs ≤ 21474836480000
  iClip : iClip inp.gains ≤ 2560000

theorem natAbs_le_of_int32 {x : Int} (h : int32Min ≤ x ∧ x ≤ int32Max) : x.natAbs ≤ 2147483648 := by
  unfold int32Min int32Max at h
  omega

theorem natAbs_le_of_gain {k : Int} (h : 0 ≤ k ∧ k ≤ 10000) : k.natAbs ≤ 10000 := by omega

theorem terms (hg : inp.gains.Accepted) (st : Pid) : Terms st inp := by
  have hpos := natAbs_le_of_int32 (posErr_range inp)
  have hspeed := natAbs_le_of_int32 (toInt32_range (inp.refVMdegps - inp.actVMdegps))
  have hdiff := natAbs_le_of_int32 (toInt32_range (posErr inp - st.prevPosErrMdeg))
  have hkp := natAbs_le_of_gain ⟨Int.le_of_lt hg.kpPos.1, hg.kpPos.2⟩
  have hkpPos := Checked.natAbs_mul_le hkp hpos
  have hkdPos := Checked.natAbs_mul_le (natAbs_le_of_gain hg.kdPos) hdiff
  have hkpSpeed := Checked.natAbs_mul_le (natAbs_le_of_gain hg.kpSpeed) hspeed
  refine ⟨hkpPos, Checked.natAbs_tdiv_le _ hkpPos, hkdPos, ?_, hkpSpeed,
    Checked.natAbs_tdiv_le _ hkpSpeed, Checked.natAbs_mul_le (natAbs_le_of_gain hg.kiPos) hpos,
    Checked.natAbs_mul_le (natAbs_le_of_gain hg.kiSpeed) hspeed, ?_⟩
  · unfold dTerm
    split
    · exact Checked.natAbs_tdiv_le _ hkdPos
    · exact Nat.zero_le _
  · have hmax := hg.outMax.2
    unfold Settings.outMaxLimit at hmax
    unfold iClip
    omega

theorem wide_of_natAbs_le {x : Int} {n : Nat} (h : x.natAbs ≤ n) (hn : n ≤ 9223372036854775807) :
    Wide x := by
  unfold Wide
  omega

theorem natAbs_step {x : Int} (h : Wide x) : ((toInt64 x).tdiv 1000).natAbs ≤ 9223372036854776 := by
  rw [toInt64_of_wide h, Int.natAbs_tdiv]
  unfold Wide at h
  show x.natAbs / 1000 ≤ _
  omega

theorem wide_sums {p d v i f : Int} (hp : p.natAbs ≤ 21474836480000)
    (hd : d.natAbs ≤ 21474836480000) (hv : v.natAbs ≤ 21474836480000) (hi : i.natAbs ≤ 2560000)
    (hf : f.natAbs ≤ 2147483648) :
    Wide (p + d) ∧ Wide (p + d + v) ∧ Wide (p + d + v + i) ∧ Wide (p + d + v + i + f) := by
  unfold Wide
  omega

theorem wide_integrals {i s t c : Int} (hi : i.natAbs ≤ 2560000) (hs : s.natAbs ≤ 9223372036854776)
    (ht : t.natAbs ≤ 9223372036854776) (hc : 0 ≤ c ∧ c ≤ 2560000) :
    Wide (i + s) ∧ Wide (i + s + t) ∧ Wide c ∧ Wide (-c) := by
  unfold Wide
  omega

section

variable (hg : inp.gains.Accepted) (hi : (st.iAcc.natAbs : Int) ≤ iClip inp.gains)

include hg hi

theorem iAcc_small : st.iAcc.natAbs ≤ 2560000 ∧ 0 ≤ iClip inp.gains := by
  have hclip := (terms hg st).iClip
  omega

theorem wide_outputTerms (hff : int32Min ≤ inp.dutyFf ∧ inp.dutyFf ≤ int32Max) :
    (∀ x ∈ outputTerms st inp, Wide x) ↔ Wide (inp.refXMdeg - inp.actXMdeg) := by
  obtain ⟨hkpPos, hp, hkdPos, hd, hkpSpeed, hv, -, -, -⟩ := terms hg st
  have hquot : (st.iAcc.tdiv 256).natAbs ≤ 2560000 :=
    Checked.natAbs_tdiv_le _ (iAcc_small hg hi).1
  obtain ⟨hpd, hpdv, hpdvi, hout⟩ := wide_sums hp hd hv hquot (natAbs_le_of_int32 hff)
  constructor
  · intro hall
    exact hall _ mem_cons_self
  · intro hdiff
    simp only [outputTerms, forall_mem_cons]
    refine ⟨hdiff, wide_of_natAbs_le hkpPos (by decide), wide_of_natAbs_le hp (by decide),
      wide_of_natAbs_le hkdPos (by decide), wide_of_natAbs_le hd (by decide),
      wide_of_natAbs_le hkpSpeed (by decide), wide_of_natAbs_le hv (by decide),
      wide_of_natAbs_le hquot (by decide), hpd, hpdv, hpdvi, hout, ?_⟩
    intro x hx
    cases hx

theorem wide_integralTerms :
    (∀ x ∈ integralTerms st inp, Wide x) ↔ Wide (inp.gains.kiPos * posErr inp * inp.dtMs) ∧
      Wide (inp.gains.kiSpeed * speedErr inp * inp.dtMs) := by
  obtain ⟨-, -, -, -, -, -, hkiPos, hkiSpeed, hclip⟩ := terms hg st
  obtain ⟨hsmall, hnonneg⟩ := iAcc_small hg hi
  simp only [integralTerms, forall_mem_cons]
  constructor
  · rintro ⟨-, hpos, -, -, -, hspeed, -⟩
    exact ⟨hpos, hspeed⟩
  · rintro ⟨hpos, hspeed⟩
    obtain ⟨hone, htwo, hcap, hcap'⟩ :=
      wide_integrals hsmall (natAbs_step hpos) (natAbs_step hspeed) ⟨hnonneg, hclip⟩
    refine ⟨wide_of_natAbs_le hkiPos (by decide), hpos,
      wide_of_natAbs_le (natAbs_step hpos) (by decide), hone,
      wide_of_natAbs_le hkiSpeed (by decide), hspeed,
      wide_of_natAbs_le (natAbs_step hspeed) (by decide), htwo, hcap, hcap', ?_⟩
    intro x hx
    cases hx

/-- **What can overflow**: the difference of the positions, and the products with the tick. -/
theorem noOverflow_iff (hff : int32Min ≤ inp.dutyFf ∧ inp.dutyFf ≤ int32Max) :
    NoOverflow st inp ↔ Wide (inp.refXMdeg - inp.actXMdeg) ∧ (freezes st inp = false →
      Wide (inp.gains.kiPos * posErr inp * inp.dtMs) ∧
        Wide (inp.gains.kiSpeed * speedErr inp * inp.dtMs)) := by
  unfold NoOverflow intermediates
  rw [forall_mem_append, wide_outputTerms hg hi hff]
  refine and_congr_right fun _ => ?_
  cases freezes st inp with
  | true => simp
  | false =>
    rw [if_neg Bool.false_ne_true, wide_integralTerms hg hi]
    exact ⟨fun hwide _ => hwide, fun hwide => hwide rfl⟩

/-- **What can wind up**, where nothing overflows. -/
theorem noWindup_iff (hlive : st.latchedPassiveDone = false)
    (hproducts : freezes st inp = false → Wide (inp.gains.kiPos * posErr inp * inp.dtMs) ∧
      Wide (inp.gains.kiSpeed * speedErr inp * inp.dtMs)) :
    NoWindup st inp ↔
      (freezes st inp = false → satHigh st inp = true → 0 < posStep inp + speedStep inp →
        st.iAcc = iClip inp.gains) ∧
      (freezes st inp = false → satLow st inp = true → posStep inp + speedStep inp < 0 →
        st.iAcc = -iClip inp.gains) := by
  unfold NoWindup
  rw [updateWord_iAcc hlive]
  simp only [satHigh, satLow, decide_eq_true_iff]
  cases hfreezes : freezes st inp with
  | true => simp
  | false =>
    obtain ⟨hsmall, hnonneg⟩ := iAcc_small hg hi
    obtain ⟨hpos, hspeed⟩ := hproducts hfreezes
    have hposStep : (posStep inp).natAbs ≤ 9223372036854776 := natAbs_step hpos
    have hspeedStep : (speedStep inp).natAbs ≤ 9223372036854776 := natAbs_step hspeed
    obtain ⟨hone, htwo, -, -⟩ :=
      wide_integrals hsmall hposStep hspeedStep ⟨hnonneg, (terms hg st).iClip⟩
    have hint : integrateWord st inp =
        capped inp.gains (st.iAcc + (posStep inp + speedStep inp)) := by
      rw [integrateWord, toInt64_of_wide hone, toInt64_of_wide htwo, Int.add_assoc]
    obtain ⟨hle, hge⟩ := capped_le_iff hi (posStep inp + speedStep inp)
    rw [if_neg Bool.false_ne_true, hint, hle, hge]
    simp

/-- **What an update is to keep**, it keeps when it is sparing. -/
theorem kept_iff_sparing (hff : int32Min ≤ inp.dutyFf ∧ inp.dutyFf ≤ int32Max) :
    Kept st inp ↔ (st.latchedPassiveDone = false → Sparing st inp) := by
  refine forall_congr' fun hlive => ?_
  constructor
  · rintro ⟨hfits, hwindup⟩
    obtain ⟨hdiff, hproducts⟩ := (noOverflow_iff hg hi hff).mp hfits
    obtain ⟨hhigh, hlow⟩ := (noWindup_iff hg hi hlive hproducts).mp hwindup
    exact ⟨hdiff, hproducts, hhigh, hlow⟩
  · intro hsparing
    exact ⟨(noOverflow_iff hg hi hff).mpr ⟨hsparing.difference, hsparing.products⟩,
      (noWindup_iff hg hi hlive hsparing.products).mpr ⟨hsparing.high, hsparing.low⟩⟩

/-- **The bounds**, whatever comes. -/
theorem bounded : Bounded st inp := by
  have hmax := hg.outMax.1
  have hmin := hg.outMin
  obtain ⟨-, hnonneg⟩ := iAcc_small hg hi
  unfold Bounded
  cases hlatched : st.latchedPassiveDone with
  | true =>
    rw [updateWord, hlatched, if_pos rfl]
    refine ⟨?_, hi⟩
    show inp.gains.outMin ≤ 0 ∧ 0 ≤ inp.gains.outMax
    omega
  | false =>
    refine ⟨?_, ?_⟩
    · rw [updateWord_of_live hlatched]
      obtain ⟨-, -, hduty | hduty⟩ := arbitrate_keeps ((st.controlWord inp).1.bookkeepWord inp) inp
        (st.controlWord inp).2
      · rw [hduty]
        unfold controlWord clampI32
        split
        · omega
        · split <;> omega
      · omega
    · rw [updateWord_iAcc hlatched]
      split
      · exact hi
      · exact capped_range hnonneg _

end

/-! ## Runs -/

/-- The integrator is capped: the invariant. -/
def Capped (cfg : Settings) (axis : Axis) (st : Pid) : Prop :=
  (st.iAcc.natAbs : Int) ≤ iClip (cfg.gains axis)

/-- **The integrator of an axis.** The output and the integrator are within their bounds in every
run. Nothing overflows in it and nothing winds up if and only if its updates are sparing. -/
theorem kept_iff (hcfg : cfg.Accepted) (ticks : List (Tick cfg axis)) :
    (machine cfg axis).Throughout (fun st t => Bounded st t.inp) reset ticks ∧
      ((machine cfg axis).Throughout (fun st t => Kept st t.inp) reset ticks ↔
        (machine cfg axis).Throughout
          (fun st t => st.latchedPassiveDone = false → Sparing st t.inp) reset ticks) := by
  have hgains : ∀ t : Tick cfg axis, t.inp.gains.Accepted := fun t => t.gains ▸ hcfg.gains axis
  have hcapped : ∀ (st : Pid) (t : Tick cfg axis), Capped cfg axis st →
      (st.iAcc.natAbs : Int) ≤ iClip t.inp.gains := fun st t hi => t.gains ▸ hi
  have hbounded : ∀ (st : Pid) (t : Tick cfg axis), Capped cfg axis st → True →
      Bounded st t.inp ∧ Capped cfg axis ((machine cfg axis).step st t).1 := by
    intro st t hi _
    have hstep := bounded (hgains t) (hcapped st t hi)
    refine ⟨hstep, ?_⟩
    have hnext := hstep.2
    rw [t.gains] at hnext
    exact hnext
  have hkept : ∀ (st : Pid) (t : Tick cfg axis), Capped cfg axis st →
      (Kept st t.inp ↔ (st.latchedPassiveDone = false → Sparing st t.inp)) ∧
        (Kept st t.inp → Capped cfg axis ((machine cfg axis).step st t).1) := by
    intro st t hi
    refine ⟨kept_iff_sparing (hgains t) (hcapped st t hi) t.dutyFf, ?_⟩
    intro _
    exact (hbounded st t hi trivial).2
  have hstart : Capped cfg axis reset := by
    have hmax := (hcfg.gains axis).outMax.1
    unfold Capped iClip
    show (0 : Int) ≤ _
    omega
  have hall : (machine cfg axis).Throughout (fun _ _ => True) reset ticks :=
    (machine cfg axis).throughout_of_forall (fun _ _ _ => trivial) reset
  exact ⟨(machine cfg axis).throughout_of_invariant hbounded hstart hall,
    (machine cfg axis).throughout_congr hkept hstart ticks⟩

theorem kept_near :
    let t := restingTick 8000 (by decide)
    NoOverflow reset t.inp ∧ NoWindup reset t.inp ∧ (reset.updateWord t.inp).1.iAcc = -2000 := by
  intro t
  have hsparing : Sparing reset t.inp := by
    refine ⟨by decide, fun _ => by decide, fun _ hhigh => ?_, fun _ hlow => ?_⟩
    · exact absurd hhigh (by decide)
    · exact absurd hlow (by decide)
  have hkept := (kept_iff Settings.accepted_defaults [t]).2.mpr ⟨fun _ => hsparing, trivial⟩
  obtain ⟨hfits, hwindup⟩ := hkept.1 rfl
  exact ⟨hfits, hwindup, by decide⟩

/-- Settings whose integrator takes the speed. -/
def speedSettings : Settings :=
  { Settings.defaults with
    gains := fun axis => { Settings.defaults.gains axis with kpSpeed := 100, kiSpeed := 10 } }

theorem accepted_speedSettings : speedSettings.Accepted := by
  refine ⟨fun axis => ?_, Settings.accepted_defaults.completion⟩
  cases axis <;> constructor <;> decide

theorem wide_zero : Wide 0 := by decide

theorem int32_zero : int32Min ≤ 0 ∧ 0 ≤ int32Max := by decide

/-- A wheel that is 4 degrees too far and too slow. -/
def laggingTick (refVMdegps : Int) (dtMs : Nat)
    (hv : int32Min ≤ refVMdegps ∧ refVMdegps ≤ int32Max) (hdt : dtMs < 4294967296) :
    Tick speedSettings .distance where
  inp :=
    { refXMdeg := 0, refVMdegps := refVMdegps, actXMdeg := 4000, actVMdegps := 0, dtMs := dtMs,
      gains := speedSettings.gains .distance, completion := speedSettings.completionAxis .distance,
      dutyFf := 0, trajectoryDone := false, onCompletion := .hold }
  gains := rfl
  completion := rfl
  refX := wide_zero
  actX := (by decide : Wide 4000)
  refV := hv
  actV := int32_zero
  dtMs := hdt
  dutyFf := int32_zero

/-- The output is past its upper limit, and the integrator goes up: the position alone is asked. In
a tick of 50 days the product overflows. -/
theorem not_kept : speedSettings.Accepted ∧
    ¬NoWindup reset (laggingTick 200000 2 (by decide) (by decide)).inp ∧
      ¬NoOverflow reset (laggingTick 300000000 4294967295 (by decide) (by decide)).inp := by
  refine ⟨accepted_speedSettings, ?_, ?_⟩
  · intro hwindup
    exact absurd (hwindup.1 (by decide)) (by decide)
  · intro hfits
    exact absurd (hfits 12884901885000000000 (by decide)) (by decide)

end Brickwright.Drivebase.Pid
