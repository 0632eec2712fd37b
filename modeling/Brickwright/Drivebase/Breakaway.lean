import Brickwright.Drivebase.Base

/-!
# The terminal breakaway

A wheel that stands short of its target when the trajectory is done is pushed towards it, with at
least the duty that breaks it away. That happens once in a move: `apply_breakaway_floor` is done
when the wheel has been pushed and is then near its target or behind it. `db_drivebase_update`
re-arms it in every tick in which the trajectory is not done, so between two re-arms the done flag
is set.

* `Episode` — the invariant: every push so far was to the side that the state remembers.
* `one_shot` — what holds of the calls after a re-arm.
-/

namespace Brickwright.Drivebase.Breakaway

open List

/-- The arguments of `apply_breakaway_floor`. -/
structure Call where
  pre : Int
  wheelErr : Int
  trajDone : Bool
  deriving DecidableEq

/-- A call, with the command that comes out. -/
def machine (floor : Int) : Machine FfState Call Int where
  step st c := Base.applyBreakawayFloor floor st c.pre c.wheelErr c.trajDone

/-- The side on which the target lies, outside the deadband. -/
def side (wheelErr : Int) : Int := if wheelErr > 3000 then 1 else if wheelErr < -3000 then -1 else 0

def Pushes (e : Call × Int) : Prop := e.2 ≠ e.1.pre

def Armed (st : FfState) : Prop := st.breakawayConsumed = false ∧ st.breakawaySign = 0

variable {floor : Int} {st : FfState} {c : Call}

theorem side_cases (wheelErr : Int) :
    side wheelErr = 0 ∨ side wheelErr = 1 ∨ side wheelErr = -1 := by
  unfold side
  split
  · exact .inr (.inl rfl)
  · split
    · exact .inr (.inr rfl)
    · exact .inl rfl

/-- The way of a call that is not refused at once. -/
theorem step_of_done (hfloor : floor ≠ 0) (hdone : c.trajDone = true)
    (hconsumed : st.breakawayConsumed = false) :
    (machine floor).step st c =
      if side c.wheelErr = 0 then
        (if st.breakawaySign ≠ 0 then { st with breakawayConsumed := true } else st, c.pre)
      else if st.breakawaySign ≠ 0 ∧ side c.wheelErr ≠ st.breakawaySign then
        ({ st with breakawayConsumed := true }, c.pre)
      else if (side c.wheelErr > 0 ∧ c.pre < 0) ∨ (side c.wheelErr < 0 ∧ c.pre > 0) then (st, c.pre)
      else if side c.wheelErr > 0 ∧ c.pre < floor then
        ({ st with breakawaySign := side c.wheelErr }, floor)
      else if side c.wheelErr < 0 ∧ c.pre > -floor then
        ({ st with breakawaySign := side c.wheelErr }, -floor)
      else (st, c.pre) := by
  have hnot : ¬(floor = 0 ∨ c.trajDone = false ∨ st.breakawayConsumed = true) := by
    rw [hdone, hconsumed]
    simpa using hfloor
  simp only [machine, Base.applyBreakawayFloor, if_neg hnot]
  rfl

/-- **The ways a call can go**: it is refused, the episode is over, the command is strong enough or
brakes, or the wheel is pushed. -/
theorem step_cases (floor : Int) (st : FfState) (c : Call) :
    ((floor = 0 ∨ c.trajDone = false ∨ st.breakawayConsumed = true) ∧
        (machine floor).step st c = (st, c.pre)) ∨
      (c.trajDone = true ∧ st.breakawayConsumed = false ∧ st.breakawaySign ≠ 0 ∧
        side c.wheelErr ≠ st.breakawaySign ∧
        (machine floor).step st c = ({ st with breakawayConsumed := true }, c.pre)) ∨
      (c.trajDone = true ∧ st.breakawayConsumed = false ∧
        (st.breakawaySign = 0 ∨ side c.wheelErr = st.breakawaySign) ∧
        (machine floor).step st c = (st, c.pre)) ∨
      (c.trajDone = true ∧ st.breakawayConsumed = false ∧
        (st.breakawaySign = 0 ∨ side c.wheelErr = st.breakawaySign) ∧
        (side c.wheelErr = 1 ∧ 0 ≤ c.pre ∧ c.pre < floor ∨
          side c.wheelErr = -1 ∧ c.pre ≤ 0 ∧ -floor < c.pre) ∧
        (machine floor).step st c =
          ({ st with breakawaySign := side c.wheelErr }, side c.wheelErr * floor)) := by
  by_cases hrefused : floor = 0 ∨ c.trajDone = false ∨ st.breakawayConsumed = true
  · exact .inl ⟨hrefused, if_pos hrefused⟩
  · obtain ⟨hfloor, hdone, hconsumed⟩ : floor ≠ 0 ∧ c.trajDone = true ∧
        st.breakawayConsumed = false := by simpa using hrefused
    have hstep := step_of_done hfloor hdone hconsumed
    refine .inr ?_
    by_cases hover : st.breakawaySign ≠ 0 ∧ side c.wheelErr ≠ st.breakawaySign
    · refine .inl ⟨hdone, hconsumed, hover.1, hover.2, ?_⟩
      rw [hstep, if_pos hover, if_pos hover.1, ite_self]
    · have hsame : st.breakawaySign = 0 ∨ side c.wheelErr = st.breakawaySign := by
        by_cases hsign : st.breakawaySign = 0
        · exact .inl hsign
        · exact .inr (not_not.mp fun hne => hover ⟨hsign, hne⟩)
      refine .inr ?_
      rw [if_neg hover] at hstep
      rcases side_cases c.wheelErr with hside | hside | hside
      · -- in the deadband, and nothing was pushed
        have hsign : ¬st.breakawaySign ≠ 0 := by
          rcases hsame with hzero | heq
          · exact not_not.mpr hzero
          · exact not_not.mpr (heq.symm.trans hside)
        refine .inl ⟨hdone, hconsumed, hsame, ?_⟩
        rw [hstep, if_pos hside, if_neg hsign]
      · rw [hside] at hstep
        by_cases hpush : 0 ≤ c.pre ∧ c.pre < floor
        · refine .inr ⟨hdone, hconsumed, hsame, .inl ⟨hside, hpush.1, hpush.2⟩, ?_⟩
          rw [hstep, if_neg (by decide), if_neg (by omega), if_pos ⟨Int.one_pos, hpush.2⟩, hside,
            Int.one_mul]
        · refine .inl ⟨hdone, hconsumed, hsame, ?_⟩
          rw [hstep, if_neg (by decide)]
          split
          · rfl
          · rw [if_neg (by omega), if_neg (by omega)]
      · rw [hside] at hstep
        by_cases hpush : c.pre ≤ 0 ∧ -floor < c.pre
        · refine .inr ⟨hdone, hconsumed, hsame, .inr ⟨hside, hpush.1, hpush.2⟩, ?_⟩
          rw [hstep, if_neg (by decide), if_neg (by omega), if_neg (by omega),
            if_pos ⟨by decide, hpush.2⟩, hside, Int.neg_one_mul]
        · refine .inl ⟨hdone, hconsumed, hsame, ?_⟩
          rw [hstep, if_neg (by decide)]
          split
          · rfl
          · rw [if_neg (by omega), if_neg (by omega)]

/-! ## Runs -/

/-- The pushes so far, and the state they left. -/
structure Episode (floor : Int) (h : List (Call × Int)) (st : FfState) : Prop where
  sign : st.breakawaySign = 0 ∨ st.breakawaySign = 1 ∨ st.breakawaySign = -1
  /-- Nothing was pushed yet. -/
  none : st.breakawaySign = 0 → ∀ e ∈ h, ¬Pushes e
  pushed : ∀ e ∈ h, Pushes e →
    e.1.trajDone = true ∧ side e.1.wheelErr = st.breakawaySign ∧
      e.2 = st.breakawaySign * floor ∧ 0 < st.breakawaySign * (e.2 - e.1.pre)

theorem Episode.quiet {h : List (Call × Int)} {st' : FfState} (hep : Episode floor h st)
    (hsign : st'.breakawaySign = st.breakawaySign) :
    Episode floor (h ++ [(c, c.pre)]) st' := by
  have hquiet : ¬Pushes (c, c.pre) := not_not.mpr rfl
  refine ⟨hsign ▸ hep.sign, ?_, ?_⟩
  · intro hzero e he
    rcases mem_append.mp he with he | he
    · exact hep.none (hsign ▸ hzero) e he
    · exact mem_singleton.mp he ▸ hquiet
  · intro e he hpush
    rw [hsign]
    rcases mem_append.mp he with he | he
    · exact hep.pushed e he hpush
    · exact absurd (mem_singleton.mp he ▸ hpush) hquiet

/-- **A call** keeps to the side. -/
theorem Episode.step {h : List (Call × Int)} (hep : Episode floor h st) (c : Call) :
    Episode floor (h ++ [(c, ((machine floor).step st c).2)]) ((machine floor).step st c).1 := by
  rcases step_cases floor st c with
    ⟨-, hstep⟩ | ⟨-, -, -, -, hstep⟩ | ⟨-, -, -, hstep⟩ | ⟨hdone, -, hsame, hpush, hstep⟩
  · rw [hstep]
    exact hep.quiet rfl
  · rw [hstep]
    exact hep.quiet rfl
  · rw [hstep]
    exact hep.quiet rfl
  · rw [hstep]
    have hside : side c.wheelErr = 1 ∨ side c.wheelErr = -1 := by
      rcases hpush with ⟨hside, -⟩ | ⟨hside, -⟩
      · exact .inl hside
      · exact .inr hside
    refine ⟨.inr hside, ?_, ?_⟩
    · intro hzero
      rcases hside with hside | hside <;> exact absurd (hside.symm.trans hzero) (by decide)
    · intro e he hpushes
      rcases mem_append.mp he with he | he
      · rcases hsame with hzero | heq
        · exact absurd hpushes (hep.none hzero e he)
        · rw [heq]
          exact hep.pushed e he hpushes
      · rw [mem_singleton.mp he]
        refine ⟨hdone, rfl, rfl, ?_⟩
        rcases hpush with ⟨hside, -, hless⟩ | ⟨hside, -, hless⟩
        · simp only [hside, Int.one_mul]
          omega
        · simp only [hside, Int.neg_one_mul]
          omega

theorem episode_run (harmed : Armed st) (cs : List Call) :
    Episode floor ((machine floor).trace st cs) ((machine floor).run st cs) := by
  refine Machine.trace_invariant (machine floor) (fun h st c hep => hep.step c) ?_ cs
  refine ⟨.inl harmed.2, ?_, ?_⟩
  · intro _ e he
    cases he
  · intro e he
    cases he

theorem quiet_of_over (hover : floor = 0 ∨ st.breakawayConsumed = true) (cs : List Call) :
    ∀ e ∈ (machine floor).trace st cs, ¬Pushes e := by
  induction cs with
  | nil =>
    intro e he
    cases he
  | cons c cs ih =>
    have hstep : (machine floor).step st c = (st, c.pre) := if_pos (hover.imp_right .inr)
    intro e he
    rw [Machine.trace_cons, hstep] at he
    rcases mem_cons.mp he with rfl | he
    · exact not_not.mpr rfl
    · exact ih e he

/-- A command that is no weaker, and not turned round. -/
def Stronger (pre out : Int) : Prop :=
  pre.natAbs ≤ out.natAbs ∧ (0 < pre → 0 < out) ∧ (pre < 0 → out < 0)

/-- **What a call does to a command.** -/
theorem step_stronger (hfloor : 0 ≤ floor) (st : FfState) (c : Call) :
    Stronger c.pre ((machine floor).step st c).2 := by
  unfold Stronger
  rcases step_cases floor st c with
    ⟨-, hstep⟩ | ⟨-, -, -, -, hstep⟩ | ⟨-, -, -, hstep⟩ | ⟨-, -, -, hpush, hstep⟩
  · rw [hstep]
    exact ⟨Nat.le_refl _, id, id⟩
  · rw [hstep]
    exact ⟨Nat.le_refl _, id, id⟩
  · rw [hstep]
    exact ⟨Nat.le_refl _, id, id⟩
  · rw [hstep]
    rcases hpush with ⟨hside, hpos, hless⟩ | ⟨hside, hneg, hless⟩
    · rw [hside, Int.one_mul]
      omega
    · rw [hside, Int.neg_one_mul]
      omega

/-- **The episode is over** with a call that finds the wheel at its target or behind it. -/
theorem quiet_after {h : List (Call × Int)} {a : Call × Int} (hep : Episode floor h st)
    (ha : a ∈ h) (hpush : Pushes a) (hdone : c.trajDone = true)
    (hside : side c.wheelErr ≠ side a.1.wheelErr) (cs : List Call) :
    ∀ e ∈ (machine floor).trace st (c :: cs), ¬Pushes e := by
  obtain ⟨-, hsideA, -, -⟩ := hep.pushed a ha hpush
  rw [hsideA] at hside
  rw [Machine.trace_cons]
  intro e he
  have hquiet : ∀ st', floor = 0 ∨ st'.breakawayConsumed = true →
      (machine floor).step st c = (st', c.pre) → ¬Pushes e := by
    intro st' hover hstep
    rw [hstep] at he
    rcases mem_cons.mp he with rfl | he
    · exact not_not.mpr rfl
    · exact quiet_of_over hover cs e he
  have hsign : st.breakawaySign ≠ 0 := fun hzero => hep.none hzero a ha hpush
  rcases step_cases floor st c with
    ⟨hrefused, hstep⟩ | ⟨-, -, -, -, hstep⟩ | ⟨-, -, hsame, -⟩ | ⟨-, -, hsame, -⟩
  · rcases hrefused with hfloor | hfalse | hconsumed
    · exact hquiet st (.inl hfloor) hstep
    · exact absurd (hdone.symm.trans hfalse) (by decide)
    · exact hquiet st (.inr hconsumed) hstep
  · exact hquiet _ (.inr rfl) hstep
  · rcases hsame with hzero | heq
    · exact absurd hzero hsign
    · exact absurd heq hside
  · rcases hsame with hzero | heq
    · exact absurd hzero hsign
    · exact absurd heq hside

theorem armed_of_running (cfg : Settings) (st : FfState) (vRefMdegps cmd wheelErr vbatMv : Int) :
    Armed (Base.wheelDuty cfg st vRefMdegps cmd wheelErr vbatMv false).1 := by
  unfold Base.wheelDuty Base.applyBreakawayFloor
  simp [Armed]

/-- **The breakaway between two re-arms.** All pushes are to one side, towards the target. When a
call with the flag set finds the wheel near its target, or behind it, after a push, nothing is
pushed from then on. No command gets weaker, and none turns round. -/
theorem one_shot (hfloor : 0 ≤ floor) (harmed : Armed st) (cs : List Call) :
    (∃ d, (d = 1 ∨ d = -1) ∧ ∀ e ∈ (machine floor).trace st cs, Pushes e →
      e.1.trajDone = true ∧ side e.1.wheelErr = d ∧ e.2 = d * floor ∧ 0 < d * (e.2 - e.1.pre)) ∧
    (∀ before c after, cs = before ++ c :: after → c.trajDone = true →
      (∃ a ∈ (machine floor).trace st before,
        Pushes a ∧ side c.wheelErr ≠ side a.1.wheelErr) →
      ∀ e ∈ (machine floor).trace ((machine floor).run st before) (c :: after), ¬Pushes e) ∧
    ∀ e ∈ (machine floor).trace st cs, Stronger e.1.pre e.2 := by
  refine ⟨?_, ?_, ?_⟩
  · have hep := @episode_run floor st harmed cs
    rcases hep.sign with hzero | hsign
    · refine ⟨1, .inl rfl, ?_⟩
      intro e he hpush
      exact absurd hpush (hep.none hzero e he)
    · exact ⟨_, hsign, hep.pushed⟩
  · rintro before c after - hdone ⟨a, ha, hpush, hside⟩
    exact quiet_after (episode_run harmed before) ha hpush hdone hside after
  · have hstep : ∀ (h : List (Call × Int)) (st : FfState) (c : Call),
        (∀ e ∈ h, Stronger e.1.pre e.2) →
        ∀ e ∈ h ++ [(c, ((machine floor).step st c).2)], Stronger e.1.pre e.2 := by
      intro h st c hall e he
      rcases mem_append.mp he with he | he
      · exact hall e he
      · rw [mem_singleton.mp he]
        exact step_stronger hfloor st c
    exact Machine.trace_invariant (machine floor) hstep (fun e he => nomatch he) cs

/-- A wheel that is pushed and comes to its target, after a tick that re-armed. -/
theorem one_shot_turn :
    let st := (Base.wheelDuty Settings.defaults {} 0 0 0 7200 false).1
    let cs : List Call := [⟨500, 9000, true⟩, ⟨-100, 4000, true⟩, ⟨0, 2000, true⟩, ⟨0, -9000, true⟩]
    (∀ e ∈ (machine 2600).trace st cs, Stronger e.1.pre e.2) ∧
      ((machine 2600).trace st cs).map Prod.snd = [2600, -100, 0, 0] := by
  intro st cs
  have harmed : Armed st := armed_of_running _ {} 0 0 0 7200
  exact ⟨(one_shot (by decide) harmed cs).2.2, by decide⟩

/-- A call without the flag that finds the wheel at its target ends nothing. -/
theorem not_one_shot :
    ¬∀ (before : List Call) (c : Call) (after : List Call),
      (∃ a ∈ (machine 2600).trace {} before, Pushes a ∧ side c.wheelErr ≠ side a.1.wheelErr) →
      ∀ e ∈ (machine 2600).trace ((machine 2600).run {} before) (c :: after), ¬Pushes e := by
  intro hall
  have hnever := hall [⟨0, 9000, true⟩] ⟨0, 0, false⟩ [⟨0, 9000, true⟩]
    ⟨(⟨0, 9000, true⟩, 2600), by decide, by unfold Pushes; decide, by decide⟩
  have hagain := hnever (⟨0, 9000, true⟩, 2600) (by decide)
  exact hagain (by unfold Pushes; decide)

end Brickwright.Drivebase.Breakaway
