import Mathlib.Data.List.Chain
import Brickwright.Drivebase.Base
import Brickwright.Drivebase.Observer

/-!
# The glitch gate

`drivebase_servo.c` trusts a sample of the encoder that is close to the last one it trusted. One
that is far is dropped, until ten in a row that agree with each other were far: then the wheel is
believed to be there.

* `gate_toWheel` — what the wheel keeps of a sample is what it keeps without its observer.
* `Gated` — the invariant: the samples that the run of the candidate counts are the last ones that
  were received, and they are all far and agree (`gated_run`).
-/

namespace Brickwright.Drivebase

open List

/-- `struct db_servo_s`, with its observer. -/
structure TrackedWheel extends Wheel where
  observer : Observer := .zeroed

namespace TrackedWheel

/-- A sample that `db_servo_update` got. -/
def gate (s : TrackedWheel) (xNew : Int) (timestampUs : UInt64) (dutyAbs : UInt32) :
    TrackedWheel :=
  if (xNew - s.xActualMdeg).natAbs ≤ Wheel.glitchMdeg then
    { s with
      candidateRun := 0
      xActualMdeg := xNew
      observer := s.observer.updateSample xNew timestampUs dutyAbs }
  else
    let run :=
      if s.candidateRun > 0 ∧ (xNew - s.rejectCandidateMdeg).natAbs ≤ Wheel.agreeMdeg then
        min 255 (s.candidateRun + 1)
      else 1
    let s := { s with candidateRun := run, rejectCandidateMdeg := xNew }
    if run ≥ Wheel.rebaseRun then
      { s with
        candidateRun := 0
        xActualMdeg := xNew
        observer := s.observer.reset xNew timestampUs }
    else s

/-- `db_servo_reset`. -/
def reset (invertLeft : Bool) (side : Side) (s : TrackedWheel) (m : Motors) (nowUs : Nat)
    (read : Read) : TrackedWheel × Motors × Int :=
  if !m.initialised then (s, m, -Motors.ENODEV)
  else
    let (m, drained) := m.drain invertLeft side read
    let (xActualMdeg, tLastUs) :=
      match drained with
      | .sample rawValue timestampUs =>
        (degToMdeg rawValue, if timestampUs > nowUs then nowUs else timestampUs)
      | _ => (0, nowUs)
    ({ xActualMdeg := xActualMdeg
       tLastUs := tLastUs
       observer := s.observer.reset xActualMdeg (UInt64.ofNat tLastUs) }, m, 0)

/-- `db_servo_update`. -/
def update (invertLeft : Bool) (side : Side) (s : TrackedWheel) (m : Motors) (nowUs : Nat)
    (read : Read) : TrackedWheel × Motors × Int :=
  if !m.initialised then (s, m, -Motors.ENODEV)
  else
    let (m, drained) := m.drain invertLeft side read
    let dutyAbs := UInt32.ofNat s.lastAppliedDuty.natAbs
    let (s, m) :=
      match drained with
      | .sample rawValue timestampUs =>
        (s.gate (degToMdeg rawValue) (UInt64.ofNat timestampUs) dutyAbs, m)
      | .again =>
        let dtMs := if nowUs > s.tLastUs then (nowUs - s.tLastUs) / 1000 else 0
        ({ s with observer := s.observer.idleTick (UInt32.ofNat dtMs) dutyAbs }, m)
      | .disconnected | .failed _ => (s, m.requestReclaim side)
    ({ s with tLastUs := nowUs, vEstimateMdegps := s.observer.vEstMdegps }, m, 0)

/-- `db_servo_apply`. -/
def apply (invertLeft : Bool) (answers : Answers) (side : Side) (s : TrackedWheel) (m : Motors)
    (duty : Int) (actuation : OnCompletion) : TrackedWheel :=
  { s with toWheel := (s.toWheel.apply invertLeft answers side m duty actuation).1 }

theorem gate_toWheel (s : TrackedWheel) (xNew : Int) (timestampUs : UInt64) (dutyAbs : UInt32) :
    (s.gate xNew timestampUs dutyAbs).toWheel = s.toWheel.accept xNew := by
  simp only [gate, Wheel.accept, apply_ite TrackedWheel.toWheel]

/-- **The update is that of the wheel**, with the estimate of the observer. -/
theorem update_toWheel (invertLeft : Bool) (side : Side) (s : TrackedWheel) (m : Motors)
    (nowUs : Nat) (read : Read) :
    let r := s.update invertLeft side m nowUs read
    (m.initialised = true → (r.1.toWheel, r.2) =
      s.toWheel.update invertLeft side m nowUs read r.1.observer.vEstMdegps) := by
  intro r hinit
  simp only [r, update, Wheel.update, hinit, Bool.not_true, Bool.false_eq_true, if_false]
  cases (m.drain invertLeft side read).2 with
  | sample rawValue timestampUs => simp only [gate_toWheel]
  | again => rfl
  | disconnected => rfl
  | failed errno => rfl

/-! ## Runs -/

inductive Call where
  | update (m : Motors) (nowUs : Nat) (read : Read)
  | apply (answers : Answers) (m : Motors) (duty : Int) (actuation : OnCompletion)

/-- The sample an update received, in thousandths of a degree. -/
def received (invertLeft : Bool) (side : Side) : Call → List Int
  | .update m _ read =>
    if !m.initialised then []
    else
      match (m.drain invertLeft side read).2 with
      | .sample rawValue _ => [degToMdeg rawValue]
      | _ => []
  | .apply _ _ _ _ => []

def call (invertLeft : Bool) (side : Side) (s : TrackedWheel) : Call → TrackedWheel
  | .update m nowUs read => (s.update invertLeft side m nowUs read).1
  | .apply answers m duty actuation => s.apply invertLeft answers side m duty actuation

/-- A call, with the sample that was received. -/
def machine (invertLeft : Bool) (side : Side) : Machine TrackedWheel Call (List Int) where
  step s c := (s.call invertLeft side c, received invertLeft side c)

/-- A sample that is far from the trusted position. -/
def Far (xActualMdeg x : Int) : Prop := Wheel.glitchMdeg < (x - xActualMdeg).natAbs

def Agree (x y : Int) : Prop := (y - x).natAbs ≤ Wheel.agreeMdeg

/-- The last ten samples were far, and agreed. -/
def Sustained (xActualMdeg : Int) (xs : List Int) : Prop :=
  ∃ l ten, xs = l ++ ten ∧ ten.length = 10 ∧ (∀ x ∈ ten, Far xActualMdeg x) ∧ ten.IsChain Agree

variable {invertLeft : Bool} {side : Side} {start : Int} {xs : List Int} {s : TrackedWheel}

theorem isChain_concat {far : List Int} {x : Int} (hfar : far.IsChain Agree)
    (hlast : ∀ y ∈ far.getLast?, Agree y x) : (far ++ [x]).IsChain Agree := by
  rw [isChain_append]
  refine ⟨hfar, isChain_singleton x, ?_⟩
  intro y hy z hz
  obtain rfl := Option.mem_some_iff.mp hz
  exact hlast y hy

/-- The run of the candidate, with a sample that is far. -/
def nextRun (s : TrackedWheel) (xNew : Int) : Nat :=
  if s.candidateRun > 0 ∧ (xNew - s.rejectCandidateMdeg).natAbs ≤ Wheel.agreeMdeg then
    min 255 (s.candidateRun + 1)
  else 1

def Candidates (xActualMdeg rejectCandidateMdeg : Int) (run : Nat) (xs : List Int) : Prop :=
  ∃ l far, xs = l ++ far ∧ far.length = run ∧ (∀ x ∈ far, Far xActualMdeg x) ∧
    far.IsChain Agree ∧ ∀ x ∈ far.getLast?, x = rejectCandidateMdeg

/-- **One more sample that is far.** -/
theorem Candidates.next {xNew : Int}
    (h : Candidates s.xActualMdeg s.rejectCandidateMdeg s.candidateRun xs)
    (hfew : s.candidateRun < Wheel.rebaseRun) (hfar : Far s.xActualMdeg xNew) :
    Candidates s.xActualMdeg xNew (s.nextRun xNew) (xs ++ [xNew]) := by
  obtain ⟨l, far, rfl, hlen, hall, hchain, hlast⟩ := h
  unfold nextRun
  split
  · next hagree =>
    -- the level of the candidate
    refine ⟨l, far ++ [xNew], (append_assoc l far [xNew]), ?_, ?_, ?_, ?_⟩
    · rw [length_append, length_singleton, hlen]
      unfold Wheel.rebaseRun at hfew
      omega
    · intro x hx
      rcases mem_append.mp hx with hx | hx
      · exact hall x hx
      · exact mem_singleton.mp hx ▸ hfar
    · refine isChain_concat hchain fun y hy => ?_
      rw [hlast y hy]
      exact hagree.2
    · intro x hx
      rw [List.getLast?_concat] at hx
      exact (Option.some.inj hx).symm
  · -- another level
    refine ⟨l ++ far, [xNew], rfl, rfl, ?_, isChain_singleton xNew, ?_⟩
    · intro x hx
      exact mem_singleton.mp hx ▸ hfar
    · intro x hx
      exact (Option.some.inj hx).symm

theorem nextRun_le (hfew : s.candidateRun < Wheel.rebaseRun) (xNew : Int) :
    s.nextRun xNew ≤ Wheel.rebaseRun := by
  unfold Wheel.rebaseRun at hfew
  unfold nextRun Wheel.rebaseRun
  split <;> omega

theorem Candidates.none (xActualMdeg rejectCandidateMdeg : Int) (xs : List Int) :
    Candidates xActualMdeg rejectCandidateMdeg 0 xs :=
  ⟨xs, [], (append_nil xs).symm, rfl, by simp, isChain_nil, by simp⟩

/-- **The ways the gate can go**: the sample is close, it is far and dropped, or it is far and the
tenth in a row. -/
theorem gate_cases (s : TrackedWheel) (xNew : Int) (timestampUs : UInt64) (dutyAbs : UInt32) :
    (¬Far s.xActualMdeg xNew ∧ s.gate xNew timestampUs dutyAbs =
        { s with
          candidateRun := 0
          xActualMdeg := xNew
          observer := s.observer.updateSample xNew timestampUs dutyAbs }) ∨
      (Far s.xActualMdeg xNew ∧ s.nextRun xNew < Wheel.rebaseRun ∧
        s.gate xNew timestampUs dutyAbs =
          { s with candidateRun := s.nextRun xNew, rejectCandidateMdeg := xNew }) ∨
      (Far s.xActualMdeg xNew ∧ Wheel.rebaseRun ≤ s.nextRun xNew ∧
        s.gate xNew timestampUs dutyAbs =
          { s with
            rejectCandidateMdeg := xNew
            candidateRun := 0
            xActualMdeg := xNew
            observer := s.observer.reset xNew timestampUs }) := by
  unfold Far gate
  by_cases hclose : (xNew - s.xActualMdeg).natAbs ≤ Wheel.glitchMdeg
  · rw [if_pos hclose]
    exact .inl ⟨Int.not_lt.mpr hclose, rfl⟩
  · rw [if_neg hclose]
    by_cases hrun : s.nextRun xNew ≥ Wheel.rebaseRun
    · exact .inr (.inr ⟨Int.not_le.mp hclose, hrun, if_pos hrun⟩)
    · exact .inr (.inl ⟨Int.not_le.mp hclose, Nat.not_le.mp hrun, if_neg hrun⟩)

/-- The wheel after some samples, from a position. -/
structure Gated (start : Int) (xs : List Int) (s : TrackedWheel) : Prop where
  speed : s.vEstimateMdegps = s.observer.vEstMdegps
  trusted : s.xActualMdeg ∈ start :: xs
  few : s.candidateRun < Wheel.rebaseRun
  candidates : Candidates s.xActualMdeg s.rejectCandidateMdeg s.candidateRun xs

/-- What a call may do to a wheel, when `new` is what it received and `xs` all that was. -/
structure Change (s s' : TrackedWheel) (new xs : List Int) : Prop where
  position : s'.xActualMdeg = s.xActualMdeg ∨ new = [s'.xActualMdeg]
  /-- Ten far samples in a row move it far, the last of them to where it is. -/
  jump : Far s.xActualMdeg s'.xActualMdeg →
    Sustained s.xActualMdeg xs ∧ xs.getLast? = some s'.xActualMdeg
  /-- Fewer do nothing, and leave the speed and the stall. -/
  dropped : ∀ x ∈ new, Far s.xActualMdeg x → ¬Sustained s.xActualMdeg xs →
    s'.xActualMdeg = s.xActualMdeg ∧ s'.vEstimateMdegps = s.vEstimateMdegps ∧
      s'.observer = s.observer

theorem not_far_self (x : Int) : ¬Far x x := by
  unfold Far Wheel.glitchMdeg
  omega

theorem Change.nothing {s' : TrackedWheel} (hx : s'.xActualMdeg = s.xActualMdeg) :
    Change s s' [] xs := by
  refine ⟨.inl hx, ?_, ?_⟩
  · intro hfar
    exact absurd (hx ▸ hfar) (not_far_self _)
  · intro x hin
    cases hin

/-- **A sample.** The clock and the estimate that an update takes along do not matter. -/
theorem Gated.sample (h : Gated start xs s) (xNew : Int) (timestampUs : UInt64) (dutyAbs : UInt32)
    (nowUs : Nat) :
    let s' := s.gate xNew timestampUs dutyAbs
    let s'' := { s' with tLastUs := nowUs, vEstimateMdegps := s'.observer.vEstMdegps }
    Gated start (xs ++ [xNew]) s'' ∧ Change s s'' [xNew] (xs ++ [xNew]) := by
  have hnew : xNew ∈ start :: (xs ++ [xNew]) := by simp
  have hold : s.xActualMdeg ∈ start :: (xs ++ [xNew]) := by
    rcases mem_cons.mp h.trusted with heq | hin
    · exact mem_cons.mpr (.inl heq)
    · exact mem_cons_of_mem _ (mem_append_left _ hin)
  rcases s.gate_cases xNew timestampUs dutyAbs with
    ⟨hclose, hgate⟩ | ⟨hfar, hrun, hgate⟩ | ⟨hfar, hrun, hgate⟩
  · rw [hgate]
    refine ⟨⟨rfl, hnew, (Nat.zero_lt_succ 9 : 0 < Wheel.rebaseRun), Candidates.none _ _ _⟩,
      .inr rfl, ?_, ?_⟩
    · intro hfar
      exact absurd hfar hclose
    · intro x hx hfar
      rw [mem_singleton.mp hx] at hfar
      exact absurd hfar hclose
  · rw [hgate]
    have hnext := h.candidates.next h.few hfar
    refine ⟨⟨rfl, hold, hrun, hnext⟩, .inl rfl, ?_, ?_⟩
    · intro hself
      exact absurd hself (not_far_self _)
    · intro _ _ _ _
      exact ⟨rfl, h.speed.symm, rfl⟩
  · rw [hgate]
    obtain ⟨l, ten, heq, hlen, hall, hchain, -⟩ := h.candidates.next h.few hfar
    have hten : ten.length = 10 := by
      rw [hlen]
      exact Nat.le_antisymm (s.nextRun_le h.few xNew) hrun
    have hsustained : Sustained s.xActualMdeg (xs ++ [xNew]) := ⟨l, ten, heq, hten, hall, hchain⟩
    refine ⟨⟨rfl, hnew, (Nat.zero_lt_succ 9 : 0 < Wheel.rebaseRun), Candidates.none _ _ _⟩,
      .inr rfl, ?_, ?_⟩
    · intro _
      exact ⟨hsustained, List.getLast?_concat⟩
    · intro _ _ _ hnot
      exact absurd hsustained hnot

theorem Gated.nothing {s' : TrackedWheel} (h : Gated start xs s)
    (hx : s'.xActualMdeg = s.xActualMdeg) (hv : s'.vEstimateMdegps = s'.observer.vEstMdegps)
    (hrun : s'.candidateRun = s.candidateRun)
    (hreject : s'.rejectCandidateMdeg = s.rejectCandidateMdeg) :
    Gated start (xs ++ []) s' ∧ Change s s' [] (xs ++ []) := by
  rw [append_nil]
  refine ⟨⟨hv, ?_, ?_, ?_⟩, Change.nothing hx⟩
  · rw [hx]
    exact h.trusted
  · rw [hrun]
    exact h.few
  · rw [hx, hreject, hrun]
    exact h.candidates

theorem apply_keeps (answers : Answers) (m : Motors) (duty : Int) (actuation : OnCompletion) :
    let w := (s.toWheel.apply invertLeft answers side m duty actuation).1
    w.xActualMdeg = s.xActualMdeg ∧ w.vEstimateMdegps = s.vEstimateMdegps ∧
      w.candidateRun = s.candidateRun ∧ w.rejectCandidateMdeg = s.rejectCandidateMdeg := by
  intro w
  simp only [w, Wheel.apply]
  split
  · exact ⟨rfl, rfl, rfl, rfl⟩
  · split
    · exact ⟨rfl, rfl, rfl, rfl⟩
    · split <;> exact ⟨rfl, rfl, rfl, rfl⟩

/-- **Every call** keeps the gate. -/
theorem Gated.call (h : Gated start xs s) (c : Call) :
    Gated start (xs ++ received invertLeft side c) (s.call invertLeft side c) ∧
      Change s (s.call invertLeft side c) (received invertLeft side c)
        (xs ++ received invertLeft side c) := by
  cases c with
  | apply answers m duty actuation =>
    obtain ⟨hx, hv, hrun, hreject⟩ := @apply_keeps invertLeft side s answers m duty actuation
    exact h.nothing hx (hv.trans h.speed) hrun hreject
  | update m nowUs read =>
    cases hinit : m.initialised with
    | false =>
      simp only [TrackedWheel.call, received, update, hinit, Bool.not_false, if_true]
      exact h.nothing rfl h.speed rfl rfl
    | true =>
      simp only [TrackedWheel.call, received, update, hinit, Bool.not_true, Bool.false_eq_true,
        if_false]
      cases (m.drain invertLeft side read).2 with
      | sample rawValue timestampUs => exact h.sample _ _ _ nowUs
      | again => exact h.nothing rfl rfl rfl rfl
      | disconnected => exact h.nothing rfl rfl rfl rfl
      | failed errno => exact h.nothing rfl rfl rfl rfl

theorem gated_reset {m : Motors} (hinit : m.initialised = true) (s : TrackedWheel) (nowUs : Nat)
    (read : Read) :
    let start := (s.reset invertLeft side m nowUs read).1
    Gated start.xActualMdeg [] start := by
  simp only [reset, hinit, Bool.not_true, Bool.false_eq_true, if_false]
  refine ⟨rfl, mem_singleton_self _, Nat.zero_lt_succ 9, Candidates.none _ _ _⟩

/-- **Every run** keeps the gate. -/
theorem gated_run (h : Gated start [] s) (calls : List Call) :
    Gated start ((machine invertLeft side).history s calls)
      ((machine invertLeft side).run s calls) := by
  have hstep : ∀ (xs : List Int) (s : TrackedWheel) (c : Call), Gated start xs s →
      Gated start (xs ++ ((machine invertLeft side).step s c).2)
        ((machine invertLeft side).step s c).1 := fun _ _ c hs => (hs.call c).1
  have hrun := Machine.history_invariant hstep h calls
  rwa [nil_append] at hrun

/-- **The trusted position** is one of a sample that was received, or the one of the reset. It moves
far only with the tenth of ten samples in a row that are far and agree; before that a far sample
leaves the position, the speed and the stall alone. -/
theorem glitch_gate (invertLeft : Bool) (side : Side) (s : TrackedWheel) (m : Motors)
    (hinit : m.initialised = true) (nowUs : Nat) (read : Read) (calls : List Call) (c : Call) :
    let start := (s.reset invertLeft side m nowUs read).1
    let before := (machine invertLeft side).run start calls
    let after := (machine invertLeft side).run start (calls ++ [c])
    let xs := (machine invertLeft side).history start (calls ++ [c])
    after.xActualMdeg ∈ start.xActualMdeg :: xs ∧
      Change before after (received invertLeft side c) xs := by
  intro start before after xs
  have hreset : Gated start.xActualMdeg [] start := gated_reset hinit s nowUs read
  have hbefore := @gated_run invertLeft side _ _ hreset calls
  obtain ⟨hafter, hchange⟩ := @Gated.call invertLeft side _ _ _ hbefore c
  have hlast : after = before.call invertLeft side c := Machine.run_concat _ start calls c
  have hxs : xs = (machine invertLeft side).history start calls ++ received invertLeft side c := by
    show (machine invertLeft side).history start (calls ++ [c]) = _
    rw [Machine.history_append, Machine.history_cons, Machine.history_nil, append_nil]
    rfl
  rw [hlast, hxs]
  exact ⟨hafter.trusted, hchange⟩

/-- Ten samples in a row at 6000 degrees, with a gap and a fault between them. -/
theorem glitch_gate_rebase :
    let sample (deg : Int) : Call := .update {} 0 (.batch [⟨1, 4, 48, 2, deg⟩])
    let calls := List.replicate 5 (sample 6000) ++
      [.update {} 0 (.failed 11), .update {} 0 (.failed 9)] ++ List.replicate 4 (sample 6001)
    let start := (TrackedWheel.reset false .left {} {} 0 (.batch [])).1
    ((machine false .left).run start calls).xActualMdeg = 0 ∧
      ((machine false .left).run start (calls ++ [sample 6002])).xActualMdeg = 6002000 ∧
      Sustained 0 ((machine false .left).history start (calls ++ [sample 6002])) := by
  intro sample calls start
  have hbefore : ((machine false .left).run start calls).xActualMdeg = 0 := by
    decide +kernel
  have hafter : ((machine false .left).run start (calls ++ [sample 6002])).xActualMdeg =
      6002000 := by decide +kernel
  have hfar : Far ((machine false .left).run start calls).xActualMdeg
      ((machine false .left).run start (calls ++ [sample 6002])).xActualMdeg := by
    unfold Far Wheel.glitchMdeg
    decide
  have hchange : Change ((machine false .left).run start calls)
      ((machine false .left).run start (calls ++ [sample 6002]))
      (received false .left (sample 6002))
      ((machine false .left).history start (calls ++ [sample 6002])) :=
    (glitch_gate false .left {} {} rfl 0 (.batch []) calls (sample 6002)).2
  have hsustained := (hchange.jump hfar).1
  rw [hbefore] at hsustained
  exact ⟨hbefore, hafter, hsustained⟩

end TrackedWheel

end Brickwright.Drivebase
