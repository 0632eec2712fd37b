import Brickwright.Btsensor.Classic.Basic

/-!
# What every step keeps of the table and its timer

A run that the timer's thread has copied is still in the table, or the host's thread has taken it
out and waits for the firing to end. Outside of a firing and of a cancellation, a timer is armed for
every run whose deadline is not the last value of the clock.
-/

namespace Brickwright.Btsensor.Classic

open Backend
open List

variable {σ : Type*} {env : IoCall → σ → IoResult × σ} {s : System σ}

/-! ## Arming -/

theorem foldl_earliest_le (pending : Table) (ports : List Port) (start : UInt64) :
    let earliest := ports.foldl (fun earliest port =>
      match pending port with
      | some run => if run.deadlineMs < earliest then run.deadlineMs else earliest
      | none => earliest) start
    earliest ≤ start ∧ ∀ port ∈ ports, ∀ run ∈ pending port, earliest ≤ run.deadlineMs := by
  induction ports generalizing start with
  | nil => exact ⟨UInt64.le_refl _, fun _ h => absurd h not_mem_nil⟩
  | cons port ports ih =>
    rw [foldl_cons]
    cases hport : pending port with
    | none =>
      obtain ⟨hstart, hports⟩ := ih start
      refine ⟨hstart, fun p hp run hrun => ?_⟩
      rcases mem_cons.mp hp with rfl | hp
      · rw [hport] at hrun
        cases hrun
      · exact hports p hp run hrun
    | some first =>
      obtain ⟨hstart, hports⟩ := ih (if first.deadlineMs < start then first.deadlineMs else start)
      have hle : (if first.deadlineMs < start then first.deadlineMs else start) ≤ start ∧
          (if first.deadlineMs < start then first.deadlineMs else start) ≤ first.deadlineMs := by
        split
        · next h => exact ⟨UInt64.le_of_lt h, UInt64.le_refl _⟩
        · next h => exact ⟨UInt64.le_refl _, UInt64.not_lt.mp h⟩
      refine ⟨UInt64.le_trans hstart hle.1, fun p hp run hrun => ?_⟩
      rcases mem_cons.mp hp with rfl | hp
      · rw [hport] at hrun
        cases hrun
        exact UInt64.le_trans hstart hle.2
      · exact hports p hp run hrun

variable {port : Port}

theorem Table.earliest_le {pending : Table} {run : Run}
    (h : pending port = some run) : pending.earliest ≤ run.deadlineMs :=
  (foldl_earliest_le pending (List.finRange 6) maxClock).2 port (mem_finRange port) run h

/-- The timer ends at the deadline at the latest; one for a deadline that was overdue takes the
shortest delay, a millisecond. -/
def Arming.Reaches (arming : Arming) (deadlineMs : UInt64) : Prop :=
  arming.reading.toNat + arming.delay.toNat ≤ max deadlineMs.toNat (arming.reading.toNat + 1)

theorem reaches_armDelay {earliest deadlineMs : UInt64} (now : UInt64)
    (h : earliest ≤ deadlineMs) : Arming.Reaches ⟨now, armDelay earliest now⟩ deadlineMs := by
  have hle : earliest.toNat ≤ deadlineMs.toNat := h
  rw [Arming.Reaches, armDelay]
  split
  · exact Nat.le_max_right _ _
  · next hnow =>
    have hlt : now.toNat < earliest.toNat := UInt64.lt_iff_toNat_lt.mp (UInt64.not_le.mp hnow)
    have hsub : (earliest - now).toNat = earliest.toNat - now.toNat :=
      UInt64.toNat_sub_of_le _ _ (UInt64.le_of_lt (UInt64.not_le.mp hnow))
    refine Nat.le_trans ?_ (Nat.le_max_left _ _)
    split
    · next hfar =>
      have hfar : 4294967295 < (earliest - now).toNat := UInt64.lt_iff_toNat_lt.mp hfar
      show now.toNat + 4294967295 ≤ _
      omega
    · show now.toNat + (earliest - now).toUInt32.toNat ≤ _
      rw [UInt64.toNat_toUInt32]
      omega

/-- A timer is armed for every run, but one whose deadline is the last value of the clock. -/
def Covered (pending : Table) (armed : Option Arming) : Prop :=
  ∀ port run, pending port = some run → run.deadlineMs ≠ maxClock →
    ∃ arming, armed = some arming ∧ arming.Reaches run.deadlineMs

theorem covered_empty (armed : Option Arming) : Covered .empty armed := by
  intro port run h
  cases h

theorem armNext_cases (pending : Table) (armed : Option Arming) (now : UInt64)
    (failure : Option Nat) :
    ((armNext pending armed now failure).1 = 0 ∧
      Covered pending (armNext pending armed now failure).2) ∨
    ((armNext pending armed now failure).1 < 0 ∧
      (armNext pending armed now failure).2 = armed) := by
  unfold armNext
  split
  · next hearliest =>
    refine .inl ⟨rfl, fun port run hrun hmax => absurd ?_ hmax⟩
    have hle : maxClock ≤ run.deadlineMs := hearliest ▸ Table.earliest_le hrun
    have hle : 18446744073709551615 ≤ run.deadlineMs.toNat := hle
    have hlt := run.deadlineMs.toNat_lt
    exact UInt64.toNat_inj.mp (by show _ = 18446744073709551615; omega)
  · cases failure with
    | none =>
      refine .inl ⟨rfl, fun port run hrun _ => ⟨_, rfl, ?_⟩⟩
      exact reaches_armDelay now (Table.earliest_le hrun)
    | some e => exact .inr ⟨by show -((e : Int) + 1) < 0; omega, rfl⟩

/-! ## Requests to the backend touch neither -/

namespace System

@[simp] theorem call_pending (request : Backend.Request) :
    (s.call env request).2.pending = s.pending := rfl
@[simp] theorem call_armed (request : Backend.Request) :
    (s.call env request).2.armed = s.armed := rfl

@[simp] theorem call_timer (request : Backend.Request) :
    (s.call env request).2.timer = s.timer := rfl

@[simp] theorem endOwned_snd (port : Port) (run : Run) (endState : UInt8) :
    (s.endOwned env port run endState).2.2 =
      (s.call env (.endMotorIfOwned linkClassic port run.ownershipToken endState)).2 := rfl

variable (env) in
theorem operate_snd (a : Answers) (operation : Operation) :
    (s.operate env a operation).2.2 = s ∨ (s.operate env a operation).2.2 =
      (s.call env (.operation linkClassic (some operation) false)).2 := by
  unfold operate
  split
  · exact .inl rfl
  · exact .inr rfl

@[simp] theorem operate_pending (a : Answers) (operation : Operation) :
    (s.operate env a operation).2.2.pending = s.pending := by
  rcases s.operate_snd env a operation with h | h
  · rw [h]
  · rw [h]
    rfl
@[simp] theorem operate_armed (a : Answers) (operation : Operation) :
    (s.operate env a operation).2.2.armed = s.armed := by
  rcases s.operate_snd env a operation with h | h
  · rw [h]
  · rw [h]
    rfl
@[simp] theorem operate_timer (a : Answers) (operation : Operation) :
    (s.operate env a operation).2.2.timer = s.timer := by
  rcases s.operate_snd env a operation with h | h
  · rw [h]
  · rw [h]
    rfl
@[simp] theorem operate_received (a : Answers) (operation : Operation) :
    (s.operate env a operation).2.2.received = s.received := by
  rcases s.operate_snd env a operation with h | h
  · rw [h]
  · rw [h]
    rfl

theorem abort_table {failed failed' : Abort} {notes : List Note} {s' : System σ}
    (h : s.abort env failed = some (notes, failed', s')) : s'.pending = s.pending ∧
      s'.armed = s.armed ∧ s'.host = s.host ∧ s'.timer = s.timer ∧ s'.received = s.received := by
  unfold abort at h
  split at h <;> cases h <;> exact ⟨rfl, rfl, rfl, rfl, rfl⟩

end System

/-! ## The invariant -/

/-- What the thread of the host is doing with the table. -/
inductive Phase where
  | plain
  | arming (port : Port)
  | stopping
  | rearming
  | disconnecting
  | releasing

def Host.phase : Host → Phase
  | .arming port _ _ => .arming port
  | .stopping .. => .stopping
  | .rearming .. => .rearming
  | .disconnecting _ => .disconnecting
  | .releasing _ => .releasing
  | _ => .plain

/-- The thread waits for the firing to end. -/
def Phase.Waits (phase : Phase) : Prop := phase = .stopping ∨ phase = .disconnecting

/-- The run that the firing has copied and not yet taken out of the table. -/
def Timer.completing : Timer → Option (Port × Run)
  | .ending port completed _ => some (port, completed)
  | .finishing port completed _ => some (port, completed)
  | _ => none

def Timer.Fires : Timer → Prop
  | .idle => False
  | .aborting _ => False
  | _ => True

def Run.Continues (run completed : Run) : Prop :=
  run.asked = completed.asked ∧ run.ownershipToken = completed.ownershipToken

structure Sound (pending : Table) (armed : Option Arming) (phase : Phase)
    (timer : Timer) : Prop where
  completing : ∀ port completed, timer.completing = some (port, completed) →
    (∀ run, pending port = some run → run.Continues completed) ∧
      (pending port = none → phase.Waits)
  free : ∀ port, phase = .arming port → pending port = none
  quiet : phase = .rearming → timer = .idle ∧ armed = none
  cleared : phase = .disconnecting ∨ phase = .releasing → pending = .empty
  covered : phase = .stopping ∨ phase = .rearming ∨ timer.Fires ∨ Covered pending armed

/-- Outside of a cancellation, of an operation that starts a run and of a disconnect. -/
theorem Sound.plain {pending : Table} {armed : Option Arming} {timer : Timer}
    (hcompleting : ∀ port completed, timer.completing = some (port, completed) →
      ∃ run, pending port = some run ∧ run.Continues completed)
    (hcovered : timer.Fires ∨ Covered pending armed) : Sound pending armed .plain timer where
  completing port completed h := by
    obtain ⟨run, hrun, hcontinues⟩ := hcompleting port completed h
    refine ⟨fun run' hrun' => ?_, fun hnone => ?_⟩
    · rw [hrun] at hrun'
      cases hrun'
      exact hcontinues
    · rw [hrun] at hnone
      cases hnone
  free port h := nomatch h
  quiet h := nomatch h
  cleared h := by rcases h with h | h <;> cases h
  covered := .inr (.inr hcovered)

variable {pending : Table} {armed : Option Arming} {phase : Phase} {timer : Timer}

theorem Sound.exists_run (h : Sound pending armed phase timer) (hwaits : ¬ phase.Waits)
    {completed : Run} (hcompleting : timer.completing = some (port, completed)) :
    ∃ run, pending port = some run ∧ run.Continues completed := by
  obtain ⟨hsome, hnone⟩ := h.completing port completed hcompleting
  cases hrun : pending port with
  | none => exact absurd (hnone hrun) hwaits
  | some run => exact ⟨run, rfl, hsome run hrun⟩

theorem Sound.covered_of (h : Sound pending armed phase timer) (hstopping : phase ≠ .stopping)
    (hrearming : phase ≠ .rearming) : timer.Fires ∨ Covered pending armed := by
  rcases h.covered with h | h | h
  · exact absurd h hstopping
  · exact absurd h hrearming
  · exact h

theorem Sound.to_plain (h : Sound pending armed phase timer) (hwaits : ¬ phase.Waits)
    (hrearming : phase ≠ .rearming) : Sound pending armed .plain timer :=
  .plain (fun _ _ hc => h.exists_run hwaits hc)
    (h.covered_of (fun heq => hwaits (.inl heq)) hrearming)

/-! ## The thread of the host -/

theorem Sound.start (h : Sound pending armed .plain timer)
    (hport : pending port = none) : Sound pending armed (.arming port) timer where
  completing p completed hc := by
    obtain ⟨run, hrun, hcontinues⟩ := h.exists_run (by rintro (h | h) <;> cases h) hc
    refine ⟨(h.completing p completed hc).1, fun hnone => ?_⟩
    rw [hrun] at hnone
    cases hnone
  free p hp := by
    cases hp
    exact hport
  quiet hp := nomatch hp
  cleared hp := by rcases hp with hp | hp <;> cases hp
  covered := .inr (.inr (h.covered_of Phase.noConfusion Phase.noConfusion))

variable {armed' : Option Arming}

theorem Sound.arm (h : Sound pending armed (.arming port) timer) (run : Run)
    (hcovered : Covered (Function.update pending port (some run)) armed') :
    Sound (Function.update pending port (some run)) armed' .plain timer := by
  refine .plain (fun p completed hc => ?_) (.inr hcovered)
  obtain ⟨run', hrun', hcontinues⟩ := h.exists_run (by rintro (h | h) <;> cases h) hc
  have hne : p ≠ port := by
    rintro rfl
    rw [h.free p rfl] at hrun'
    cases hrun'
  exact ⟨run', by rwa [Function.update_of_ne hne], hcontinues⟩

theorem Sound.cancel (h : Sound pending armed .plain timer) (port : Port) :
    Sound (Function.update pending port none) armed .stopping timer where
  completing p completed hc := by
    refine ⟨fun run hrun => ?_, fun _ => .inl rfl⟩
    rw [Function.update_apply] at hrun
    split at hrun
    · cases hrun
    · exact (h.completing p completed hc).1 run hrun
  free p hp := nomatch hp
  quiet hp := nomatch hp
  cleared hp := by rcases hp with hp | hp <;> cases hp
  covered := .inl rfl

theorem Sound.stopped : Sound pending none .rearming .idle where
  completing _ _ hc := nomatch hc
  free _ hp := nomatch hp
  quiet _ := ⟨rfl, rfl⟩
  cleared hp := by rcases hp with hp | hp <;> cases hp
  covered := .inr (.inl rfl)

variable {pending' : Table}

theorem Sound.rearmed (h : Sound pending armed .rearming timer)
    (hcovered : Covered pending' armed') :
    Sound pending' armed' .plain timer := by
  refine .plain (fun p completed hc => ?_) (.inr hcovered)
  rw [(h.quiet rfl).1] at hc
  cases hc

theorem Sound.disconnect : Sound .empty armed .disconnecting timer where
  completing _ _ _ := ⟨fun _ hrun => (nomatch hrun), fun _ => .inr rfl⟩
  free _ hp := nomatch hp
  quiet hp := nomatch hp
  cleared _ := rfl
  covered := .inr (.inr (.inr (covered_empty armed)))

theorem Sound.disconnected (h : Sound pending armed .disconnecting .idle) :
    Sound pending none .releasing .idle where
  completing _ _ hc := nomatch hc
  free _ hp := nomatch hp
  quiet hp := nomatch hp
  cleared _ := h.cleared (.inl rfl)
  covered := by
    rw [h.cleared (.inl rfl)]
    exact .inr (.inr (.inr (covered_empty none)))

/-! ## The thread of the scheduler -/

theorem Sound.fire {arming : Arming} (h : Sound pending (some arming) phase .idle) :
    Sound pending none phase (.visiting 0) where
  completing _ _ hc := nomatch hc
  free := h.free
  quiet hp := nomatch (h.quiet hp).2
  cleared := h.cleared
  covered := .inr (.inr (.inl trivial))

theorem Sound.fires (h : Sound pending armed phase timer) (hne : timer ≠ .idle)
    {timer' : Timer} (hfires : timer'.Fires)
    (hnone : ∀ port, pending port = none → pending' port = none)
    (hcompleting : ∀ port completed, timer'.completing = some (port, completed) →
      (∀ run, pending' port = some run → run.Continues completed) ∧
        (pending' port = none → phase.Waits)) : Sound pending' armed phase timer' where
  completing := hcompleting
  free port hp := hnone port (h.free port hp)
  quiet hp := absurd (h.quiet hp).1 hne
  cleared hp := funext fun port => hnone port (by rw [h.cleared hp]; rfl)
  covered := .inr (.inr (.inl hfires))

theorem Sound.fired (h : Sound pending armed phase timer) (hne : timer ≠ .idle) {timer' : Timer}
    (hnone : ∀ port, pending port = none → pending' port = none)
    (hcovered : Covered pending' armed')
    (hcompleting : timer'.completing = none) : Sound pending' armed' phase timer' where
  completing port completed hc := by
    rw [hcompleting] at hc
    cases hc
  free port hp := hnone port (h.free port hp)
  quiet hp := absurd (h.quiet hp).1 hne
  cleared hp := funext fun port => hnone port (by rw [h.cleared hp]; rfl)
  covered := .inr (.inr (.inr hcovered))

theorem Sound.aborted (h : Sound pending armed phase timer) (hne : timer ≠ .idle)
    (hfires : ¬ timer.Fires) {timer' : Timer} (hcompleting : timer'.completing = none) :
    Sound pending armed phase timer' where
  completing port completed hc := by
    rw [hcompleting] at hc
    cases hc
  free := h.free
  quiet hp := absurd (h.quiet hp).1 hne
  cleared := h.cleared
  covered := by
    rcases h.covered with hp | hp | hp | hp
    · exact .inl hp
    · exact .inr (.inl hp)
    · exact absurd hp hfires
    · exact .inr (.inr (.inr hp))

/-! ## One step -/

namespace System

def Sound (s : System σ) : Prop :=
  Classic.Sound s.pending s.armed s.host.phase s.timer

theorem Sound.tag (h : s.Sound) (hphase : s.host.phase = .plain) (a : Answers) (asked : Asked)
    {port : Port} (hport : s.pending port = none) (operation : Operation) (goal : Goal)
    (endState : UInt8) : (s.tag env a asked port operation goal endState).1.Sound := by
  rw [System.Sound, hphase] at h
  unfold System.tag
  dsimp only
  split
  · exact h.start hport
  · exact h

theorem Sound.start (h : s.Sound) (hphase : s.host.phase = .plain) (a : Answers) (asked : Asked)
    (port : Port) (operation : Operation) (goal : Goal) (endState : UInt8) :
    (s.start env a asked port operation goal endState).1.Sound := by
  have hplain := h
  rw [System.Sound, hphase] at hplain
  unfold System.start
  split
  · exact hplain
  · next hport =>
    rw [Option.not_isSome_iff_eq_none] at hport
    split
    · exact hplain
    · cases goal with
      | timed timeMs => exact h.tag hphase a asked hport operation _ endState
      | degrees angle =>
        have hencode : (s.encode a).Sound := h
        dsimp only
        split
        · exact hplain
        · exact hencode.tag hphase a asked hport _ _ endState

theorem Sound.arm (h : s.Sound) {port : Port} (hphase : s.host.phase = .arming port) (a : Answers)
    (run : Run) (goal : Goal) : (s.arm a port run goal).1.Sound := by
  rw [System.Sound, hphase] at h
  unfold System.arm
  dsimp only
  rcases armNext_cases (Function.update s.pending port
    (some (run.startAt goal (s.generation + 1) a.now))) s.armed a.again a.timerFailure with
    ⟨hrc, hcovered⟩ | ⟨hrc, harmed⟩
  · rw [if_neg (by omega)]
    exact h.arm _ hcovered
  · rw [if_pos hrc, harmed]
    exact h.to_plain (by rintro (h | h) <;> cases h) Phase.noConfusion

theorem Sound.cancel (h : s.Sound) (hphase : s.host.phase = .plain) (asked : Asked) (port : Port) :
    (s.cancel asked port).1.Sound := by
  rw [System.Sound, hphase] at h
  unfold System.cancel
  split
  · exact h
  · exact h.cancel port

theorem Sound.rearm (h : s.Sound) (hphase : s.host.phase = .rearming) (a : Answers) (asked : Asked)
    (canceled : Run) : (s.rearm a asked canceled).1.Sound := by
  rw [System.Sound, hphase] at h
  unfold System.rearm
  dsimp only
  rcases armNext_cases s.pending s.armed a.now a.timerFailure with ⟨hrc, hcovered⟩ | ⟨hrc, harmed⟩
  · rw [if_neg (by omega)]
    exact h.rearmed hcovered
  · rw [if_pos hrc]
    exact h.rearmed (covered_empty _)

theorem Sound.hostStep (h : s.Sound) (a : Answers) : (s.hostStep env a).1.Sound := by
  unfold System.hostStep
  split
  · exact h
  · next heq => simpa [System.Sound, heq, Host.phase] using h
  · next heq => simpa [System.Sound, heq, Host.phase] using h
  · next heq =>
    split <;> simpa [System.Sound, heq, Host.phase] using h
  · next heq =>
    dsimp only
    split
    · split <;> simpa [System.Sound, heq, Host.phase] using h
    · simpa [System.Sound, heq, Host.phase] using h
  · next heq => exact h.start (by rw [heq]; rfl) a _ _ _ _ _
  · next heq => exact h.arm (by rw [heq]; rfl) a _ _
  · next heq => simpa [System.Sound, heq, Host.phase] using h
  · next heq => exact h.cancel (by rw [heq]; rfl) _ _
  · split
    · next htimer =>
      show Classic.Sound s.pending none .rearming s.timer
      rw [htimer]
      exact Classic.Sound.stopped
    · exact h
  · next heq => exact h.rearm (by rw [heq]; rfl) a _ _
  · next heq => simpa [System.Sound, heq, Host.phase] using h
  · next heq =>
    have hplain := h
    rw [System.Sound, heq] at hplain
    split
    · exact hplain
    · next habort =>
      obtain ⟨hpending, harmed, -, htimer, -⟩ := abort_table habort
      show Classic.Sound _ _ .plain _
      rw [hpending, harmed, htimer]
      exact hplain
  · next heq => simpa [System.Sound, heq, Host.phase] using h
  · next heq =>
    split
    · next htimer =>
      rw [System.Sound, heq, htimer] at h
      show Classic.Sound s.pending none .releasing s.timer
      rw [htimer]
      exact h.disconnected
    · exact h
  · next heq =>
    rw [System.Sound, heq] at h
    exact h.to_plain (by rintro (h | h) <;> cases h) Phase.noConfusion
  · next heq => simpa [System.Sound, heq, Host.phase] using h

theorem Sound.visit (h : s.Sound) {n : Nat} (htimer : s.timer = .visiting n) (a : Answers)
    (port : Port) : (s.visit a port).1.Sound := by
  have hne : s.timer ≠ .idle := by
    rw [htimer]
    exact Timer.noConfusion
  have hnext : Classic.Sound s.pending s.armed s.host.phase (.visiting (port + 1)) :=
    h.fires hne trivial (fun _ => id) fun _ _ hc => nomatch hc
  unfold System.visit
  split
  · exact hnext
  · next run hrun =>
    split
    · exact hnext
    · split
      · refine h.fires hne trivial (fun _ => id) fun p completed hc => ?_
        cases hc
        refine ⟨fun run' hrun' => ?_, fun hnone => ?_⟩
        · rw [hrun] at hrun'
          cases hrun'
          exact ⟨rfl, rfl⟩
        · rw [hrun] at hnone
          cases hnone
      · have hsame : (run.measure a.encoderRc a.degrees a.again).2.Continues run := by
          unfold Run.measure
          dsimp only
          repeat' split
          all_goals exact ⟨rfl, rfl⟩
        have hnone (moved : Run) (p : Port) (hp : s.pending p = none) :
            Function.update s.pending port (some moved) p = none := by
          rw [Function.update_of_ne, hp]
          rintro rfl
          rw [hrun] at hp
          cases hp
        dsimp only
        split
        · exact h.fires hne trivial (hnone _) fun _ _ hc => nomatch hc
        · refine h.fires hne trivial (hnone _) fun p completed hc => ?_
          cases hc
          have hself := Function.update_self port
            (some (run.measure a.encoderRc a.degrees a.again).2) s.pending
          refine ⟨fun run' hrun' => ?_, fun hnone => ?_⟩
          · cases hself.symm.trans hrun'
            exact hsame
          · cases hself.symm.trans hnone

theorem Sound.finish (h : s.Sound) (hne : s.timer ≠ .idle) (port : Port) (completed : Run)
    (rc : Int) : (s.finish port completed rc).1.Sound := by
  have hnext : Classic.Sound s.pending s.armed s.host.phase (.visiting (port + 1)) :=
    h.fires hne trivial (fun _ => id) fun _ _ hc => nomatch hc
  unfold System.finish
  split
  · exact hnext
  · split
    · refine h.fires hne trivial (fun p hp => ?_) fun _ _ hc => nomatch hc
      show Function.update s.pending port none p = none
      rw [Function.update_apply, hp, ite_self]
    · exact hnext

theorem Sound.fired (h : s.Sound) (hne : s.timer ≠ .idle) (a : Answers) : (s.fired a).1.Sound := by
  unfold System.fired
  dsimp only
  rcases armNext_cases s.pending s.armed a.now a.timerFailure with ⟨hrc, hcovered⟩ | ⟨hrc, harmed⟩
  · rw [if_neg (by omega)]
    exact Classic.Sound.fired h hne (fun _ => id) hcovered rfl
  · rw [if_pos hrc]
    exact Classic.Sound.fired h hne (fun _ _ => rfl) (covered_empty _) rfl

theorem Sound.timerStep (h : s.Sound) (a : Answers) : (s.timerStep env a).1.Sound := by
  unfold System.timerStep
  split
  · exact h
  · next htimer =>
    split
    · exact h
    · split
      · exact h.visit htimer a _
      · exact h.fired (by rw [htimer]; exact Timer.noConfusion) a
  · next port completed motionResult htimer =>
    refine h.fires (by rw [htimer]; exact Timer.noConfusion) trivial (fun _ => id) ?_
    intro p c hc
    exact h.completing p c (by rw [htimer]; exact hc)
  · next htimer =>
    split
    · exact h
    · exact h.finish (by rw [htimer]; exact Timer.noConfusion) _ _ _
  · next htimer =>
    refine h.fires (by rw [htimer]; exact Timer.noConfusion) trivial (fun _ => id) ?_
    exact fun _ _ hc => nomatch hc
  · next htimer =>
    have hne : s.timer ≠ .idle := by
      rw [htimer]
      exact Timer.noConfusion
    have hfires : ¬ s.timer.Fires := by
      rw [htimer]
      exact id
    split
    · exact Classic.Sound.aborted h hne hfires rfl
    · next notes failed s' habort =>
      obtain ⟨hpending, harmed, hhost, -, -⟩ := abort_table habort
      show Classic.Sound s'.pending s'.armed s'.host.phase (.aborting failed)
      rw [hpending, harmed, hhost]
      exact Classic.Sound.aborted h hne hfires rfl

theorem phase_begin (asked : Asked) (todo : Todo) : (begin asked todo).phase = .plain := by
  cases todo <;> rfl

theorem Sound.receive (h : s.Sound) (hphase : s.host.phase = .plain) (link : Nat)
    (line : List UInt8) : (s.receive link line).1.Sound := by
  have hplain := h
  rw [System.Sound, hphase] at hplain
  unfold System.receive
  split
  · exact h
  · split
    · exact hplain
    · split
      · exact h
      · next request _ =>
        show Classic.Sound s.pending s.armed (begin _ request.todo).phase s.timer
        rw [phase_begin]
        exact hplain

theorem Sound.disconnect (h : s.Sound) (link : Nat) (connected : Bool) :
    (s.disconnect link connected).1.Sound := by
  unfold System.disconnect
  split
  · exact h
  · exact Classic.Sound.disconnect

theorem Sound.step (h : s.Sound) (event : Event) : (s.step env event).1.Sound := by
  cases event with
  | receive link line =>
    simp only [System.step]
    split
    · next hidle => exact h.receive (by rw [hidle]; rfl) link line
    · exact h
  | linkState link connected =>
    simp only [System.step]
    split
    · exact h.disconnect link connected
    · exact h
  | host a => exact h.hostStep a
  | fire =>
    simp only [System.step]
    split
    · next hidle harmed =>
      rw [System.Sound, hidle, harmed] at h
      exact h.fire
    · exact h
  | timer a => exact h.timerStep a
  | other request => exact h

theorem sound_boot (context : σ) : (boot context).Sound :=
  .plain (fun _ _ hc => nomatch hc) (.inr (covered_empty none))

end System

end Brickwright.Btsensor.Classic
