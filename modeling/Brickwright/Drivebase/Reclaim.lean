import Brickwright.Drivebase.Base
import Brickwright.Machine.Threads

/-!
# Taking back a lost motor port

The real-time tick and the idle loop of `drivebase_daemon.c` share the motor ports. The idle loop
takes a lost port back while the tick stands at its freeze gate: it withdraws the acknowledgement of
the tick, raises the freeze, waits for a new acknowledgement and gives up after twelve looks at it.

The two flags are atomic, and every access to one is a section of its own, so a thread can be held
up for any time between any two of them. A tick that has seen an earlier freeze may therefore
acknowledge it late, after the acknowledgement was withdrawn for a new freeze and before that one is
raised; the next tick then finds no freeze. This is the only way to a port that is taken back during
a tick (`Unacknowledged`).
-/

namespace Brickwright.Drivebase.Reclaim

/-- What the threads share: the freeze, the acknowledgement, the lost ports and the request to
stop. -/
structure Shared where
  ioFrozen : Bool := false
  rtIdle : Bool := false
  reclaimRequest : Side → Bool := fun _ => false
  running : Bool := true

inductive Point where
  /-- Between two calls of `rt_tick_cb`. -/
  | resting
  /-- The tick has found the freeze. -/
  | gated
  /-- It has acknowledged it. -/
  | acknowledged
  /-- The tick has found no freeze, and does what a tick does. -/
  | normal
  | stopped
  /-- The `while` of the idle loop. -/
  | looping
  | woken
  | withdrawing
  | raising
  | polling (i : Nat)
  | looking (i : Nat)
  | givingUp
  | acked
  | reclaiming (sides : List Side)
  | closing (side : Side) (sides : List Side)
  | opening (side : Side) (sides : List Side)
  | selecting (side : Side) (sides : List Side)
  | reclosing (side : Side) (sides : List Side)
  | served (side : Side) (sides : List Side)
  | judging
  | resetting
  | lowering
  | ended
  /-- Anybody else. -/
  | other
  deriving DecidableEq

inductive Input where
  /-- The next section; an `ioctl` or `open` in it succeeds or not. -/
  | go (ok : Bool)
  /-- The tick finds that a port is lost. -/
  | lose (side : Side)
  /-- The tick has missed too many deadlines. -/
  | stall
  /-- The daemon is asked to stop. -/
  | stop

/-- What is done to the motor ports from the idle loop. -/
inductive Note where
  | closes (side : Side)
  | opens (side : Side)
  | selects (side : Side)
  | resets
  deriving DecidableEq

def sides : List Side := [.left, .right]

/-- `drivebase_motor_reclaim_pending`. -/
def Shared.pending (s : Shared) : List Side := sides.filter s.reclaimRequest

/-- `rt_tick_cb`, from the freeze gate on. -/
def tick (s : Shared) : Point → Input → Shared × Point
  | .resting, .go _ => (s, if s.ioFrozen then .gated else .normal)
  | .gated, .go _ => ({ s with rtIdle := true }, .acknowledged)
  | .acknowledged, .go _ => (s, if s.running then .resting else .stopped)
  | .normal, .lose side =>
    ({ s with reclaimRequest := Function.update s.reclaimRequest side true }, .normal)
  | .normal, .stall => ({ s with running := false }, .normal)
  | .normal, .go _ => (s, if s.running then .resting else .stopped)
  | pc, _ => (s, pc)

/-- `daemon_try_reclaim`, in the idle loop of `daemon_task_main`. -/
def idle (s : Shared) (ok : Bool) : Point → Shared × List Note × Point
  | .looping => (s, [], if s.running then .woken else .ended)
  | .woken => (s, [], if s.pending.isEmpty then .looping else .withdrawing)
  | .withdrawing => ({ s with rtIdle := false }, [], .raising)
  | .raising => ({ s with ioFrozen := true }, [], .polling 0)
  | .polling i => (s, [], if i < 12 ∧ s.running then .looking i else .givingUp)
  | .looking i => (s, [], if s.rtIdle then .acked else .polling (i + 1))
  | .givingUp => ({ s with ioFrozen := false }, [], .looping)
  | .acked => (s, [], .reclaiming s.pending)
  | .reclaiming [] => (s, [], .judging)
  | .reclaiming (side :: rest) => (s, [], if s.running then .closing side rest else .judging)
  | .closing side rest => (s, [.closes side], .opening side rest)
  | .opening side rest => (s, [.opens side], if ok then .selecting side rest else .reclaiming rest)
  | .selecting side rest =>
    (s, [.selects side], if ok then .served side rest else .reclosing side rest)
  | .reclosing side rest => (s, [.closes side], .reclaiming rest)
  | .served side rest =>
    ({ s with reclaimRequest := Function.update s.reclaimRequest side false }, [], .reclaiming rest)
  | .judging => (s, [], if s.pending.isEmpty then .resetting else .lowering)
  | .resetting => (s, [.resets], .lowering)
  | .lowering => ({ s with ioFrozen := false }, [], .looping)
  | pc => (s, [], pc)

/-- One section of a thread. Anybody may ask the daemon to stop. -/
def threads : Threads Shared Point Input Note where
  body s pc input :=
    match pc, input with
    | .other, .stop => ({ s with running := false }, [], .other)
    | .resting, _ | .gated, _ | .acknowledged, _ | .normal, _ =>
      let (s', pc') := tick s pc input
      (s', [], pc')
    | _, .go ok => idle s ok pc
    | _, _ => (s, [], pc)

/-- The thread of the tick and that of the idle loop. -/
def rt : Nat := 0
def daemon : Nat := 1

def boot : Threads.State Shared Point where
  shared := {}
  pc i := if i = rt then .resting else if i = daemon then .looping else .other

/-- The freeze is raised, and the tick has to acknowledge it. -/
def Point.awaits : Point → Bool
  | .polling _ | .looking _ => true
  | _ => false

def Point.holds : Point → Bool
  | .acked | .reclaiming _ | .closing .. | .opening .. | .selecting .. | .reclosing .. | .served ..
  | .judging | .resetting => true
  | _ => false

/-- A point of `rt_tick_cb`. -/
def Point.ofTick : Point → Bool
  | .resting | .gated | .acknowledged | .normal | .stopped => true
  | _ => false

def Point.ofIdle : Point → Bool
  | .other => false
  | pc => !pc.ofTick

section Sections

variable {s : Shared} {pc : Point}

-- the cases of the code, derived once for all the lemmas that follow
attribute [elab_as_elim] tick.fun_cases_unfolding

theorem tick_spec (h : pc.ofTick = true) (input : Input) :
    (tick s pc input).2.ofTick = true ∧ (tick s pc input).1.ioFrozen = s.ioFrozen ∧
      (s.rtIdle = true → (tick s pc input).1.rtIdle = true) := by
  fun_cases tick s pc input with
  | case1 ok => exact ⟨by split <;> rfl, rfl, id⟩
  | case2 ok => exact ⟨rfl, rfl, fun _ => rfl⟩
  | case3 ok | case6 ok => exact ⟨by split <;> rfl, rfl, id⟩
  | case4 side | case5 => exact ⟨rfl, rfl, id⟩
  | case7 => exact ⟨h, rfl, id⟩

/-- It comes to its normal body only where it finds no freeze. -/
theorem tick_normal {input : Input} (h : (tick s pc input).2 = .normal) :
    (s.ioFrozen = false ∨ pc = .normal) ∧ (tick s pc input).1.rtIdle = s.rtIdle := by
  fun_cases tick s pc input with
  | case1 ok =>
    rw [tick] at h
    cases hfrozen : s.ioFrozen with
    | false => exact ⟨.inl rfl, rfl⟩
    | true =>
      rw [hfrozen] at h
      cases h
  | case2 ok => cases h
  | case3 ok =>
    rw [tick] at h
    split at h <;> cases h
  | case4 side | case5 | case6 ok => exact ⟨.inr rfl, rfl⟩
  | case7 =>
    rw [tick] at h
    · exact ⟨.inr h, rfl⟩
    all_goals assumption

/-- The idle loop raises a freeze only where it has withdrawn the acknowledgement. -/
theorem idle_flags (ok : Bool) (h : (idle s ok pc).1.ioFrozen = true)
    (hidle : (idle s ok pc).1.rtIdle = true) :
    s.rtIdle = true ∧ (s.ioFrozen = true ∨ pc = .raising) := by
  unfold idle at h hidle
  split at h <;> simp_all

/-- It is at a look at the acknowledgement, or has the ports, only behind the freeze. -/
theorem idle_spec (ok : Bool) (h : pc.ofIdle = true)
    (hawaits : pc.awaits = true → s.ioFrozen = true)
    (hholds : pc.holds = true → s.ioFrozen = true ∧ s.rtIdle = true) :
    (idle s ok pc).2.2.ofIdle = true ∧
      ((idle s ok pc).2.2.awaits = true → (idle s ok pc).1.ioFrozen = true) ∧
      ((idle s ok pc).2.2.holds = true →
        (idle s ok pc).1.ioFrozen = true ∧ (idle s ok pc).1.rtIdle = true) := by
  unfold idle
  split <;> (try split) <;> simp_all [Point.ofIdle, Point.ofTick, Point.awaits, Point.holds]

theorem holds_of_notes {ok : Bool} (h : (idle s ok pc).2.1 ≠ []) : pc.holds = true := by
  unfold idle at h
  split at h <;> first | rfl | exact absurd rfl h

theorem body_of_tick (h : pc.ofTick = true) (input : Input) :
    threads.body s pc input = ((tick s pc input).1, [], (tick s pc input).2) := by
  cases pc <;> first | cases input <;> rfl | cases h

theorem body_of_idle (h : pc.ofIdle = true) (ok : Bool) :
    threads.body s pc (.go ok) = idle s ok pc := by
  cases pc <;> first | rfl | exact absurd h (by decide)

theorem body_of_other (s : Shared) (input : Input) :
    ((threads.body s .other input).1.ioFrozen = s.ioFrozen ∧
      (threads.body s .other input).1.rtIdle = s.rtIdle) ∧
      (threads.body s .other input).2.1 = [] ∧ (threads.body s .other input).2.2 = .other := by
  cases input <;> exact ⟨⟨rfl, rfl⟩, rfl, rfl⟩

theorem still_of_idle (h : pc.ofIdle = true) {input : Input} (hgo : ∀ ok, input ≠ .go ok) :
    threads.body s pc input = (s, [], pc) := by
  cases input with
  | go ok => exact absurd rfl (hgo ok)
  | lose side | stall | stop => cases pc <;> first | rfl | cases h

end Sections

/-- The idle loop does something to a port only while the tick is not in its normal body. -/
def Exclusive (s : Threads.State Shared Point) (e : Nat × Input) : Prop :=
  threads.notes s e.1 e.2 ≠ [] → s.pc rt ≠ .normal

instance : DecidableRel Exclusive := fun s e =>
  inferInstanceAs (Decidable (threads.notes s e.1 e.2 ≠ [] → s.pc rt ≠ .normal))

/-- The freeze is raised while the tick is in its normal body, with an acknowledgement that nobody
has withdrawn. -/
def Unacknowledged (s : Threads.State Shared Point) (e : Nat × Input) : Prop :=
  e.1 = daemon ∧ s.pc daemon = .raising ∧ s.shared.rtIdle = true ∧ s.pc rt = .normal

instance : DecidableRel Unacknowledged := fun s e => inferInstanceAs (Decidable
  (e.1 = daemon ∧ s.pc daemon = .raising ∧ s.shared.rtIdle = true ∧ s.pc rt = .normal))

/-- Where the threads are: the tick is in `rt_tick_cb`, the idle loop in its own, nobody else in
either. The idle loop waits, and has the ports, behind the freeze; an acknowledged freeze keeps the
tick out of its normal body. -/
structure Gated (s : Threads.State Shared Point) : Prop where
  ticks : (s.pc rt).ofTick = true
  idles : (s.pc daemon).ofIdle = true
  others : ∀ i, i ≠ rt → i ≠ daemon → s.pc i = .other
  awaits : (s.pc daemon).awaits = true → s.shared.ioFrozen = true
  holds : (s.pc daemon).holds = true → s.shared.ioFrozen = true ∧ s.shared.rtIdle = true
  gate : s.shared.ioFrozen = true → s.shared.rtIdle = true → s.pc rt ≠ .normal

namespace Gated

variable {s : Threads.State Shared Point}

theorem step_rt (h : Gated s) (input : Input) : Gated (threads.step s rt input) := by
  obtain ⟨hticks, hfrozen, hidle⟩ := tick_spec (s := s.shared) h.ticks input
  have hbody := body_of_tick (s := s.shared) h.ticks input
  have hshared : (threads.step s rt input).shared = (tick s.shared (s.pc rt) input).1 := by
    rw [Threads.step, hbody]
  have hself : (threads.step s rt input).pc rt = (tick s.shared (s.pc rt) input).2 := by
    rw [Threads.step_pc_self, hbody]
  have hdaemon : (threads.step s rt input).pc daemon = s.pc daemon :=
    Threads.step_pc_of_ne (by decide) input
  refine ⟨?_, ?_, fun i hrt hd => ?_, fun ha => ?_, fun hh => ?_, fun hf hi hn => ?_⟩
  · rw [hself]
    exact hticks
  · exact h.idles
  · rw [Threads.step_pc_of_ne hrt]
    exact h.others i hrt hd
  · rw [hshared, hfrozen]
    exact h.awaits (hdaemon ▸ ha)
  · obtain ⟨hf, hi⟩ := h.holds (hdaemon ▸ hh)
    rw [hshared]
    exact ⟨hfrozen.trans hf, hidle hi⟩
  · rw [hself] at hn
    rw [hshared] at hf hi
    obtain ⟨hfree | hnormal, hsame⟩ := tick_normal hn
    · rw [hfrozen, hfree] at hf
      cases hf
    · exact h.gate (hfrozen ▸ hf) (hsame ▸ hi) hnormal

/-- A section of the idle loop that does not raise a freeze the tick has not acknowledged. -/
theorem step_daemon {ok : Bool} (h : Gated s) (hack : ¬ Unacknowledged s (daemon, .go ok)) :
    Gated (threads.step s daemon (.go ok)) := by
  have hbody : threads.body s.shared (s.pc daemon) (.go ok) = idle s.shared ok (s.pc daemon) :=
    body_of_idle h.idles ok
  obtain ⟨hidles, hawaits, hholds⟩ := idle_spec ok h.idles h.awaits h.holds
  have hshared : (threads.step s daemon (.go ok)).shared = (idle s.shared ok (s.pc daemon)).1 := by
    rw [Threads.step, hbody]
  have hself : (threads.step s daemon (.go ok)).pc daemon =
      (idle s.shared ok (s.pc daemon)).2.2 := by
    rw [Threads.step_pc_self, hbody]
  refine ⟨?_, ?_, fun i hr hd => ?_, fun ha => ?_, fun hh => ?_, fun hf hi => ?_⟩
  · exact h.ticks
  · rw [hself]
    exact hidles
  · rw [Threads.step_pc_of_ne hd]
    exact h.others i hr hd
  · rw [hshared]
    exact hawaits (hself ▸ ha)
  · rw [hshared]
    exact hholds (hself ▸ hh)
  · rw [hshared] at hf hi
    obtain ⟨hleft, hfrozen | hraising⟩ := idle_flags ok hf hi
    · exact h.gate hfrozen hleft
    · intro hnormal
      exact hack ⟨rfl, hraising, hleft, hnormal⟩

theorem step_other {i : Nat} (h : Gated s) (hrt : i ≠ rt) (hd : i ≠ daemon) (input : Input) :
    Gated (threads.step s i input) ∧ threads.notes s i input = [] := by
  have hpc := h.others i hrt hd
  obtain ⟨hsame, hnotes, hother⟩ := body_of_other s.shared input
  have hpcs : (threads.step s i input).pc = s.pc := by
    rw [Threads.step, hpc, hother, ← hpc, Function.update_eq_self]
  have hshared : (threads.step s i input).shared = (threads.body s.shared .other input).1 := by
    rw [Threads.step, hpc]
  constructor
  · constructor <;> simp only [hpcs, hshared, hsame]
    exacts [h.ticks, h.idles, h.others, h.awaits, h.holds, h.gate]
  · rw [Threads.notes, hpc, hnotes, List.map_nil]

theorem step_still (h : Gated s) {input : Input} (hgo : ∀ ok, input ≠ .go ok) :
    threads.step s daemon input = s ∧ threads.notes s daemon input = [] :=
  Threads.step_of_still (still_of_idle h.idles hgo)

/-- **One section.** -/
theorem step (h : Gated s) (i : Nat) {input : Input} (hack : ¬ Unacknowledged s (i, input)) :
    Gated (threads.step s i input) := by
  by_cases hrt : i = rt
  · subst hrt
    exact h.step_rt input
  · by_cases hd : i = daemon
    · subst hd
      cases input with
      | go ok => exact h.step_daemon hack
      | lose side | stall | stop =>
        rw [(h.step_still (by simp)).1]
        exact h
    · exact (h.step_other hrt hd input).1

theorem exclusive (h : Gated s) (e : Nat × Input) : Exclusive s e := by
  obtain ⟨i, input⟩ := e
  intro hnotes
  by_cases hrt : i = rt
  · subst hrt
    rw [Threads.notes, body_of_tick h.ticks] at hnotes
    exact absurd rfl hnotes
  · by_cases hd : i = daemon
    · subst hd
      cases input with
      | go ok =>
        rw [Threads.notes, body_of_idle h.idles, ne_eq, List.map_eq_nil_iff] at hnotes
        obtain ⟨hfrozen, hleft⟩ := h.holds (holds_of_notes hnotes)
        exact h.gate hfrozen hleft
      | lose side | stall | stop =>
        exact absurd (h.step_still (by simp)).2 hnotes
    · exact absurd (h.step_other hrt hd input).2 hnotes

end Gated

theorem gated_boot : Gated boot where
  ticks := rfl
  idles := rfl
  others i hrt hd := by
    simp only [boot, hrt, hd, if_false]
  awaits := by decide
  holds := by decide
  gate := by decide

/-- **Reclaim exclusion.** In a run in which every freeze is raised with the acknowledgement
withdrawn, or behind the normal body of the tick, the idle loop does nothing to a port while the
tick is in it. -/
theorem exclusive_of_acknowledged {events : List (Nat × Input)}
    (h : threads.machine.Throughout (fun s e => ¬ Unacknowledged s e) boot events) :
    threads.machine.Throughout Exclusive boot events :=
  threads.machine.throughout_of_invariant
    (fun _ e hs hack => ⟨hs.exclusive e, hs.step e.1 hack⟩) gated_boot h

/-- The tick loses a port, the idle loop raises the freeze, the tick acknowledges it, and the port
is closed and opened again. -/
def answered : List (Nat × Input) :=
  [(rt, .go true), (rt, .lose .left)] ++ List.replicate 4 (daemon, .go true) ++
    List.replicate 3 (rt, .go true) ++ List.replicate 7 (daemon, .go true)

theorem exclusive_answered :
    (threads.history boot answered).map Prod.snd = [.closes .left, .opens .left, .selects .left] ∧
      threads.machine.Throughout Exclusive boot answered :=
  ⟨by decide +kernel, exclusive_of_acknowledged (by decide +kernel)⟩

/-- The tick finds a freeze and is held up until the idle loop has given up on it and has withdrawn
the acknowledgement for the next one. It acknowledges the first, and its next call finds no freeze;
the idle loop raises the second, finds the acknowledgement, and closes the port during that call. -/
theorem not_exclusive_late : ¬ ∀ events, threads.machine.Throughout Exclusive boot events := by
  intro h
  have hlate := h ([(rt, .go true), (rt, .lose .left)] ++ List.replicate 4 (daemon, .go true) ++
    List.replicate 2 (rt, .go true) ++ List.replicate 29 (daemon, .go true) ++
    List.replicate 3 (rt, .go true) ++ List.replicate 6 (daemon, .go true))
  revert hlate
  decide +kernel

end Brickwright.Drivebase.Reclaim
