import Brickwright.HubProgram.Program.Stages

/-!
# What holds of every run of an instruction program

`execution` is the program as its callers see it: started, ticked and stopped, in any order, at any
times, while the callbacks answer anything. Two results:

* **The validator is enough** (`interpreter_safe`): every fetch is inside the program, `-EPROTO` is
  never raised, and every callback is within the ranges the devices accept.
* **Motors come to rest** (`motor_safety`): outside `RUNNING` every motor or position call has been
  followed by a brake of that port, and no further one is made before the next successful start.
-/

namespace Brickwright.HubProgram

open List

inductive Op where
  | start (id now : Nat)
  | tick (now : Nat)
  | stop
  deriving DecidableEq, Repr

/-- The interpreter with its callers; the answer is the return value. -/
def execution : Machine (Program × World) Op Int where
  step s op := match op with
    | .start id now => (((start s.1 id now).2, s.2), (start s.1 id now).1)
    | .tick now => (tick s.1 now s.2, 0)
    | .stop => ((stop s.1 s.2).2, (stop s.1 s.2).1)

/-! ## The entry points keep the invariant -/

variable {p : Program} {w : World}

theorem tick_inv (now : Nat) (h : Inv (p, w)) : Inv (tick p now w) := by
  unfold tick
  split
  · exact h
  · next hs =>
    have hrun : p.state = .running := by simpa using hs
    have g : Running p w :=
      { code := h.code, log := h.log, held := h.held, running := hrun, pc := h.pc hrun
        moving := h.moving, ending := h.ending }
    split
    · exact g.fault _
    · have g' : Running { p with lastTick := now } w := { g with }
      simp only
      split
      · exact g'.fault _
      · split
        · exact g'.inv
        · exact tickMoving_inv { g' with }

theorem stop_inv (h : Inv (p, w)) : Inv (stop p w).2 := by
  have hb : (brakeOwned p w).2.AllBraked := brakeOwned_allBraked h.log h.held
  have hok : (brakeOwned p w).2.Ok := brakeOwned_ok h.log
  simp only [stop]
  split
  · exact fault_inv _ h.code hok hb.held h.moving
  · split
    · exact
        { code := h.code, log := hok, held := hb.held, idle := fun _ => hb
          pc := fun h' => by simp at h'
          moving := h.moving, ending := fun _ => hb }
    · exact
        { code := h.code, log := hok, held := hb.held, idle := fun _ => hb, pc := h.pc
          moving := h.moving, ending := fun _ => hb }

theorem start_inv (id now : Nat) (h : Inv (p, w)) :
    Inv ((start p id now).2, w) := by
  unfold start
  split
  · exact h
  · next hs =>
    split
    · exact h
    · split
      · exact h
      · -- Nothing is in motion, so forgetting the owned set loses no port.
        have hb : w.AllBraked := h.idle hs
        exact
          { code := h.code, log := h.log, held := hb.held, idle := fun _ => hb
            pc := fun _ => h.code.pos
            moving := by simp, ending := fun _ => hb }

/-- **One step** of the system keeps the invariant. -/
theorem execution_inv (s : Program × World) (op : Op) (h : Inv s) :
    Inv (execution.step s op).1 := by
  cases op with
  | start id now => exact start_inv id now h
  | tick now => exact tick_inv now h
  | stop => exact stop_inv h

theorem getD_overlay_zero {l rows : List Instruction} {i : Nat} (d : Instruction)
    (h : i < rows.length) : (l.overlay 0 rows).getD i d = rows.getD i d := by
  rw [List.overlay, take_zero, nil_append, getD_append _ _ _ _ h]

variable {code : Option (List Instruction)}

theorem load_inv {id : Nat}
    (hload : (load p id code).1 = 0) (hlog : w.log = []) : Inv ((load p id code).2, w) := by
  have hb : w.AllBraked := by
    intro port h
    rw [World.Unbraked, hlog] at h
    exact Outstanding.nil h
  have hok : w.Ok := by
    intro e he
    simp [hlog] at he
  unfold load at hload ⊢
  split at hload
  · simp [EBUSY] at hload
  · next hidle =>
    split at hload
    · simp [EINVAL] at hload
    · next hid =>
      split at hload
      · next hv => exact absurd hload (by omega)
      · next hv =>
        rw [if_neg hidle, if_neg hid, if_neg hv]
        obtain _ | rows := code
        · simp [validate, EINVAL] at hv
        · have wf := wellFormed_of_validate hv
          refine
            { code := ⟨wf.pos, ?_, ?_⟩, log := hok, held := hb.held, idle := fun _ => hb
              pc := fun h => by simp at h
              moving := by simp, ending := fun _ => hb }
          · intro i hi
            rw [getD_overlay_zero _ hi]
            exact wf.rows i hi
          · show ((p.code.overlay 0 rows).getD (rows.length - 1) ⟨0, 0, 0, 0⟩).op = 0
            rw [getD_overlay_zero _ (by have := wf.pos; omega)]
            exact wf.last

theorem run_inv {id : Nat}
    (hload : (load p id code).1 = 0) (respond : List Event → IoCall → IoResult) (ops : List Op) :
    Inv (execution.run ((load p id code).2, ⟨respond, []⟩) ops) :=
  execution.run_invariant execution_inv _ ops (load_inv hload rfl)

/-! ## The validator is enough -/

/-- **Run-time safety of a validated program**: whatever is called when, and whatever the callbacks
answer, the log only holds fetches of rows of the program and callbacks within range. -/
theorem interpreter_safe {id : Nat}
    (hload : (load p id code).1 = 0) (respond : List Event → IoCall → IoResult) (ops : List Op) :
    ∀ e ∈ (execution.run ((load p id code).2, ⟨respond, []⟩) ops).2.log, e.Ok :=
  (run_inv hload respond ops).log

/-- Every callback present, as after `bw_device_init`. -/
def allIo : ProgramIo := ⟨true, true, true, true, true⟩

def sampleRows : List Instruction := [⟨1, 0, 400, 0⟩, ⟨2, 10, 0, 0⟩, ⟨0, 0, 0, 0⟩]

theorem sample_loads : (load (Program.init allIo) 7 (some sampleRows)).1 = 0 := by decide

def sampleOps : List Op := [.start 7 100, .tick 100, .tick 99]

theorem interpreter_safe_sample :
    (load (Program.init allIo) 7 (some sampleRows)).1 = 0 ∧
    ∀ e ∈ (execution.run ((load (Program.init allIo) 7 (some sampleRows)).2,
      ⟨fun _ _ => ⟨0, 0⟩, []⟩) sampleOps).2.log, e.Ok :=
  ⟨sample_loads, interpreter_safe sample_loads (fun _ _ => ⟨0, 0⟩) sampleOps⟩

/-! ## Motors come to rest -/

/-- The log only grew, and by nothing that drives a port. -/
def Rests (w w' : World) : Prop :=
  ∃ ext, w'.log = w.log ++ ext ∧ ∀ e ∈ ext, ∀ port, ¬ e.drives port

theorem Rests.refl (w : World) : Rests w w := ⟨[], by simp, by simp⟩

theorem Rests.trans {w₁ w₂ w₃ : World} (h₁ : Rests w₁ w₂) (h₂ : Rests w₂ w₃) : Rests w₁ w₃ := by
  obtain ⟨a, ha, hda⟩ := h₁
  obtain ⟨b, hb, hdb⟩ := h₂
  refine ⟨a ++ b, by rw [hb, ha, append_assoc], ?_⟩
  intro e he
  exact (mem_append.mp he).elim (hda e) (hdb e)

theorem brakePorts_rests (p : Program) (ports : List Nat) (acc : Int × World) :
    Rests acc.2 (ports.foldl (brakePort p) acc).2 := by
  induction ports generalizing acc with
  | nil => exact Rests.refl _
  | cons q ports ih =>
    have hround : Rests acc.2 (brakePort p acc q).2 := by
      unfold brakePort
      split
      · exact ⟨[_], rfl, by simp [Event.drives]⟩
      · exact Rests.refl _
    exact hround.trans (ih _)

theorem brakeOwned_rests (p : Program) (w : World) : Rests w (brakeOwned p w).2 :=
  brakePorts_rests p _ (0, w)

/-- A program that is not running drives nothing and stays so, unless it is started. -/
theorem idle_step {s : Program × World} {op : Op} (hs : s.1.state ≠ .running)
    (hop : ∀ id now, op = .start id now → (execution.step s op).2 ≠ 0) :
    (execution.step s op).1.1.state ≠ .running ∧ Rests s.2 (execution.step s op).1.2 := by
  cases op with
  | start id now =>
    have hne := hop id now rfl
    simp only [execution, start, if_neg hs] at hne ⊢
    split
    · exact ⟨hs, Rests.refl _⟩
    · split
      · exact ⟨hs, Rests.refl _⟩
      · next h₁ h₂ =>
        rw [if_neg h₁, if_neg h₂] at hne
        exact absurd rfl hne
  | tick now =>
    simp only [execution, tick, if_pos hs]
    exact ⟨hs, Rests.refl _⟩
  | stop =>
    have hb := brakeOwned_rests s.1 s.2
    simp only [execution, stop]
    split
    · exact ⟨by simp [fault], hb.trans (brakeOwned_rests _ _)⟩
    · split
      · exact ⟨by simp, hb⟩
      · exact ⟨hs, hb⟩

theorem idle_run (ops : List Op) : ∀ s : Program × World, s.1.state ≠ .running →
    (∀ x ∈ execution.trace s ops, ∀ id now, x.1 = .start id now → x.2 ≠ 0) →
    Rests s.2 (execution.run s ops).2 := by
  induction ops with
  | nil => intro s _ _; exact Rests.refl _
  | cons op ops ih =>
    intro s hs hops
    obtain ⟨hs', hrest⟩ := idle_step hs (fun id now h => hops _ mem_cons_self id now h)
    exact hrest.trans (ih _ hs' (fun x hx => hops x (mem_cons_of_mem _ hx)))

/-- **Motor safety**: whenever the program is not running, each motor or position call of the run so
far has been followed by a brake call for its port, and until a start succeeds no further motor or
position call is made. -/
theorem motor_safety {id : Nat}
    (hload : (load p id code).1 = 0) (respond : List Event → IoCall → IoResult) (ops : List Op)
    (hidle : (execution.run ((load p id code).2, ⟨respond, []⟩) ops).1.state ≠ .running) :
    (∀ pre e post port,
      (execution.run ((load p id code).2, ⟨respond, []⟩) ops).2.log = pre ++ e :: post →
        e.drives port → ∃ e' ∈ post, e'.brakes port) ∧
    ∀ later, (∀ x ∈ execution.trace (execution.run ((load p id code).2, ⟨respond, []⟩) ops) later,
        ∀ id now, x.1 = .start id now → x.2 ≠ 0) →
      Rests (execution.run ((load p id code).2, ⟨respond, []⟩) ops).2
        (execution.run ((load p id code).2, ⟨respond, []⟩) (ops ++ later)).2 := by
  refine ⟨?_, ?_⟩
  · intro pre e post port hlog hdrive
    have hrest := (run_inv hload respond ops).idle hidle port
    exact Outstanding.not_iff.mp hrest pre e post hlog hdrive
  · intro later hlater
    rw [execution.run_append]
    exact idle_run later _ hidle hlater

/-- A run that drives a motor and is stopped by a tick behind the clock. -/
theorem motor_safety_sample :
    (∀ pre e post port,
      (execution.run ((load (Program.init allIo) 7 (some sampleRows)).2, ⟨fun _ _ => ⟨0, 0⟩, []⟩)
        sampleOps).2.log = pre ++ e :: post → e.drives port → ∃ e' ∈ post, e'.brakes port) ∧
    ∀ later, (∀ x ∈ execution.trace (execution.run
        ((load (Program.init allIo) 7 (some sampleRows)).2, ⟨fun _ _ => ⟨0, 0⟩, []⟩) sampleOps)
          later, ∀ id now, x.1 = .start id now → x.2 ≠ 0) →
      Rests (execution.run ((load (Program.init allIo) 7 (some sampleRows)).2,
          ⟨fun _ _ => ⟨0, 0⟩, []⟩) sampleOps).2
        (execution.run ((load (Program.init allIo) 7 (some sampleRows)).2,
          ⟨fun _ _ => ⟨0, 0⟩, []⟩) (sampleOps ++ later)).2 :=
  motor_safety sample_loads (fun _ _ => ⟨0, 0⟩) sampleOps (by decide)

end Brickwright.HubProgram
