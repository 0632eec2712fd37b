import Brickwright.Btsensor.Backend.Verified
import Brickwright.Btsensor.Classic.Sound

/-!
# What the notes say of the runs

The table is what the notes make of it: the run of a port is the one that was started there and is
not over. Whoever will end a run has the token that its operation was given. `Effect` is what one
step does to both, and to the owners of the motors.
-/

namespace Brickwright.Btsensor.Classic

open Backend
open List

variable {σ : Type*} {env : IoCall → σ → IoResult × σ} {s : System σ}

/-! ## The history of a run -/

def Note.Opens (port : Port) (line : Nat) (n : Note) : Prop := n = .started port line

def Note.Closes (port : Port) (line : Nat) (n : Note) : Prop :=
  n = .over port line ∨ ∃ id, n = .discarded port ⟨line, id⟩

/-- The run of the line was started on the port, and is not over. -/
def Active (h : List Note) (port : Port) (line : Nat) : Prop :=
  Outstanding (Note.Opens port line) (Note.Closes port line) h

def HasLine (slot : Option Run) (line : Nat) : Prop :=
  ∃ run, slot = some run ∧ run.asked.line = line

theorem not_hasLine_none (line : Nat) : ¬ HasLine none line := fun ⟨_, h, _⟩ => nomatch h

theorem hasLine_some (run : Run) (line : Nat) : HasLine (some run) line ↔ run.asked.line = line :=
  ⟨fun ⟨_, h, hline⟩ => Option.some.inj h ▸ hline, fun h => ⟨run, rfl, h⟩⟩

/-- What a step notes of a port: a run that starts where there was none, or which runs are over. -/
def Tells (port : Port) (notes : List Note) (slot slot' : Option Run) : Prop :=
  (∃ run, notes = [.started port run.asked.line] ∧ slot = none ∧ slot' = some run) ∨
    ((∀ line, ∀ n ∈ notes, ¬ n.Opens port line) ∧
      ∀ line, HasLine slot' line ↔ HasLine slot line ∧ ∀ n ∈ notes, ¬ n.Closes port line)

def Note.OfRun : Note → Prop
  | .started .. | .over .. | .discarded .. => True
  | _ => False

variable {slot slot' : Option Run} {notes : List Note} {port : Port}

theorem tells_of_quiet
    (hnotes : ∀ n ∈ notes, ¬ n.OfRun) (hlines : ∀ line, HasLine slot' line ↔ HasLine slot line) :
    Tells port notes slot slot' := by
  refine .inr ⟨?_, fun line => (hlines line).trans (and_iff_left ?_).symm⟩
  · rintro line n hn rfl
    exact hnotes _ hn trivial
  · rintro n hn (rfl | ⟨id, rfl⟩)
    · exact hnotes _ hn trivial
    · exact hnotes _ hn trivial

theorem tells_of_ended {slot : Option Run} (hopens : ∀ line, ∀ n ∈ notes, ¬ n.Opens port line)
    (hcloses : ∀ run, slot = some run → ∃ n ∈ notes, n.Closes port run.asked.line) :
    Tells port notes slot none := by
  refine .inr ⟨hopens, fun line => ⟨fun h => absurd h (not_hasLine_none line), ?_⟩⟩
  rintro ⟨⟨run, hrun, rfl⟩, hno⟩
  obtain ⟨n, hn, hclose⟩ := hcloses run hrun
  exact absurd hclose (hno n hn)

theorem tells_of_other {port p : Port} (hne : p ≠ port) (line : Nat)
    (hslot : slot' = slot) : Tells p [.over port line] slot slot' := by
  subst hslot
  refine .inr ⟨fun l n hn => ?_, fun l => (and_iff_left fun n hn => ?_).symm⟩
  · cases mem_singleton.mp hn
    rintro ⟨⟩
  · cases mem_singleton.mp hn
    rintro (h | ⟨id, h⟩)
    · cases h
      exact hne rfl
    · cases h

theorem Table.mem_runs {pending : Table} {run : Run} :
    (port, run) ∈ pending.runs ↔ pending port = some run := by
  rw [Table.runs, mem_filterMap]
  constructor
  · rintro ⟨p, -, hp⟩
    cases hrun : pending p with
    | none =>
      rw [hrun] at hp
      cases hp
    | some r =>
      rw [hrun] at hp
      cases hp
      exact hrun
  · intro h
    exact ⟨port, mem_finRange port, by rw [h]; rfl⟩

theorem tells_overAll (pending : Table) (port : Port) :
    Tells port (System.overAll pending) (pending port) none := by
  refine tells_of_ended (fun line n hn => ?_) fun run hrun => ?_
  · obtain ⟨r, -, rfl⟩ := mem_map.mp hn
    rintro ⟨⟩
  · exact ⟨_, mem_map.mpr ⟨(port, run), Table.mem_runs.mpr hrun, rfl⟩, .inl rfl⟩

theorem tells_discards (pending : Table) (port : Port) :
    Tells port (pending.runs.map fun r => .discarded r.1 r.2.asked) (pending port) none := by
  refine tells_of_ended (fun line n hn => ?_) fun run hrun => ?_
  · obtain ⟨r, -, rfl⟩ := mem_map.mp hn
    rintro ⟨⟩
  · exact ⟨_, mem_map.mpr ⟨(port, run), Table.mem_runs.mpr hrun, rfl⟩, .inr ⟨_, rfl⟩⟩

theorem active_concat {h notes : List Note} (htells : Tells port notes slot slot')
    (hactive : ∀ line, Active h port line ↔ HasLine slot line) (line : Nat) :
    Active (h ++ notes) port line ↔ HasLine slot' line := by
  rcases htells with ⟨run, rfl, rfl, rfl⟩ | ⟨hopens, hlines⟩
  · rw [Active, Outstanding.concat, hasLine_some]
    constructor
    · rintro (hopen | ⟨hbefore, -⟩)
      · cases hopen
        rfl
      · exact absurd ((hactive line).mp hbefore) (not_hasLine_none line)
    · rintro rfl
      exact .inl rfl
  · rw [Active, Outstanding.append_of_not_opens (hopens line), hlines]
    exact and_congr_left' (hactive line)

/-! ## Who will end a run -/

/-- The runs that the threads have outside of the table, and will end. -/
def Host.runs : Host → List (Port × Run)
  | .arming port run _ => [(port, run)]
  | .ending port run _ _ => [(port, run)]
  | .resolving _ _ failed => failed.failed
  | .aborting _ failed => failed.failed
  | .disconnecting canceled => canceled
  | .releasing canceled => canceled
  | _ => []

def Timer.runs : Timer → List (Port × Run)
  | .ending port completed _ => [(port, completed)]
  | .aborting failed => failed.failed
  | _ => []

/-- Somebody has the run of the line, with its token. -/
def Holds (s : System σ) (port : Port) (line : Nat) (token : UInt32) : Prop :=
  ∃ run : Run, run.asked.line = line ∧ run.ownershipToken = token ∧
    (s.pending port = some run ∨ (port, run) ∈ s.host.runs ∨ (port, run) ∈ s.timer.runs)

def Note.entry? : Note → Option Entry
  | .command _ _ e | .ending _ _ e | .backend e => some e
  | _ => none

def entries (h : List Note) : List Entry := h.filterMap Note.entry?

@[simp] theorem entries_append (h h' : List Note) : entries (h ++ h') = entries h ++ entries h' :=
  filterMap_append

structure Effect (env : IoCall → σ → IoResult × σ) (s : System σ) (r : System σ × List Note) :
    Prop where
  tells : ∀ port, Tells port r.2 (s.pending port) (r.1.pending port)
  /-- A token is that of the operation. -/
  holds : ∀ port line token, Holds r.1 port line token → Holds s port line token ∨
    ∃ e, Note.command port line e ∈ r.2 ∧ e.2.1.token.getD 0 = token
  /-- A run is ended with its token. -/
  ends : ∀ port line e, Note.ending port line e ∈ r.2 → r.2 = [.ending port line e] ∧
    ∃ token endState, Holds s port line token ∧
      e = (s.call env (.endMotorIfOwned linkClassic port token endState)).1
  /-- The backend is asked once at most; the encoder may have opened a port before. -/
  asks : (entries r.2 = [] ∧ r.1.backend.owners = s.backend.owners) ∨
    ∃ t : System σ, t.backend.owners = s.backend.owners ∧ ∃ request,
      entries r.2 = [(t.call env request).1] ∧
        r.1.backend.owners = (t.call env request).2.backend.owners

/-! ## Kinds of steps -/

theorem states_currentState (a : Answers) :
    ∀ n ∈ (System.currentState a).1, ∃ text, n = .state text := by
  unfold System.currentState
  repeat' split
  all_goals simp

/-- What is held after the step was held before. -/
def Drops (s s' : System σ) : Prop := ∀ port line token, Holds s' port line token →
  Holds s port line token

variable {s' : System σ}

theorem drops_of (hpending : ∀ port run, s'.pending port = some run →
      s.pending port = some run)
    (hhost : ∀ r ∈ s'.host.runs, r ∈ s.host.runs ∨ s.pending r.1 = some r.2)
    (htimer : ∀ r ∈ s'.timer.runs, r ∈ s.timer.runs ∨ s.pending r.1 = some r.2) : Drops s s' := by
  rintro port line token ⟨run, hline, htoken, hrun | hrun | hrun⟩
  · exact ⟨run, hline, htoken, .inl (hpending port run hrun)⟩
  · rcases hhost _ hrun with hrun | hrun
    · exact ⟨run, hline, htoken, .inr (.inl hrun)⟩
    · exact ⟨run, hline, htoken, .inl hrun⟩
  · rcases htimer _ hrun with hrun | hrun
    · exact ⟨run, hline, htoken, .inr (.inr hrun)⟩
    · exact ⟨run, hline, htoken, .inl hrun⟩

theorem Drops.self : Drops s s := fun _ _ _ => id

theorem drops_host (hpending : s'.pending = s.pending) (htimer : s'.timer = s.timer)
    (hhost : ∀ r ∈ s'.host.runs, r ∈ s.host.runs) : Drops s s' :=
  drops_of (fun _ _ h => hpending ▸ h) (fun r hr => .inl (hhost r hr))
    fun _ hr => .inl (htimer ▸ hr)

theorem drops_timer (hpending : s'.pending = s.pending) (hhost : s'.host = s.host)
    (htimer : ∀ r ∈ s'.timer.runs, r ∈ s.timer.runs ∨ s.pending r.1 = some r.2) : Drops s s' :=
  drops_of (fun _ _ h => hpending ▸ h) (fun _ hr => .inl (hhost ▸ hr)) htimer

namespace Effect

variable {s' : System σ} {notes : List Note}

theorem of_table (hnotes : ∀ n ∈ notes, n.entry? = none)
    (htells : ∀ port, Tells port notes (s.pending port) (s'.pending port)) (hdrops : Drops s s')
    (howners : s'.backend.owners = s.backend.owners) : Effect env s (s', notes) where
  tells := htells
  holds port line token h := .inl (hdrops port line token h)
  ends _ _ _ h := nomatch hnotes _ h
  asks := .inl ⟨filterMap_eq_nil_iff.mpr hnotes, howners⟩

theorem of_quiet
    (hnotes : ∀ n ∈ notes, ¬ n.OfRun ∧ n.entry? = none) (hpending : s'.pending = s.pending)
    (hdrops : Drops s s') (howners : s'.backend.owners = s.backend.owners) :
    Effect env s (s', notes) := by
  refine of_table (fun n hn => (hnotes n hn).2) (fun port => ?_) hdrops howners
  exact tells_of_quiet (fun n hn => (hnotes n hn).1) fun _ => by rw [hpending]

theorem self : Effect env s (s, []) :=
  of_quiet (fun _ hn => absurd hn not_mem_nil) rfl .self rfl

theorem of_move (hpending : s'.pending = s.pending) (hdrops : Drops s s')
    (howners : s'.backend.owners = s.backend.owners) : Effect env s (s', []) :=
  of_quiet (fun _ hn => absurd hn not_mem_nil) hpending hdrops howners

theorem of_reply (asked : Asked) (result : Int) (hpending : s'.pending = s.pending)
    (hdrops : Drops s s') (howners : s'.backend.owners = s.backend.owners) :
    Effect env s (s', asked.reply result) := by
  refine of_quiet (fun n hn => ?_) hpending hdrops howners
  unfold Asked.reply at hn
  split at hn
  · exact absurd hn not_mem_nil
  · cases mem_singleton.mp hn
    exact ⟨id, rfl⟩

theorem of_call (request : Backend.Request) (hpending : s'.pending = s.pending)
    (hdrops : Drops s s') (howners : s'.backend.owners = (s.call env request).2.backend.owners) :
    Effect env s (s', [.backend (s.call env request).1]) where
  tells port := by
    refine tells_of_quiet (fun n hn => ?_) fun _ => by rw [hpending]
    cases mem_singleton.mp hn
    exact id
  holds port line token h := .inl (hdrops port line token h)
  ends port line e h := nomatch mem_singleton.mp h
  asks := .inr ⟨s, rfl, request, rfl, howners⟩

theorem of_end {port : Port} {run : Run} (endState : UInt8)
    (hholds : s.pending port = some run ∨ (port, run) ∈ s.host.runs ∨ (port, run) ∈ s.timer.runs)
    (hpending : s'.pending = s.pending) (hdrops : Drops s s')
    (hbackend : s'.backend = (s.endOwned env port run endState).2.2.backend) :
    Effect env s (s', (s.endOwned env port run endState).2.1) where
  tells p := by
    refine tells_of_quiet (fun n hn => ?_) fun _ => by rw [hpending]
    cases mem_singleton.mp hn
    exact id
  holds p line token h := .inl (hdrops p line token h)
  ends p line e h := by
    cases mem_singleton.mp h
    exact ⟨rfl, run.ownershipToken, endState, ⟨run, rfl, rfl, hholds⟩, rfl⟩
  asks := .inr ⟨s, rfl, .endMotorIfOwned linkClassic port run.ownershipToken endState, rfl,
    congrArg Backend.State.owners hbackend⟩

theorem of_operate (a : Answers) (operation : Operation)
    (hpending : s'.pending = s.pending) (hdrops : Drops s s')
    (hbackend : s'.backend = (s.operate env a operation).2.2.backend) :
    Effect env s (s', (s.operate env a operation).2.1) := by
  unfold System.operate at *
  split
  · next h =>
    rw [if_pos h] at hbackend
    exact of_move hpending hdrops (congrArg Backend.State.owners hbackend)
  · next h =>
    rw [if_neg h] at hbackend
    exact of_call _ hpending hdrops (congrArg Backend.State.owners hbackend)

/-! ## The thread of the host -/

theorem start_fields (asked : Asked) (operation : Operation) (goal : Goal) (endState : UInt8)
    (baseline : Int32) (token : UInt32) :
    (Run.start asked operation goal endState baseline token).asked = asked ∧
      (Run.start asked operation goal endState baseline token).ownershipToken = token := by
  cases goal <;> exact ⟨rfl, rfl⟩

theorem tag (a : Answers) (asked : Asked) (port : Port) (operation : Operation) (goal : Goal)
    (endState : UInt8) : Effect env s (s.tag env a asked port operation goal endState) := by
  unfold System.tag
  dsimp only
  split
  · refine ⟨fun p => ?_, fun p line token h => ?_, fun p line e h => ?_, .inr ⟨s, rfl, _, rfl, rfl⟩⟩
    · refine tells_of_quiet (fun n hn => ?_) fun _ => Iff.rfl
      cases mem_singleton.mp hn
      exact id
    · obtain ⟨run, hline, htoken, hrun | hrun | hrun⟩ := h
      · exact .inl ⟨run, hline, htoken, .inl hrun⟩
      · obtain ⟨rfl, rfl⟩ := Prod.mk.inj (mem_singleton.mp hrun)
        rw [(start_fields ..).1] at hline
        rw [(start_fields ..).2] at htoken
        exact .inr ⟨_, mem_singleton.mpr (by rw [← hline]), htoken⟩
      · exact .inl ⟨run, hline, htoken, .inr (.inr hrun)⟩
    · cases mem_singleton.mp h
  · exact of_call _ rfl (drops_host rfl rfl fun _ hr => absurd hr not_mem_nil) rfl

theorem tag_not_ending (a : Answers) (asked : Asked) (port : Port) (operation : Operation)
    (goal : Goal) (endState : UInt8) (p : Port) (line : Nat) (e : Entry) :
    Note.ending p line e ∉ (s.tag env a asked port operation goal endState).2 := by
  intro h
  unfold System.tag at h
  dsimp only at h
  split at h <;> cases mem_singleton.mp h

theorem start (a : Answers) (asked : Asked) (port : Port) (operation : Operation) (goal : Goal)
    (endState : UInt8) : Effect env s (s.start env a asked port operation goal endState) := by
  have hreply (rc : Int) : Drops s { s with host := .replying asked rc } :=
    drops_host rfl rfl fun _ hr => absurd hr not_mem_nil
  unfold System.start
  split
  · exact of_move rfl (hreply _) rfl
  · split
    · exact of_move rfl (hreply _) rfl
    · cases goal with
      | timed timeMs => exact tag a asked port operation _ endState
      | degrees angle =>
        dsimp only
        split
        · exact of_move rfl (hreply _) rfl
        · obtain ⟨htells, hholds, hends, hasks⟩ : Effect env (s.encode a) _ := tag a asked port
            { operation with speed := if angle < 0 then -operation.speed else operation.speed }
            (.degrees angle) endState
          exact ⟨htells, hholds, fun p line e h => (tag_not_ending _ _ _ _ _ _ _ _ _ h).elim, hasks⟩

variable {pending : Table}

theorem tells_started {port p : Port} (hport : pending port = none) (run : Run) :
    Tells p [.started port run.asked.line] (pending p)
      (Function.update pending port (some run) p) := by
  by_cases heq : p = port
  · subst heq
    exact .inl ⟨run, rfl, hport, Function.update_self ..⟩
  · rw [Function.update_of_ne heq]
    refine .inr ⟨fun l n hn => ?_, fun l => (and_iff_left fun n hn => ?_).symm⟩
    · cases mem_singleton.mp hn
      rintro ⟨⟩
      exact heq rfl
    · cases mem_singleton.mp hn
      rintro (h | ⟨id, h⟩) <;> cases h

theorem startAt_fields (run : Run) (goal : Goal) (generation : UInt32) (now : UInt64) :
    (run.startAt goal generation now).asked = run.asked ∧
      (run.startAt goal generation now).ownershipToken = run.ownershipToken := by
  cases goal <;> exact ⟨rfl, rfl⟩

theorem arm (a : Answers) {port : Port} {run : Run} {goal : Goal}
    (hhost : s.host = .arming port run goal) (hport : s.pending port = none) :
    Effect env s (s.arm a port run goal) := by
  have hhas : (port, run) ∈ s.host.runs := by
    rw [hhost]
    exact mem_singleton_self _
  obtain ⟨hasked, htoken⟩ := startAt_fields run goal (s.generation + 1) a.now
  unfold System.arm
  dsimp only
  split
  · refine of_move rfl ?_ rfl
    rintro p line token ⟨r, hline, hr, hrun | hrun | hrun⟩
    · exact ⟨r, hline, hr, .inl hrun⟩
    · obtain ⟨rfl, rfl⟩ := Prod.mk.inj (mem_singleton.mp hrun)
      exact ⟨run, by rw [← hline, hasked], by rw [← hr, htoken], .inr (.inl hhas)⟩
    · exact ⟨r, hline, hr, .inr (.inr hrun)⟩
  · refine of_table (fun n hn => ?_) (fun p => tells_started hport _) ?_ rfl
    · cases mem_singleton.mp hn
      rfl
    · rintro p line token ⟨r, hline, hr, hrun | hrun | hrun⟩
      · change Function.update s.pending port _ p = some r at hrun
        rw [Function.update_apply] at hrun
        split at hrun
        · next heq =>
          subst heq
          cases hrun
          exact ⟨run, by rw [← hline, hasked], by rw [← hr, htoken], .inr (.inl hhas)⟩
        · exact ⟨r, hline, hr, .inl hrun⟩
      · exact absurd hrun not_mem_nil
      · exact ⟨r, hline, hr, .inr (.inr hrun)⟩

theorem tells_over {port p : Port} {line : Nat}
    (hport : ∀ run, pending port = some run → run.asked.line = line) :
    Tells p [.over port line] (pending p) (Function.update pending port none p) := by
  by_cases heq : p = port
  · subst heq
    rw [Function.update_self]
    refine tells_of_ended (fun l n hn => ?_) fun run hrun => ?_
    · cases mem_singleton.mp hn
      rintro ⟨⟩
    · exact ⟨_, mem_singleton_self _, .inl (by rw [hport run hrun])⟩
  · exact tells_of_other heq line (Function.update_of_ne heq ..)

theorem update_none_some {port p : Port} {run : Run}
    (h : Function.update pending port none p = some run) : pending p = some run := by
  rw [Function.update_apply] at h
  split at h
  · cases h
  · exact h

theorem cancel (asked : Asked) (port : Port) : Effect env s (s.cancel asked port) := by
  unfold System.cancel
  split
  · exact of_move rfl (drops_host rfl rfl fun _ hr => absurd hr not_mem_nil) rfl
  · next run hrun =>
    refine of_table (fun n hn => ?_) (fun p => tells_over fun r hr => ?_) ?_ rfl
    · cases mem_singleton.mp hn
      rfl
    · rw [hrun] at hr
      cases hr
      rfl
    · exact drops_of (fun _ _ => update_none_some) (fun _ hr => absurd hr not_mem_nil)
        fun _ hr => .inl hr

theorem entry_overAll : ∀ n ∈ System.overAll pending, n.entry? = none := by
  intro n hn
  obtain ⟨r, -, rfl⟩ := mem_map.mp hn
  rfl

theorem rearm (a : Answers) (asked : Asked) (canceled : Run) :
    Effect env s (s.rearm a asked canceled) := by
  unfold System.rearm
  dsimp only
  split
  · refine of_table entry_overAll (fun p => tells_overAll s.pending p) ?_ rfl
    exact drops_of (fun _ _ h => nomatch h) (fun _ hr => .inr (Table.mem_runs.mp hr))
      fun _ hr => .inl hr
  · exact of_move rfl (drops_host rfl rfl fun _ hr => absurd hr not_mem_nil) rfl

theorem disconnect (link : Nat) (connected : Bool) :
    Effect env s (s.disconnect link connected) := by
  unfold System.disconnect
  split
  · exact self
  · refine of_table (fun n hn => ?_) (fun p => tells_discards s.pending p) ?_ rfl
    · obtain ⟨r, -, rfl⟩ := mem_map.mp hn
      rfl
    · exact drops_of (fun _ _ h => nomatch h) (fun _ hr => .inr (Table.mem_runs.mp hr))
        fun _ hr => .inl hr

theorem receive (link : Nat) (line : List UInt8) : Effect env s (s.receive link line) := by
  unfold System.receive
  split
  · exact self
  · split
    · exact of_move rfl (drops_host rfl rfl fun _ hr => absurd hr not_mem_nil) rfl
    · split
      · exact self
      · next request _ =>
        refine of_quiet (fun n hn => ?_) rfl (drops_host rfl rfl fun r hr => ?_) rfl
        · unfold Asked.note at hn
          split at hn
          · exact absurd hn not_mem_nil
          · cases mem_singleton.mp hn
            exact ⟨id, rfl⟩
        · have hbegin (asked : Asked) (todo : Todo) : (System.begin asked todo).runs = [] := by
            cases todo <;> rfl
          rw [hbegin] at hr
          exact absurd hr not_mem_nil

theorem of_abort {failed failed' : Abort} {s' t : System σ}
    (habort : s.abort env failed = some (notes, failed', s'))
    (hfailed : ∀ r ∈ failed.failed, r ∈ s.host.runs ∨ r ∈ s.timer.runs)
    (hpending : t.pending = s.pending) (hdrops : Drops s t) (hbackend : t.backend = s'.backend) :
    Effect env s (t, notes) := by
  unfold System.abort at habort
  split at habort
  · cases habort
  · next port run rest heq _ =>
    cases habort
    have hmem : (port, run) ∈ failed.failed := by
      rw [heq]
      exact mem_cons_self
    exact of_end 1 (.inr (hfailed _ hmem)) hpending hdrops hbackend
  · cases habort
    exact of_reply _ _ hpending hdrops (congrArg Backend.State.owners hbackend)

theorem abort_sublist {failed failed' : Abort}
    (habort : s.abort env failed = some (notes, failed', s')) :
    ∀ r ∈ failed'.failed, r ∈ failed.failed := by
  unfold System.abort at habort
  split at habort
  · cases habort
  · cases habort
    exact fun _ => id
  · next heq _ =>
    cases habort
    rw [heq]
    exact fun _ => mem_cons_of_mem _

/-- What a step of the host does to the runs, for each of its points. -/
theorem hostStep (h : s.Sound) (a : Answers) : Effect env s (s.hostStep env a) := by
  have hnone {r : Port × Run} (hr : r ∈ ([] : List (Port × Run))) : r ∈ s.host.runs :=
    absurd hr not_mem_nil
  unfold System.hostStep
  split
  · exact self
  · next operation heq =>
    exact of_operate a operation (System.operate_pending ..)
      (drops_host (System.operate_pending ..) (System.operate_timer ..) fun _ => hnone) rfl
  · next asked heq =>
    refine of_quiet (fun n hn => ?_) rfl (drops_host rfl rfl fun _ => hnone) rfl
    obtain ⟨text, rfl⟩ := states_currentState a n hn
    exact ⟨id, rfl⟩
  · next heq =>
    split
    · exact of_move rfl (drops_host rfl rfl fun _ => hnone) rfl
    · exact of_move rfl (drops_host rfl rfl fun _ => hnone) rfl
  · next asked operation cancel heq =>
    have hdrops (host : Host) (hhost : host.runs = []) :
        Drops s { (s.operate env a operation).2.2 with host := host } :=
      drops_host (System.operate_pending ..) (System.operate_timer ..) fun _ hr =>
        absurd (hhost ▸ hr) not_mem_nil
    dsimp only
    split
    · refine of_operate a operation (System.operate_pending ..) (hdrops _ ?_) rfl
      split <;> rfl
    · exact of_operate a operation (System.operate_pending ..) (hdrops _ rfl) rfl
  · exact start a _ _ _ _ _
  · next port run goal heq =>
    rw [System.Sound, heq] at h
    exact arm a heq (h.free port rfl)
  · next port run endState rc heq =>
    refine of_end endState (.inr (.inl ?_)) rfl (drops_host rfl rfl fun _ => hnone) rfl
    rw [heq]
    exact mem_singleton_self _
  · exact cancel _ _
  · split
    · exact of_move rfl (drops_host rfl rfl fun _ => hnone) rfl
    · exact self
  · exact rearm a _ _
  · next asked canceled failed heq =>
    refine of_reply _ _ rfl (drops_host rfl rfl fun r hr => ?_) rfl
    rw [heq]
    exact hr
  · next asked failed heq =>
    split
    · exact of_move rfl (drops_host rfl rfl fun _ => hnone) rfl
    · next notes failed' s' habort =>
      obtain ⟨hpending, -, -, htimer, -⟩ := System.abort_table habort
      refine of_abort habort (fun r hr => .inl ?_) hpending (drops_host hpending htimer ?_) rfl
      · rw [heq]
        exact hr
      · intro r hr
        rw [heq]
        exact abort_sublist habort r hr
  · exact of_reply _ _ rfl (drops_host rfl rfl fun _ => hnone) rfl
  · next canceled heq =>
    split
    · refine of_move rfl (drops_host rfl rfl fun r hr => ?_) rfl
      rw [heq]
      exact hr
    · exact self
  · exact of_move rfl (drops_host rfl rfl fun _ => hnone) rfl
  · next port run rest heq =>
    refine of_end 1 (.inr (.inl ?_)) rfl (drops_host rfl rfl fun r hr => ?_) rfl
    · rw [heq]
      exact mem_cons_self
    · rw [heq]
      exact mem_cons_of_mem _ hr

/-! ## The thread of the scheduler -/

theorem visit (a : Answers) (port : Port) : Effect env s (s.visit a port) := by
  have hnext (n : Nat) : Drops s { s with timer := .visiting n } :=
    drops_timer rfl rfl fun _ hr => absurd hr not_mem_nil
  unfold System.visit
  split
  · exact of_move rfl (hnext _) rfl
  · next run hrun =>
    split
    · exact of_move rfl (hnext _) rfl
    · split
      · refine of_move rfl (drops_timer rfl rfl fun r hr => .inr ?_) rfl
        cases mem_singleton.mp hr
        exact hrun
      · have hsame : (run.measure a.encoderRc a.degrees a.again).2.Continues run := by
          unfold Run.measure
          dsimp only
          repeat' split
          all_goals exact ⟨rfl, rfl⟩
        -- the moved run has the line and the token of the run
        have hmoved (moved : Run) (hmoved : moved.Continues run) (timer : Timer)
            (htimer : ∀ r ∈ timer.runs, r = (port, run)) : Effect env s
              ({ s.encode a with
                  pending := Function.update s.pending port (some moved)
                  timer := timer }, []) := by
          refine of_table (fun _ hn => absurd hn not_mem_nil) (fun p => ?_) ?_ rfl
          · refine tells_of_quiet (fun _ hn => absurd hn not_mem_nil) fun line => ?_
            show HasLine (Function.update s.pending port (some moved) p) line ↔ _
            by_cases heq : p = port
            · subst heq
              rw [Function.update_self, hrun, hasLine_some, hasLine_some, hmoved.1]
            · rw [Function.update_of_ne heq]
          · rintro p line token ⟨r, hline, hr, hp | hp | hp⟩
            · change Function.update s.pending port (some moved) p = some r at hp
              rw [Function.update_apply] at hp
              split at hp
              · next heq =>
                subst heq
                cases hp
                exact ⟨run, by rw [← hline, hmoved.1], by rw [← hr, hmoved.2], .inl hrun⟩
              · exact ⟨r, hline, hr, .inl hp⟩
            · exact ⟨r, hline, hr, .inr (.inl hp)⟩
            · cases htimer _ hp
              exact ⟨run, hline, hr, .inl hrun⟩
        dsimp only
        split
        · exact hmoved _ (by exact hsame) (.visiting (port + 1)) fun _ hr =>
            absurd hr not_mem_nil
        · exact hmoved _ hsame _ fun _ hr => mem_singleton.mp hr

theorem finish (h : s.Sound) {port : Port} {completed : Run} {rc : Int}
    (htimer : s.timer = .finishing port completed rc) :
    Effect env s (s.finish port completed rc) := by
  have hcompleting := h.completing port completed (by rw [htimer]; rfl)
  have hnext (n : Nat) : Drops s { s with timer := .visiting n } :=
    drops_timer rfl rfl fun _ hr => absurd hr not_mem_nil
  unfold System.finish
  split
  · exact of_move rfl (hnext _) rfl
  · next run hrun =>
    split
    · refine of_table (fun n hn => ?_) (fun p => tells_over fun r hr => ?_) ?_ rfl
      · cases mem_singleton.mp hn
        rfl
      · exact congrArg Asked.line (hcompleting.1 r hr).1
      · exact drops_of (fun _ _ => update_none_some) (fun _ hr => .inl hr)
          fun _ hr => absurd hr not_mem_nil
    · exact of_move rfl (hnext _) rfl

theorem fired (a : Answers) : Effect env s (s.fired a) := by
  unfold System.fired
  dsimp only
  split
  · refine of_table entry_overAll (fun p => tells_overAll s.pending p) ?_ rfl
    exact drops_of (fun _ _ h => nomatch h) (fun _ hr => .inl hr)
      fun _ hr => .inr (Table.mem_runs.mp hr)
  · exact of_move rfl (drops_timer rfl rfl fun _ hr => absurd hr not_mem_nil) rfl

theorem timerStep (h : s.Sound) (a : Answers) : Effect env s (s.timerStep env a) := by
  unfold System.timerStep
  split
  · exact self
  · split
    · exact self
    · split
      · exact visit a _
      · exact fired a
  · next port completed motionResult htimer =>
    refine of_end _ (.inr (.inr ?_)) rfl (drops_timer rfl rfl fun _ hr => ?_) rfl
    · rw [htimer]
      exact mem_singleton_self _
    · exact absurd hr not_mem_nil
  · next htimer =>
    split
    · exact self
    · exact finish h htimer
  · exact of_reply _ _ rfl (drops_timer rfl rfl fun _ hr => absurd hr not_mem_nil) rfl
  · next failed htimer =>
    split
    · exact of_move rfl (drops_timer rfl rfl fun _ hr => absurd hr not_mem_nil) rfl
    · next notes failed' s' habort =>
      obtain ⟨hpending, -, hhost, -, -⟩ := System.abort_table habort
      refine of_abort habort (fun r hr => .inr ?_) hpending
        (drops_timer hpending hhost fun r hr => .inl ?_) rfl
      · rw [htimer]
        exact hr
      · rw [htimer]
        exact abort_sublist habort r hr

variable (env) in
theorem step (h : s.Sound) (event : Event) : Effect env s (s.step env event) := by
  cases event with
  | receive link line =>
    simp only [System.step]
    split
    · exact receive link line
    · exact self
  | linkState link connected =>
    simp only [System.step]
    split
    · exact disconnect link connected
    · exact self
  | host a => exact hostStep h a
  | fire =>
    simp only [System.step]
    split
    · exact of_move rfl (drops_timer rfl rfl fun _ hr => absurd hr not_mem_nil) rfl
    · exact self
  | timer a => exact timerStep h a
  | other request => exact of_call request rfl .self rfl

end Effect

/-! ## New lines -/

/-- The note is neither of a new line nor of a disconnect. -/
def Note.Later : Note → Prop
  | .request .. | .discarded .. => False
  | _ => True

/-- No line is received, and no run discarded. -/
def Older (s : System σ) (r : System σ × List Note) : Prop :=
  r.1.received = s.received ∧ ∀ n ∈ r.2, n.Later

theorem older_nil (h : s'.received = s.received) : Older s (s', []) :=
  ⟨h, fun _ hn => absurd hn not_mem_nil⟩

theorem older_singleton {n : Note} (h : s'.received = s.received) (hn : n.Later) :
    Older s (s', [n]) :=
  ⟨h, fun _ hmem => mem_singleton.mp hmem ▸ hn⟩

theorem later_reply (asked : Asked) (result : Int) : ∀ n ∈ asked.reply result, n.Later := by
  intro n hn
  unfold Asked.reply at hn
  split at hn
  · exact absurd hn not_mem_nil
  · cases mem_singleton.mp hn
    trivial

theorem later_overAll (pending : Table) : ∀ n ∈ System.overAll pending, n.Later := by
  intro n hn
  obtain ⟨r, -, rfl⟩ := mem_map.mp hn
  trivial

theorem older_operate (a : Answers) (operation : Operation) (host : Host) :
    Older s ({ (s.operate env a operation).2.2 with host := host },
      (s.operate env a operation).2.1) := by
  refine ⟨System.operate_received .., fun n hn => ?_⟩
  unfold System.operate at hn
  split at hn
  · exact absurd hn not_mem_nil
  · cases mem_singleton.mp hn
    trivial

theorem older_tag (a : Answers) (asked : Asked) (port : Port) (operation : Operation) (goal : Goal)
    (endState : UInt8) : Older s (s.tag env a asked port operation goal endState) := by
  unfold System.tag
  dsimp only
  split <;> exact older_singleton rfl trivial

theorem older_start (a : Answers) (asked : Asked) (port : Port)
    (operation : Operation) (goal : Goal)
    (endState : UInt8) : Older s (s.start env a asked port operation goal endState) := by
  unfold System.start
  split
  · exact older_nil rfl
  · split
    · exact older_nil rfl
    · cases goal with
      | timed timeMs => exact older_tag a asked port operation _ endState
      | degrees angle =>
        dsimp only
        split
        · exact older_nil rfl
        · exact older_tag (s := s.encode a) a asked port _ _ endState

theorem older_abort {failed failed' : Abort}
    (h : s.abort env failed = some (notes, failed', s')) : Older s (s', notes) := by
  refine ⟨(System.abort_table h).2.2.2.2, fun n hn => ?_⟩
  unfold System.abort at h
  split at h
  · cases h
  · cases h
    cases mem_singleton.mp hn
    trivial
  · cases h
    exact later_reply _ _ n hn

theorem older_hostStep (a : Answers) : Older s (s.hostStep env a) := by
  unfold System.hostStep
  split
  · exact older_nil rfl
  · exact older_operate a _ _
  · next asked _ =>
    refine ⟨rfl, fun n hn => ?_⟩
    obtain ⟨text, rfl⟩ := states_currentState a n hn
    trivial
  · split <;> exact older_nil rfl
  · dsimp only
    split <;> exact older_operate a _ _
  · exact older_start a _ _ _ _ _
  · unfold System.arm
    dsimp only
    split
    · exact older_nil rfl
    · exact older_singleton rfl trivial
  · exact older_singleton rfl trivial
  · unfold System.cancel
    split
    · exact older_nil rfl
    · exact older_singleton rfl trivial
  · split <;> exact older_nil rfl
  · unfold System.rearm
    dsimp only
    split
    · exact ⟨rfl, later_overAll s.pending⟩
    · exact older_nil rfl
  · exact ⟨rfl, later_reply _ _⟩
  · split
    · exact older_nil rfl
    · next habort => exact ⟨(older_abort habort).1, (older_abort habort).2⟩
  · exact ⟨rfl, later_reply _ _⟩
  · split <;> exact older_nil rfl
  · exact older_nil rfl
  · exact older_singleton rfl trivial

theorem older_timerStep (a : Answers) : Older s (s.timerStep env a) := by
  unfold System.timerStep
  split
  · exact older_nil rfl
  · split
    · exact older_nil rfl
    · split
      · unfold System.visit
        repeat' split
        all_goals exact older_nil rfl
      · unfold System.fired
        dsimp only
        split
        · exact ⟨rfl, later_overAll s.pending⟩
        · exact older_nil rfl
  · exact older_singleton rfl trivial
  · split
    · exact older_nil rfl
    · unfold System.finish
      repeat' split
      · exact older_nil rfl
      · exact older_singleton rfl trivial
      · exact older_nil rfl
  · exact ⟨rfl, later_reply _ _⟩
  · split
    · exact older_nil rfl
    · next habort => exact ⟨(older_abort habort).1, (older_abort habort).2⟩

variable (env s) in
/-- A step receives the next line, or discards runs in a Classic disconnect, or neither. -/
theorem older_or (event : Event) : Older s (s.step env event) ∨
    (∃ asked : Asked, (s.step env event).2 = asked.note ∧ asked.line = s.received ∧
      (s.step env event).1.received = s.received + 1) ∨
    (event = .linkState linkClassic false ∧ (s.step env event).1.received = s.received ∧
      ∀ n ∈ (s.step env event).2, ∃ port asked, n = .discarded port asked) := by
  cases event with
  | receive link line =>
    simp only [System.step]
    split
    · unfold System.receive
      split
      · exact .inl (older_nil rfl)
      · split
        · exact .inl (older_nil rfl)
        · split
          · exact .inl (older_nil rfl)
          · exact .inr (.inl ⟨_, rfl, rfl, rfl⟩)
    · exact .inl (older_nil rfl)
  | linkState link connected =>
    simp only [System.step]
    split
    · unfold System.disconnect
      split
      · exact .inl (older_nil rfl)
      · next h =>
        rw [not_or, not_not, Bool.not_eq_true] at h
        obtain ⟨rfl, rfl⟩ := h
        refine .inr (.inr ⟨rfl, rfl, fun n hn => ?_⟩)
        obtain ⟨r, -, rfl⟩ := mem_map.mp hn
        exact ⟨_, _, rfl⟩
    · exact .inl (older_nil rfl)
  | host a => exact .inl (older_hostStep a)
  | fire =>
    simp only [System.step]
    split <;> exact .inl (older_nil rfl)
  | timer a => exact .inl (older_timerStep a)
  | other request => exact .inl (older_singleton rfl trivial)

end Brickwright.Btsensor.Classic
