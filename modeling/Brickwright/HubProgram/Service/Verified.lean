import Brickwright.HubProgram.Service.Invariant

/-!
# Starts and executions

`Hist` relates a history to the state it led to: behind an armed program there is the start that
armed it, with no other start and no execution since, and behind every execution there was one. One
lemma for each kind of critical section keeps it, and `python_service` is what it says of every run:
while Python is active the program is frozen, executions do not overlap, and each of them executes
the text of the last accepted start, which is thereby used up.
-/

namespace Brickwright.HubProgram.Service

open List

variable {s s' : State} {h notes : List Note}

/-! ## Histories -/

/-- Every execution has its start: the last accepted one, for which nothing was executed yet. -/
def Attributed (h : List Note) : Prop :=
  ∀ pre source post, h = pre ++ .marked source :: post →
    ¬ InProgress pre ∧ ∃ d, Pending d pre ∧ d.language ≠ 0 ∧ source = Stored.text d

theorem Attributed.nil : Attributed [] := by
  intro pre source post heq
  exact absurd heq (by simp)

theorem Attributed.append (hh : Attributed h) (hno : ∀ n ∈ notes, ¬ n.IsMark) :
    Attributed (h ++ notes) := by
  intro pre source post heq
  obtain ⟨post', rfl, -⟩ := Outstanding.split_left heq fun hmem => hno _ hmem trivial
  exact hh pre source post' rfl

theorem Attributed.mark {d : Stored} (hh : Attributed h) (hidle : ¬ InProgress h)
    (hpending : Pending d h) (hlanguage : d.language ≠ 0) :
    Attributed (h ++ [.marked (Stored.text d)]) := by
  intro pre source post heq
  rcases eq_nil_or_concat post with rfl | ⟨post, n, rfl⟩
  · obtain ⟨rfl, hlast⟩ := append_inj' heq rfl
    cases hlast
    exact ⟨hidle, d, hpending, hlanguage, rfl⟩
  · rw [concat_eq_append, ← cons_append, ← append_assoc] at heq
    obtain ⟨rfl, -⟩ := append_inj' heq rfl
    exact hh pre source post rfl

/-- Between an accepted start and the next one there is at most one execution, and it executes the
text that was stored at the start. -/
theorem Attributed.between {pre before after : List Note} {n : Note} {d : Stored}
    {source : List UInt8} (hh : Attributed (pre ++ n :: (before ++ .marked source :: after)))
    (hstart : n.started = some d) (hbefore : ∀ x ∈ before, x.started = none) :
    d.language ≠ 0 ∧ source = Stored.text d ∧ ∀ x ∈ before, ¬ x.IsMark := by
  obtain ⟨-, d', hpending, hlanguage, rfl⟩ := hh (pre ++ n :: before) source after (by simp)
  have hdecides : n.Decides := .inl (by rw [hstart]; exact Option.some_ne_none d)
  obtain ⟨hd, hno⟩ := hpending.of_closing hdecides fun x hx h => by
    rw [hbefore x hx] at h
    cases h
  cases hstart.symm.trans hd
  exact ⟨hlanguage, rfl, fun x hx hmark => hno x hx (.inr hmark)⟩

/-! ## The invariant -/

structure Inv (s : State) : Prop where
  ok : s.hub.Ok
  fresh : s.initialized = false → s.workers = []
  single : s.workers.length ≤ 1
  active : s.pythonActive = true ↔ true ∈ s.workers

structure Hist (h : List Note) (s : State) : Prop where
  inv : Inv s
  /-- What is armed and not executing has been started, and not executed since. -/
  pending : armed s.hub.program = true → s.pythonActive = false → Pending s.hub.program.stored h
  attributed : Attributed h
  active : s.pythonActive = true ↔ InProgress h

theorem Inv.kept (hs : Inv s) (hk : Kept s notes s') : Inv s' where
  ok := hk.ok
  fresh hfresh := by
    rw [hk.workers]
    exact hs.fresh (hk.initialized ▸ hfresh)
  single := by
    rw [hk.workers]
    exact hs.single
  active := by
    rw [hk.active, hk.workers]
    exact hs.active

theorem Hist.kept (hs : Hist h s) (hk : Kept s notes s') : Hist (h ++ notes) s' where
  inv := hs.inv.kept hk
  pending harmed hidle := by
    rcases hk.armed harmed with hpending | ⟨hbefore, hstored, hno⟩
    · exact hpending.append_right
    · rw [hstored]
      exact (hs.pending hbefore (hk.active ▸ hidle)).append_left hno
  attributed := hs.attributed.append fun n hn => (hk.quiet n hn).1
  active := by
    rw [hk.active, hs.active]
    exact (Outstanding.append_iff hk.quiet).symm

theorem Hist.same (hs : Hist h s) : Hist (h ++ []) s := by
  rwa [append_nil]

/-! ## Creating the worker -/

theorem init_of_initialized (hi : s.initialized = true) (error : Option Errno) :
    init s error = (0, s) := if_pos hi

theorem Inv.idle (hs : Inv s) (hi : ¬ s.initialized = true) : s.pythonActive ≠ true := by
  rw [ne_eq, hs.active, hs.fresh (Bool.eq_false_iff.mpr hi)]
  exact not_mem_nil

theorem init_active (s : State) (error : Option Errno) :
    (init s error).2.pythonActive = s.pythonActive := by
  rw [Service.init]
  split
  · rfl
  · cases error <;> rfl

theorem Hist.init (hs : Hist h s) (error : Option Errno) : Hist h (init s error).2 := by
  by_cases hi : s.initialized = true
  · rwa [init_of_initialized hi]
  have hnone : s.workers = [] := hs.inv.fresh (Bool.eq_false_iff.mpr hi)
  have hidle := hs.inv.idle hi
  have hok : (s.setProgram (Program.init deviceIo) s.hub.world).hub.Ok :=
    ⟨init_stored deviceIo, hs.inv.ok.upload, hs.inv.ok.announced⟩
  have hrest : armed (Program.init deviceIo) = false := rfl
  rw [Service.init, if_neg hi]
  cases error with
  | none =>
    refine ⟨⟨hok, (fun h => nomatch h), ?_, ?_⟩, ?_, hs.attributed, hs.active⟩
    · show (s.workers ++ [false]).length ≤ 1
      rw [hnone]
      exact Nat.le_refl 1
    · show s.pythonActive = true ↔ true ∈ s.workers ++ [false]
      rw [hnone]
      exact iff_of_false hidle (by decide)
    · exact fun h => absurd (hrest.symm.trans h) Bool.false_ne_true
  | some e =>
    refine ⟨⟨hok, hs.inv.fresh, hs.inv.single, hs.inv.active⟩, ?_, hs.attributed, hs.active⟩
    exact fun h => absurd (hrest.symm.trans h) Bool.false_ne_true

/-! ## The worker's two sections -/

theorem Inv.workers_eq (hs : Inv s) {i : Nat} {python : Bool} (hi : s.workers[i]? = some python) :
    s.workers = [python] ∧ i = 0 := by
  have hsingle := hs.single
  match hw : s.workers with
  | [] =>
    rw [hw] at hi
    cases hi
  | [w] =>
    rw [hw] at hi
    cases i with
    | zero =>
      cases hi
      exact ⟨rfl, rfl⟩
    | succ i => cases hi
  | w :: w' :: ws =>
    rw [hw] at hsingle
    exact absurd hsingle (by simp)

variable {x : State × List Note}

theorem Hist.workerBegin {i : Nat} {t : TickIo} (hs : Hist h s)
    (hi : s.workers[i]? = some false) (hx : workerBegin s i t = some x) :
    Hist (h ++ x.2) x.1 := by
  obtain ⟨⟨s₁, notes⟩, htick, rfl⟩ := Option.map_eq_some_iff.mp hx
  have hkept := tickLocked_kept hs.inv.ok htick
  have h₁ := hs.kept hkept
  dsimp only at hkept h₁ ⊢
  split
  · next hgo =>
    have hidle : ¬ InProgress (h ++ notes) := by
      rw [← h₁.active, hgo.2]
      exact Bool.false_ne_true
    obtain ⟨hlanguage, htext⟩ := source_of_armed h₁.inv.ok hgo.1
    have hworkers : s₁.workers = [false] ∧ i = 0 :=
      h₁.inv.workers_eq (by rw [hkept.workers]; exact hi)
    rw [htext, ← append_assoc]
    refine ⟨⟨h₁.inv.ok, ?_, ?_, ?_⟩, ?_, ?_, ?_⟩
    · intro hfresh
      exact absurd (h₁.inv.fresh hfresh) (by rw [hworkers.1]; simp)
    · rw [length_set]
      exact h₁.inv.single
    · rw [hworkers.1, hworkers.2]
      exact iff_of_true rfl (by simp)
    · exact fun _ h => nomatch h
    · exact h₁.attributed.mark hidle (h₁.pending hgo.1 hgo.2) hlanguage
    · exact iff_of_true rfl (Outstanding.concat.mpr (.inl trivial))
  · exact h₁

theorem Hist.workerEnd {i : Nat} (hs : Hist h s) (hi : s.workers[i]? = some true) (rc : Int) :
    Hist (h ++ [.cleared]) (workerEnd s i rc) := by
  obtain ⟨hstored, hrest⟩ := executed_eq s.hub.program s.hub.world rc
  have hworkers := hs.inv.workers_eq hi
  refine ⟨⟨setProgram_ok hs.inv.ok hstored, ?_, ?_, ?_⟩, ?_, ?_, ?_⟩
  · intro hfresh
    exact absurd (hs.inv.fresh hfresh) (by rw [hworkers.1]; simp)
  · show (s.workers.set i false).length ≤ 1
    rw [length_set]
    exact hs.inv.single
  · show false = true ↔ true ∈ s.workers.set i false
    rw [hworkers.1, hworkers.2]
    exact iff_of_false Bool.false_ne_true (by simp)
  · exact fun h => absurd (hrest.symm.trans h) Bool.false_ne_true
  · exact hs.attributed.append fun n hn => by
      cases mem_singleton.mp hn
      exact fun h => h
  · refine iff_of_false Bool.false_ne_true fun h => ?_
    rcases Outstanding.concat.mp h with hmark | ⟨-, hno⟩
    · exact hmark
    · exact hno rfl

/-! ## Runs -/

theorem Hist.serviceRequest {r : Request} {error : Option Errno} {io : StorageIo}
    (hs : Hist h s) (hx : serviceRequest s r error io = some x) :
    Hist (h ++ x.2) x.1 := by
  have hinit := hs.init error
  rw [Service.serviceRequest] at hx
  dsimp only at hx
  split at hx
  · next hrc =>
    cases hx
    refine hinit.kept (Requested.kept ⟨hinit.inv.ok, ⟨rfl, rfl, rfl, rfl⟩, fun _ => .inl rfl, ?_⟩)
    intro hactive
    rw [init_active] at hactive
    by_cases hi : s.initialized = true
    · rw [init_of_initialized hi] at hrc
      exact absurd hrc (Int.lt_irrefl 0)
    · exact absurd hactive (hs.inv.idle hi)
  · exact hinit.kept (requestLocked_kept hinit.inv.ok hx)

/-- **Every critical section** keeps the invariant. -/
theorem Hist.critical {e : Event} (hs : Hist h s)
    (hx : critical s e = some x) : Hist (h ++ x.2) x.1 := by
  have hok := hs.inv.ok
  cases e with
  | init error =>
    cases hx
    exact (hs.init error).same
  | request r error io => exact hs.serviceRequest hx
  | poll t => exact hs.kept (tickLocked_kept hok hx)
  | workerBegin i t =>
    rw [Service.critical] at hx
    split at hx
    · next hi => exact hs.workerBegin hi hx
    · cases hx
      exact hs.same
  | workerEnd i rc =>
    rw [Service.critical] at hx
    split at hx
    · next hi =>
      cases hx
      exact hs.workerEnd hi rc
    · cases hx
      exact hs.same
  | stop =>
    cases hx
    exact hs.kept (serviceStop_kept hok)
  | motor port speed =>
    cases hx
    exact hs.kept (drive_kept hok port _)
  | position port degrees speed =>
    cases hx
    exact hs.kept (drive_kept hok port _)
  | done port =>
    cases hx
    exact hs.kept (serviceDone_kept hok port)
  | sensor predicate =>
    cases hx
    exact hs.kept (serviceSensor_kept hok predicate)

/-- **While Python is active** only the worker's second section does more than `Kept` allows. -/
theorem critical_active {e : Event} (hs : Inv s)
    (hactive : s.pythonActive = true) (hx : critical s e = some x) :
    .cleared ∈ x.2 ∨ Kept s x.2 x.1 := by
  have hok := hs.ok
  have hsame : Kept s [] s := .silent hok ⟨rfl, rfl, rfl⟩ rfl id
  have hinit : s.initialized = true := by
    by_contra hi
    exact hs.idle hi hactive
  cases e with
  | init error =>
    cases hx
    rw [init_of_initialized hinit]
    exact .inr hsame
  | request r error io =>
    rw [Service.critical, Service.serviceRequest, init_of_initialized hinit] at hx
    exact .inr (requestLocked_kept hok hx)
  | poll t => exact .inr (tickLocked_kept hok hx)
  | workerBegin i t =>
    rw [Service.critical] at hx
    split at hx
    · obtain ⟨⟨s₁, notes⟩, htick, rfl⟩ := Option.map_eq_some_iff.mp hx
      have hkept := tickLocked_kept hok htick
      right
      dsimp only
      split
      · next hgo => exact absurd ((hkept.active.trans hactive).symm.trans hgo.2) (by decide)
      · exact hkept
    · cases hx
      exact .inr hsame
  | workerEnd i rc =>
    rw [Service.critical] at hx
    split at hx
    · cases hx
      exact .inl mem_cons_self
    · cases hx
      exact .inr hsame
  | stop =>
    cases hx
    exact .inr (serviceStop_kept hok)
  | motor port speed =>
    cases hx
    exact .inr (drive_kept hok port _)
  | position port degrees speed =>
    cases hx
    exact .inr (drive_kept hok port _)
  | done port =>
    cases hx
    exact .inr (serviceDone_kept hok port)
  | sensor predicate =>
    cases hx
    exact .inr (serviceSensor_kept hok predicate)

/-- A section that does not return keeps the lock, and nothing changes any more. -/
theorem Inv.block (hs : Inv s) : Inv { s with blocked := true } :=
  ⟨hs.ok, hs.fresh, hs.single, hs.active⟩

/-- A step is a critical section, or nothing happens but that the lock may be lost. -/
theorem step_cases (s : State) (e : Event) :
    critical s e = some (machine.step s e) ∨ machine.step s e = (s, []) ∨
      machine.step s e = ({ s with blocked := true }, []) := by
  rw [machine]
  dsimp only
  split
  · exact .inr (.inl rfl)
  split
  · next hx => exact .inl hx
  · exact .inr (.inr rfl)

theorem Hist.step (hs : Hist h s) (e : Event) :
    Hist (h ++ (machine.step s e).2) (machine.step s e).1 := by
  rcases step_cases s e with hx | hx | hx
  · exact hs.critical hx
  · rw [hx]
    exact hs.same
  · rw [hx, append_nil]
    exact ⟨hs.inv.block, hs.pending, hs.attributed, hs.active⟩

theorem history_cons (s : State) (e : Event) (events : List Event) :
    history s (e :: events) = (machine.step s e).2 ++ history (machine.step s e).1 events := rfl

/-- **Every run** from a state with a history. -/
theorem Hist.run (hs : Hist h s) (events : List Event) :
    Hist (h ++ history s events) (machine.run s events) := by
  induction events generalizing h s with
  | nil => exact hs.same
  | cons e events ih =>
    rw [history_cons, ← append_assoc]
    exact ih (hs.step e)

theorem boot_hist (respond : List HubProgram.Event → IoCall → IoResult) (files : Files) :
    Hist [] (boot respond files) where
  inv :=
    { ok := ⟨init_stored ⟨false, false, false, false, false⟩, Upload.init_ok, .inactive Upload.init⟩
      fresh := fun _ => rfl
      single := Nat.zero_le 1
      active := iff_of_false Bool.false_ne_true not_mem_nil }
  pending h := absurd h Bool.false_ne_true
  attributed := .nil
  active := iff_of_false Bool.false_ne_true Outstanding.nil

/-- **Until the mark is cleared** Python stays active, what is stored stays as it is, and no request
that would replace or restart the program is accepted. -/
theorem frozen_run (hs : Inv s) (hactive : s.pythonActive = true) (events : List Event)
    (hno : .cleared ∉ history s events) :
    (machine.run s events).pythonActive = true ∧
      (machine.run s events).hub.program.stored = s.hub.program.stored ∧
      ∀ r rc d, .answered r rc d ∈ history s events → Replaces (opOf r.data) → rc = -EBUSY := by
  induction events generalizing s with
  | nil => exact ⟨hactive, rfl, fun _ _ _ hn => nomatch hn⟩
  | cons e events ih =>
    rw [history_cons] at hno ⊢
    rw [mem_append, not_or] at hno
    -- One step: `Kept`, or nothing at all.
    have hstep : Inv (machine.step s e).1 ∧ (machine.step s e).1.pythonActive = true ∧
        (machine.step s e).1.hub.program.stored = s.hub.program.stored ∧
        ∀ r rc d, .answered r rc d ∈ (machine.step s e).2 → Replaces (opOf r.data) →
          rc = -EBUSY := by
      rcases step_cases s e with hx | hx | hx
      · have hkept := (critical_active hs hactive hx).resolve_left hno.1
        obtain ⟨hstored, hbusy⟩ := hkept.frozen hactive
        exact ⟨hs.kept hkept, hkept.active.trans hactive, hstored, hbusy⟩
      · rw [hx]
        exact ⟨hs, hactive, rfl, fun _ _ _ hn => nomatch hn⟩
      · rw [hx]
        exact ⟨hs.block, hactive, rfl, fun _ _ _ hn => nomatch hn⟩
    obtain ⟨hs₁, hactive₁, hstored₁, hbusy₁⟩ := hstep
    obtain ⟨hactive₂, hstored₂, hbusy₂⟩ := ih hs₁ hactive₁ hno.2
    refine ⟨hactive₂, hstored₂.trans hstored₁, ?_⟩
    intro r rc d hn
    rcases mem_append.mp hn with hn | hn
    · exact hbusy₁ r rc d hn
    · exact hbusy₂ r rc d hn

/-- **One Python program at a time.** In every run of the service, with `h` what happened and `s`
the state it led to:

* at most one worker executes, and one does exactly between a mark and the clear behind it;
* from a state in which Python is active, and until the mark is cleared, the stored program does not
  change and every request that would begin, commit, start, save or restore is told so;
* an execution begins while no other is in progress, and the last accepted start before it has not
  been executed: its program is a Python program, whose text is executed;
* after an accepted start and up to the next one there is at most one execution, of the text that
  was stored at the start. -/
theorem python_service (respond : List HubProgram.Event → IoCall → IoResult) (files : Files)
    (events : List Event) :
    let s := machine.run (boot respond files) events
    let h := history (boot respond files) events
    (s.workers.length ≤ 1 ∧ (true ∈ s.workers ↔ InProgress h)) ∧
    (InProgress h → ∀ later, .cleared ∉ history s later →
      (machine.run s later).hub.program.stored = s.hub.program.stored ∧
      ∀ r rc d, .answered r rc d ∈ history s later → Replaces (opOf r.data) → rc = -EBUSY) ∧
    (∀ pre source post, h = pre ++ .marked source :: post →
      ¬ InProgress pre ∧ ∃ d, Pending d pre ∧ d.language ≠ 0 ∧ source = Stored.text d) ∧
    ∀ pre n d before source after, h = pre ++ n :: (before ++ .marked source :: after) →
      n.started = some d → (∀ x ∈ before, x.started = none) →
        d.language ≠ 0 ∧ source = Stored.text d ∧ ∀ x ∈ before, ¬ x.IsMark := by
  intro s h
  have hs : Hist h s := (boot_hist respond files).run events
  refine ⟨⟨hs.inv.single, hs.inv.active.symm.trans hs.active⟩, ?_, hs.attributed, ?_⟩
  · intro hprogress later hno
    exact (frozen_run hs.inv (hs.active.mpr hprogress) later hno).2
  · intro pre n d before source after heq hstart hbefore
    exact Attributed.between (heq ▸ hs.attributed) hstart hbefore

end Brickwright.HubProgram.Service
