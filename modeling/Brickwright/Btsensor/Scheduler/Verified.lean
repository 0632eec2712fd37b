import Brickwright.Btsensor.Scheduler.Basic

/-!
# Each watch and each timer has at most one slot, or not (`btsensor_scheduler.c`)

* `Table.count_place`, `Table.count_placeOrOwn`, `Table.count_clear` — what the three loops over a
  table do to the number of slots an object has.
* `slots_step` — one step from a state in which every object has at most one slot.
* `slot_law` — over whole runs: every object keeps to one slot, and a stop that returns leaves it
  none, exactly in the runs that restart no object past a free slot.
* `restart_duplicates` — a run in which the scheduler fails to.
-/

namespace Brickwright.Btsensor.Scheduler

open List

/-! ## The loops over a table -/

namespace Table

variable {x y : Ptr} {t : Table}

theorem place_eq (hfree : none ∈ t) :
    ∃ a b, none ∉ a ∧ t = a ++ none :: b ∧ t.place x = a ++ some x :: b := by
  obtain ⟨slot, slot', a, b, ha, hslot, ht, hplace⟩ := exists_of_replaceF
    (p := fun slot => if slot = none then some (some x) else none) hfree (if_pos rfl)
  split at hslot
  · rename_i hnone
    subst hnone
    obtain rfl := Option.some.inj hslot
    refine ⟨a, b, fun h => ?_, ht, hplace⟩
    simpa using ha none h
  · cases hslot

theorem count_place (hfree : none ∈ t) :
    (t.place x).count (some y) = t.count (some y) + if y = x then 1 else 0 := by
  obtain ⟨a, b, -, ht, hplace⟩ := place_eq (x := x) hfree
  rw [hplace, ht]
  simp only [count_append, count_cons, reduceCtorEq, beq_iff_eq, Option.some.injEq,
    if_false, eq_comm (a := x)]
  omega

/-- One slot of `x` is given back, if it has any. -/
theorem count_clear : (t.clear x).count (some y) = t.count (some y) - if y = x then 1 else 0 := by
  by_cases hx : some x ∈ t
  · obtain ⟨slot, slot', a, b, ha, hslot, ht, hclear⟩ := exists_of_replaceF
      (p := fun slot => if slot = some x then some none else none) hx (if_pos rfl)
    split at hslot
    · rename_i hown
      subst hown
      obtain rfl := Option.some.inj hslot
      rw [clear, hclear, ht]
      simp only [count_append, count_cons, reduceCtorEq, beq_iff_eq, Option.some.injEq,
        if_false, eq_comm (a := x)]
      omega
    · cases hslot
  · have hsame : t.clear x = t := by
      apply replaceF_of_forall_none
      intro slot hslot
      apply if_neg
      rintro rfl
      exact hx hslot
    rw [hsame]
    by_cases hy : y = x
    · rw [hy, count_eq_zero_of_not_mem hx, Nat.zero_sub]
    · rw [if_neg hy, Nat.sub_zero]

/-- The slot of `x` comes before every free one. -/
def OwnFirst (x : Ptr) (t : Table) : Prop := t.idxOf (some x) < t.idxOf none

instance : Decidable (OwnFirst x t) := inferInstanceAs (Decidable (_ < _))

theorem placeOrOwn_eq (h : none ∈ t ∨ some x ∈ t) :
    ∃ a slot b, none ∉ a ∧ some x ∉ a ∧ (slot = none ∨ slot = some x) ∧ t = a ++ slot :: b ∧
      t.placeOrOwn x = a ++ some x :: b := by
  have hfits : ∃ slot ∈ t, slot = none ∨ slot = some x := by
    rcases h with h | h
    · exact ⟨none, h, .inl rfl⟩
    · exact ⟨some x, h, .inr rfl⟩
  obtain ⟨slot₀, hmem, hfit⟩ := hfits
  obtain ⟨slot, slot', a, b, ha, hslot, ht, hplace⟩ := exists_of_replaceF
    (p := fun slot => if slot = none ∨ slot = some x then some (some x) else none) hmem
    (if_pos hfit)
  split at hslot
  · rename_i hfree
    obtain rfl := Option.some.inj hslot
    refine ⟨a, slot, b, fun h => ?_, fun h => ?_, hfree, ht, hplace⟩
    · simpa using ha none h
    · simpa using ha (some x) h
  · cases hslot

/-- A slot is taken for `x`, unless the first one that fits is its own. -/
theorem count_placeOrOwn (h : none ∈ t ∨ some x ∈ t) :
    (t.placeOrOwn x).count (some y) =
      t.count (some y) + if y = x ∧ ¬ OwnFirst x t then 1 else 0 := by
  obtain ⟨a, slot, b, hnone, hown, hslot, ht, hplace⟩ := placeOrOwn_eq h
  have hindex : OwnFirst x t ↔ (slot :: b).idxOf (some x) < (slot :: b).idxOf none := by
    rw [OwnFirst, ht, idxOf_append_of_notMem hown, idxOf_append_of_notMem hnone]
    exact Nat.add_lt_add_iff_left
  rw [hplace]
  rcases hslot with rfl | rfl
  · have hlate : ¬ OwnFirst x t := by
      rw [hindex, idxOf_cons_self]
      exact Nat.not_lt_zero _
    simp only [hlate, not_false_eq_true, and_true]
    rw [ht]
    simp only [count_append, count_cons, reduceCtorEq, beq_iff_eq, Option.some.injEq,
      if_false, eq_comm (a := x)]
    omega
  · have hfirst : OwnFirst x t := by
      rw [hindex, idxOf_cons_self, idxOf_cons_ne _ (by simp)]
      exact Nat.succ_pos _
    rw [if_neg (fun h => h.2 hfirst), Nat.add_zero, ht]

theorem count_set_none (i : Nat) : (t.set i none).count (some y) ≤ t.count (some y) := by
  induction t generalizing i with
  | nil => exact Nat.le_refl _
  | cons slot t ih =>
    cases i with
    | zero =>
      rw [set_cons_zero, count_cons, count_cons]
      simp
    | succ i =>
      rw [set_cons_succ, count_cons, count_cons]
      exact Nat.add_le_add_right (ih i) _

end Table

/-! ## One step -/

/-- Every watch and every timer has at most one slot. -/
def Sound (s : State) : Prop :=
  (∀ x, s.watches.count (some x) ≤ 1) ∧ ∀ x, s.timers.count (some x) ≤ 1

/-- If this event is a stop that returns, its object is left no slot. -/
def StopClears (s : State) : Event → Prop
  | .watchStopEnd x => (machine.step s (.watchStopEnd x)).2 = .returned →
      some x ∉ (machine.step s (.watchStopEnd x)).1.watches
  | .timerStopEnd x => (machine.step s (.timerStopEnd x)).2 = .returned →
      some x ∉ (machine.step s (.timerStopEnd x)).1.timers
  | _ => True

/-- A start that does not give an object a second slot: a watch that has one is started only when
the table is full, and a timer that has one only when no free slot comes before it. -/
def NoRestartPastFree (s : State) : Event → Prop
  | .watchStart (some x) fd (some _) _ => 0 ≤ fd → some x ∈ s.watches → none ∉ s.watches
  | .timerStart (some x) periodMs (some _) _ _ _ =>
      periodMs ≠ 0 → some x ∈ s.timers → s.timers.OwnFirst x
  | _ => True

variable {s : State}

/-- An object that a table has once has no slot after its stop. -/
theorem not_mem_clear {x : Ptr} {t : Table} (hle : t.count (some x) ≤ 1) :
    some x ∉ t.clear x := by
  rw [← count_eq_zero, Table.count_clear, if_pos rfl]
  omega

theorem clear_le {x : Ptr} {t : Table} (hle : ∀ y, t.count (some y) ≤ 1) (y : Ptr) :
    (t.clear x).count (some y) ≤ 1 := by
  rw [Table.count_clear]
  exact Nat.le_trans (Nat.sub_le _ _) (hle y)

/-- Another slot for `x` keeps the table sound exactly when it is the first. -/
theorem place_le_iff {x : Ptr} {t t' : Table} (more : Prop) [Decidable more]
    (hle : ∀ y, t.count (some y) ≤ 1)
    (hcount : ∀ y, t'.count (some y) = t.count (some y) + if y = x ∧ more then 1 else 0) :
    (∀ y, t'.count (some y) ≤ 1) ↔ (some x ∈ t → ¬ more) := by
  constructor
  · intro h hx hmore
    have hx := one_le_count_iff.mpr hx
    have := h x
    rw [hcount, if_pos ⟨rfl, hmore⟩] at this
    omega
  · intro h y
    rw [hcount]
    by_cases hy : y = x ∧ more
    · rw [if_pos hy]
      have hnot : some y ∉ t := fun hmem => h (hy.1 ▸ hmem) hy.2
      have hzero := count_eq_zero_of_not_mem hnot
      omega
    · rw [if_neg hy]
      exact hle y

theorem watchStart_sound (hs : Sound s) (watch : Option Ptr) (fd : Int) (callback : Option Ptr)
    (arg : Nat) : Sound (s.watchStart watch fd callback arg).2 ↔
      NoRestartPastFree s (.watchStart watch fd callback arg) := by
  cases watch with
  | none => exact iff_of_true hs trivial
  | some x =>
    cases callback with
    | none => exact iff_of_true hs trivial
    | some callback =>
      rw [State.watchStart, NoRestartPastFree]
      by_cases hfd : fd < 0
      · rw [if_pos hfd]
        exact iff_of_true hs fun h => absurd hfd (Int.not_lt.mpr h)
      rw [if_neg hfd]
      by_cases hfree : none ∈ s.watches
      · rw [if_neg (not_not.mpr hfree)]
        have hplace := place_le_iff True hs.1
          (fun y => by simpa using Table.count_place (x := x) (y := y) hfree)
        rw [imp_iff_right (Int.not_lt.mp hfd)]
        constructor
        · intro h hx
          exact absurd trivial (hplace.mp h.1 hx)
        · intro h
          exact ⟨hplace.mpr fun hx => absurd hfree (h hx), hs.2⟩
      · rw [if_pos hfree]
        exact iff_of_true hs fun _ _ => hfree

theorem timerStart_sound (hs : Sound s) (timer : Option Ptr) (periodMs : UInt32)
    (callback : Option Ptr) (arg : Nat) (oneShot : Bool) (now : UInt64) :
    Sound (s.timerStart timer periodMs callback arg oneShot now).2 ↔
      NoRestartPastFree s (.timerStart timer periodMs callback arg oneShot now) := by
  cases timer with
  | none => exact iff_of_true hs trivial
  | some x =>
    cases callback with
    | none => exact iff_of_true hs trivial
    | some callback =>
      rw [State.timerStart, NoRestartPastFree]
      by_cases hperiod : periodMs = 0
      · rw [if_pos hperiod]
        exact iff_of_true hs fun h => absurd hperiod h
      rw [if_neg hperiod, imp_iff_right hperiod]
      by_cases hfits : none ∈ s.timers ∨ some x ∈ s.timers
      · rw [if_neg (by rwa [not_and_or, not_not, not_not])]
        have hplace := place_le_iff (¬ s.timers.OwnFirst x) hs.2
          (fun y => Table.count_placeOrOwn (y := y) hfits)
        rw [not_not] at hplace
        exact ⟨fun h => hplace.mp h.2, fun h => ⟨hs.1, hplace.mpr h⟩⟩
      · rw [not_or] at hfits
        rw [if_pos hfits]
        exact iff_of_true hs fun h => absurd h hfits.2

theorem expireSlot_sound (hs : Sound s) (now : UInt64) (i : Nat) :
    Sound (s.expireSlot now i) := by
  rw [State.expireSlot]
  split
  · split
    · refine ⟨hs.1, fun y => ?_⟩
      show List.count (some y) (if _ then s.timers.set i none else s.timers) ≤ 1
      split
      · exact Nat.le_trans (Table.count_set_none i) (hs.2 y)
      · exact hs.2 y
    · exact hs
  · exact hs

theorem workerStep_sound (hs : Sound s) (world : Answers) : Sound (s.workerStep world) := by
  rw [State.workerStep]
  split
  · exact hs
  · split
    · exact hs
    · exact hs
  · split
    · exact hs
    · exact hs
  · exact hs
  · exact hs
  · split
    · exact expireSlot_sound hs _ _
    · exact hs
  · exact hs
  · exact hs

theorem watchStopEnd_sound (hs : Sound s) (x : Ptr) : Sound (s.watchStopEnd x).2 ∧
    StopClears s (.watchStopEnd x) := by
  rw [State.watchStopEnd, StopClears, machine]
  dsimp only
  rw [State.watchStopEnd]
  split
  · exact ⟨⟨clear_le hs.1, hs.2⟩, fun _ => not_mem_clear (hs.1 x)⟩
  · exact ⟨hs, fun h => nomatch h⟩

theorem timerStopEnd_sound (hs : Sound s) (x : Ptr) : Sound (s.timerStopEnd x).2 ∧
    StopClears s (.timerStopEnd x) := by
  rw [State.timerStopEnd, StopClears, machine]
  dsimp only
  rw [State.timerStopEnd]
  split
  · exact ⟨⟨hs.1, clear_le hs.2⟩, fun _ => not_mem_clear (hs.2 x)⟩
  · exact ⟨hs, fun h => nomatch h⟩

/-- **One step** from a sound state: it ends in a sound state, and a stop that returns clears,
exactly when it restarts nothing past a free slot. -/
theorem slots_step (hs : Sound s) (e : Event) :
    Sound (machine.step s e).1 ∧ StopClears s e ↔ NoRestartPastFree s e := by
  cases e with
  | watchStart watch fd callback arg =>
    exact (and_iff_left trivial).trans (watchStart_sound hs watch fd callback arg)
  | watchStopBegin watch =>
    have hnext : Sound (s.watchStopBegin watch) := by cases watch <;> exact hs
    exact iff_of_true ⟨hnext, trivial⟩ trivial
  | watchStopEnd x => exact iff_of_true (watchStopEnd_sound hs x) trivial
  | timerStart timer periodMs callback arg oneShot now =>
    exact (and_iff_left trivial).trans
      (timerStart_sound hs timer periodMs callback arg oneShot now)
  | timerStopBegin timer =>
    have hnext : Sound (s.timerStopBegin timer) := by cases timer <;> exact hs
    exact iff_of_true ⟨hnext, trivial⟩ trivial
  | timerStopEnd x => exact iff_of_true (timerStopEnd_sound hs x) trivial
  | worker world => exact iff_of_true ⟨workerStep_sound hs world, trivial⟩ trivial

/-! ## Runs -/

theorem boot_sound (watch : Ptr → Watch) (timer : Ptr → Timer) : Sound (boot watch timer) := by
  constructor <;> simp [boot, count_replicate]

/-- **The slots over whole runs.** Every watch and every timer has at most one slot in every state
reached, and none when its stop has returned, exactly in the runs in which no start finds its
object in a slot behind a free one (a timer) or with a free slot anywhere (a watch). -/
theorem slot_law (watch : Ptr → Watch) (timer : Ptr → Timer) (events : List Event) :
    machine.Throughout (fun s e => Sound (machine.step s e).1 ∧ StopClears s e)
        (boot watch timer) events ↔
      machine.Throughout NoRestartPastFree (boot watch timer) events :=
  machine.throughout_congr (fun s e (hs : Sound s) => ⟨slots_step hs e, fun h => h.1⟩)
    (boot_sound watch timer) events

/-! ## A restart that takes a second slot -/

def someWatch (_ : Ptr) : Watch := ⟨0, 0, 0, false, false, false⟩
def someTimer (_ : Ptr) : Timer := ⟨0, 0, 0, 0, false, false, false⟩

/-- Two timers are started, the first is stopped, and the second is started again: its old slot is
behind the free one. -/
def timerRestart : List Event :=
  [.timerStart (some 1) 10 (some 7) 0 false 0, .timerStart (some 2) 10 (some 7) 0 false 0,
    .timerStopBegin (some 1), .timerStopEnd 1, .timerStart (some 2) 10 (some 7) 0 false 5]

def watchRestart : List Event :=
  [.watchStart (some 1) 3 (some 7) 0, .watchStart (some 1) 3 (some 7) 0]

/-- **The timer and the watch have two slots**, and keep one after a stop has returned. -/
theorem restart_duplicates :
    (machine.run (boot someWatch someTimer) timerRestart).timers.count (some 2) = 2 ∧
    (machine.run (boot someWatch someTimer) watchRestart).watches.count (some 1) = 2 ∧
    (machine.step (machine.run (boot someWatch someTimer)
      (timerRestart ++ [.timerStopBegin (some 2)])) (.timerStopEnd 2)).2 = .returned ∧
    some 2 ∈ (machine.run (boot someWatch someTimer)
      (timerRestart ++ [.timerStopBegin (some 2), .timerStopEnd 2])).timers := by
  decide

end Brickwright.Btsensor.Scheduler
