import Brickwright.Bluetooth.Work.Basic

/-!
# The flags of an item, and whose thread is whose

`flags_step` says who changes `pending`, `canceled` and `running` of an item; `notes_step`, who
notes what; `role_step`, that a thread remains the caller, the worker or the timer thread it is.
-/

namespace Brickwright.Bluetooth.WorkQueue

open List

variable {slots : Nat} {k : Kernel} {pc : Point} {input : Input} {w : Nat}

/-- What a section does to the flags of an item. -/
inductive Flags (w : Nat) (k : Kernel) (pc : Point) (k' : Kernel) (pc' : Point)
    (notes : List Note) : Prop
  | stays (hpending : (k'.work w).pending = (k.work w).pending)
      (hcanceled : (k'.work w).canceled = (k.work w).canceled)
      (hrunning : (k'.work w).running = (k.work w).running)
      (hgot : ∀ q, pc = .got q w → pc' = pc) (hfinishing : ∀ q, pc = .finishing q w → pc' = pc)
  | submits (s : Submitter) (q : Nat) (hpc : pc = .submitting s q w)
      (hidle : (k.work w).pending = false)
      (hwork : k'.work w = { k.work w with pending := true, canceled := false })
      (hnote : .submitted s w ∈ notes)
  | cancels (c : Canceller) (hpc : pc = .cancelling c w) (hnote : .canceled w ∈ notes)
      (hpending : (k'.work w).pending = (k.work w).pending)
      (hrunning : (k'.work w).running = (k.work w).running)
  | drops (q : Nat) (hpc : pc = .got q w) (hcanceled : (k.work w).canceled = true)
      (hpc' : pc' = .getting q)
      (hwork : k'.work w = { k.work w with pending := false, canceled := false })
  | takes (q : Nat) (hpc : pc = .got q w) (hcanceled : (k.work w).canceled = false)
      (hpc' : pc' = .starting q w)
      (hwork : k'.work w = { k.work w with pending := false, running := true })
  | finishes (q : Nat) (hpc : pc = .finishing q w) (hpc' : pc' = .getting q)
      (hwork : k'.work w = { k.work w with running := false })

variable {k' : Kernel} {pc' : Point} {notes : List Note}

theorem flags_of_work (hwork : k'.work w = k.work w) (hgot : ∀ q, pc ≠ .got q w)
    (hfinishing : ∀ q, pc ≠ .finishing q w) : Flags w k pc k' pc' notes :=
  .stays (by rw [hwork]) (by rw [hwork]) (by rw [hwork]) (fun q h => absurd h (hgot q))
    fun q h => absurd h (hfinishing q)

theorem flags_of_setWork {w' : Nat} {f : Work → Work} (hpending : ∀ x, (f x).pending = x.pending)
    (hcanceled : ∀ x, (f x).canceled = x.canceled) (hrunning : ∀ x, (f x).running = x.running)
    (hgot : ∀ q, pc ≠ .got q w) (hfinishing : ∀ q, pc ≠ .finishing q w) :
    Flags w k pc (k.setWork w' f) pc' notes := by
  by_cases hw : w = w'
  · subst hw
    exact .stays (by rw [Kernel.setWork_self, hpending]) (by rw [Kernel.setWork_self, hcanceled])
      (by rw [Kernel.setWork_self, hrunning]) (fun q h => absurd h (hgot q))
      fun q h => absurd h (hfinishing q)
  · exact flags_of_work (Kernel.setWork_of_ne hw f) hgot hfinishing

theorem flags_of_other {w' : Nat} {f : Work → Work} (hk : k' = k.setWork w' f) (hw : w ≠ w')
    (hgot : ∀ q, pc ≠ .got q w) (hfinishing : ∀ q, pc ≠ .finishing q w) :
    Flags w k pc k' pc' notes :=
  flags_of_work (hk ▸ Kernel.setWork_of_ne hw f) hgot hfinishing

theorem cancelLocked_kernel (k : Kernel) (c : Canceller) (w : Nat) :
    (cancelLocked k c w).1 = k.setWork w fun x =>
      { x with generation := x.generation + 1, canceled := x.pending || x.canceled } := by
  cases c <;> rfl

/-- **The step lemma for the flags.** -/
theorem flags_step (slots : Nat) (k : Kernel) (pc : Point) (input : Input) (w : Nat) :
    Flags w k pc (body slots k pc input).1 (body slots k pc input).2.2
      (body slots k pc input).2.1 := by
  have hact := body_act slots k pc input
  generalize body slots k pc input = r at hact ⊢
  cases hact with
  | stays => exact .stays rfl rfl rfl (fun _ _ => rfl) fun _ _ => rfl
  | passes h => cases h <;> exact flags_of_work rfl nofun nofun
  | queued s => cases s <;> exact flags_of_work rfl nofun nofun
  | puts s => cases s <;> exact flags_of_work rfl nofun nofun
  | marks h => cases h <;> exact flags_of_work rfl nofun nofun
  | submits s q w' hidle =>
    by_cases hw : w = w'
    · subst hw
      refine .submits s q rfl hidle ?_ (mem_singleton_self _)
      rw [Kernel.setWork_self]
    · dsimp only
      exact flags_of_other rfl hw nofun nofun
  | cancels c w' =>
    by_cases hw : w = w'
    · subst hw
      refine .cancels c rfl ?_ ?_ ?_
      · cases c <;> simp [cancelLocked]
      · cases c <;> simp [cancelLocked]
      · cases c <;> simp [cancelLocked]
    · exact flags_of_other (cancelLocked_kernel ..) hw nofun nofun
  | drops q w' hcanceled =>
    by_cases hw : w = w'
    · subst hw
      refine .drops q rfl hcanceled rfl ?_
      rw [Kernel.setWork_self]
    · dsimp only
      exact flags_of_other rfl hw (fun _ h => hw (by cases h; rfl)) nofun
  | takes q w' hcanceled =>
    by_cases hw : w = w'
    · subst hw
      refine .takes q rfl hcanceled rfl ?_
      rw [Kernel.setWork_self]
    · dsimp only
      exact flags_of_other rfl hw (fun _ h => hw (by cases h; rfl)) nofun
  | finishes q w' =>
    by_cases hw : w = w'
    · subst hw
      refine .finishes q rfl rfl ?_
      rw [Kernel.setWork_self]
    · dsimp only
      exact flags_of_other rfl hw nofun fun _ h => hw (by cases h; rfl)
  | schedules | fails | cancelsDelayable | compares =>
    dsimp only
    exact flags_of_setWork (fun _ => rfl) (fun _ => rfl) (fun _ => rfl) nofun nofun
  | _ => exact flags_of_work rfl nofun nofun

/-! ## Notes -/

def Input.Goes : Input → Prop
  | .go _ _ => True
  | .call _ => False

inductive Notes (pc : Point) (input : Input) : Note → Prop
  | called (c : Call) (hpc : pc = .idle) (hinput : input = .call c) : Notes pc input (.called c)
  | returned (result : Int) : Notes pc input (.returned result)
  | submitted (who : Submitter) (q w : Nat) (hpc : pc = .submitting who q w)
      (hgoes : input.Goes) : Notes pc input (.submitted who w)
  | scheduled (q w : Nat) (delay : Int) (replace : Bool)
      (hpc : pc = .scheduling q w delay replace) (hgoes : input.Goes) :
        Notes pc input (.scheduled w)
  | canceled (c : Canceller) (w : Nat) (hpc : pc = .cancelling c w) (hgoes : input.Goes) :
      Notes pc input (.canceled w)
  | delayCanceled (sync : Bool) (w : Nat) (hpc : pc = .cancellingDelayable sync w)
      (hgoes : input.Goes) : Notes pc input (.delayCanceled sync w)
  | started (q w : Nat) (hpc : pc = .starting q w) (hgoes : input.Goes) :
      Notes pc input (.started w)

theorem mem_submitReturns {result : Int} {s : Submitter} {n : Note}
    (h : n ∈ (submitReturns k notes result s).2.1) : n ∈ notes ∨ n = .returned result := by
  cases s with
  | timer => exact .inl h
  | _ => simpa [submitReturns] using h

theorem notes_cancelLocked {c : Canceller} {w' : Nat} {flag : Bool} {now : Int} {n : Note}
    (h : n ∈ (cancelLocked k c w').2.1) : Notes (.cancelling c w') (.go flag now) n := by
  have hmem : n = .canceled w' ∨ ∃ result, n = .returned result := by
    cases c with
    | call =>
      rcases mem_cons.mp h with rfl | h
      · exact .inl rfl
      · exact .inr ⟨_, mem_singleton.mp h⟩
    | delayable =>
      rcases mem_cons.mp h with rfl | h
      · exact .inl rfl
      · exact .inr ⟨_, mem_singleton.mp h⟩
    | sync => exact .inl (mem_singleton.mp h)
    | delayableSync => exact .inl (mem_singleton.mp h)
  rcases hmem with rfl | ⟨result, rfl⟩
  · exact .canceled c w' rfl trivial
  · exact .returned result

/-- **The step lemma for the notes.** -/
theorem notes_step (slots : Nat) (k : Kernel) (pc : Point) (input : Input) {n : Note}
    (h : n ∈ (body slots k pc input).2.1) : Notes pc input n := by
  have hact := body_act slots k pc input
  generalize body slots k pc input = r at hact h
  cases hact with
  | calls c =>
    cases mem_singleton.mp h
    exact .called c rfl rfl
  | passes _ hnotes =>
    obtain ⟨result, rfl⟩ := hnotes n h
    exact .returned result
  | marks _ hnotes =>
    obtain ⟨result, rfl⟩ := hnotes n h
    exact .returned result
  | queued s q w =>
    rcases mem_submitReturns h with h | rfl
    · cases mem_singleton.mp h
      exact .submitted s q w rfl trivial
    · exact .returned 0
  | submits s q w =>
    cases mem_singleton.mp h
    exact .submitted s q w rfl trivial
  | puts =>
    rcases mem_submitReturns h with h | rfl
    · cases h
    · exact .returned 1
  | schedules q w delay replace =>
    cases mem_singleton.mp h
    exact .scheduled q w delay replace rfl trivial
  | creates | fails =>
    cases mem_singleton.mp h
    exact .returned _
  | cancels => exact notes_cancelLocked h
  | cancelsDelayable sync w =>
    cases mem_singleton.mp h
    exact .delayCanceled sync w rfl trivial
  | starts q w =>
    cases mem_singleton.mp h
    exact .started q w rfl trivial
  | _ => cases h

/-! ## Roles -/

inductive Role where
  | caller
  | worker (q : Nat)
  | timer (slot : Nat)
  deriving DecidableEq, Repr

def Submitter.role : Submitter → Role
  | .timer slot => .timer slot
  | _ => .caller

def Point.role : Point → Role
  | .submitting s _ _ => s.role
  | .putting s _ _ => s.role
  | .getting q => .worker q
  | .got q _ => .worker q
  | .starting q _ => .worker q
  | .handling q _ => .worker q
  | .finishing q _ => .worker q
  | .dormant slot => .timer slot
  | .sleeping slot => .timer slot
  | .checking slot => .timer slot
  | .releasing slot => .timer slot
  | _ => .caller

theorem role_submitReturns (k : Kernel) (notes : List Note) (result : Int) (s : Submitter) :
    (submitReturns k notes result s).2.2.role = s.role := by
  cases s <;> rfl

theorem role_step (slots : Nat) (k : Kernel) (pc : Point) (input : Input) :
    (body slots k pc input).2.2.role = pc.role := by
  have hact := body_act slots k pc input
  generalize body slots k pc input = r at hact ⊢
  cases hact with
  | calls c => cases c <;> rfl
  | passes h => cases h <;> rfl
  | marks h => cases h <;> rfl
  | queued => exact role_submitReturns ..
  | puts => exact role_submitReturns ..
  | schedules =>
    split <;> rfl
  | cancels c => cases c <;> rfl
  | _ => rfl

def roleOf (i : Nat) : Role :=
  if i % 3 = 0 then .caller else if i % 3 = 1 then .worker (i / 3) else .timer (i / 3)

def Roles (s : Threads.State Kernel Point) : Prop := ∀ i, (s.pc i).role = roleOf i

theorem roles_initial : Roles initial := by
  intro i
  rw [roleOf, initial]
  dsimp only
  split
  · rfl
  · split <;> rfl

theorem roles_step {s : Threads.State Kernel Point} (h : Roles s) (i : Nat) (input : Input) :
    Roles ((threads slots).step s i input) := by
  intro j
  by_cases hj : j = i
  · subst hj
    rw [Threads.step_pc_self]
    exact (role_step slots s.shared (s.pc j) input).trans (h j)
  · rw [Threads.step_pc_of_ne hj]
    exact h j

theorem worker_eq {i q : Nat} (h : roleOf i = .worker q) : i = 3 * q + 1 := by
  rw [roleOf] at h
  split at h
  · cases h
  · split at h
    · cases h
      omega
    · cases h

theorem roleOf_worker (q : Nat) : roleOf (3 * q + 1) = .worker q := by
  rw [roleOf, if_neg (by omega), if_pos (by omega)]
  congr 1
  omega

theorem worker_points {q : Nat} (h : pc.role = .worker q) :
    pc = .getting q ∨ ∃ w, pc = .got q w ∨ pc = .starting q w ∨ pc = .handling q w ∨
      pc = .finishing q w := by
  cases pc with
  | submitting who => cases who <;> cases h
  | putting who => cases who <;> cases h
  | getting => cases h; exact .inl rfl
  | got => cases h; exact .inr ⟨_, .inl rfl⟩
  | starting => cases h; exact .inr ⟨_, .inr (.inl rfl)⟩
  | handling => cases h; exact .inr ⟨_, .inr (.inr (.inl rfl))⟩
  | finishing => cases h; exact .inr ⟨_, .inr (.inr (.inr rfl))⟩
  | _ => cases h

theorem timer_eq {i slot : Nat} (h : roleOf i = .timer slot) : i = 3 * slot + 2 := by
  rw [roleOf] at h
  split at h
  · cases h
  · split at h
    · cases h
    · cases h
      omega

end Brickwright.Bluetooth.WorkQueue
