import Brickwright.Bluetooth.Work.Tokens

/-!
# What a cancellation that waits leaves

`k_work_cancel_delayable_sync` waits until no slot refers to the item, and then, like
`k_work_cancel_sync`, until the item is neither pending nor running (`syncs_step`). Nobody is left
to offer the item then, and nobody is in its handler (`Quiet`), which remains so.

`running` is one flag: when two workers are in the handler, the first one that leaves it clears the
flag. A worker must not take an item of which another worker is in the handler (`TakenAlone`).
-/

namespace Brickwright.Bluetooth.WorkQueue

open List

variable {slots : Nat} {k : Kernel} {pc : Point} {input : Input} {w : Nat}
  {s : Threads.State Kernel Point} {i : Nat}

/-! ## In the handler -/

/-- The thread is in the handler of the item, about to call it or behind it. -/
def Point.Inside (pc : Point) (w : Nat) : Prop :=
  match pc with
  | .starting _ w' => w' = w
  | .handling _ w' => w' = w
  | .finishing _ w' => w' = w
  | _ => False

theorem Point.Inside.role {pc : Point} (h : pc.Inside w) : ∃ q, pc.role = .worker q := by
  cases pc with
  | starting q => exact ⟨q, rfl⟩
  | handling q => exact ⟨q, rfl⟩
  | finishing q => exact ⟨q, rfl⟩
  | _ => exact absurd h id

theorem inside_step (h : (body slots k pc input).2.2.Inside w) :
    pc.Inside w ∨ ∃ q, pc = .got q w ∧ input.Goes ∧
      (body slots k pc input).2.2 = .starting q w := by
  obtain ⟨q, hq⟩ := h.role
  have hrole := (role_step slots k pc input).symm.trans hq
  cases input with
  | call c =>
    rcases worker_points hrole with rfl | ⟨w', rfl | rfl | rfl | rfl⟩ <;> exact .inl h
  | go flag now =>
    rcases worker_points hrole with rfl | ⟨w', rfl | rfl | rfl | rfl⟩
    · simp only [body] at h
      split at h <;> exact absurd h id
    · change (takeLocked k q w').2.2.Inside w at h
      change _ ∨ ∃ q', _ ∧ _ ∧ (takeLocked k q w').2.2 = _
      rw [takeLocked] at h ⊢
      split at h
      · exact absurd h id
      · next hcanceled =>
        rw [if_neg hcanceled]
        cases h
        exact .inr ⟨q, rfl, trivial, rfl⟩
    · exact .inl h
    · exact .inl h
    · exact absurd h id

/-- Whoever is there shows, and is alone. -/
structure Ran (w : Nat) (s : Threads.State Kernel Point) : Prop where
  running : ∀ i, (s.pc i).Inside w → (s.shared.work w).running = true
  alone : ∀ i j, (s.pc i).Inside w → (s.pc j).Inside w → i = j

theorem ran_initial (w : Nat) : Ran w initial := by
  have hpoint (i : Nat) : ¬ (initial.pc i).Inside w := by
    rw [initial]
    dsimp only
    repeat' split
    all_goals exact id
  exact ⟨fun i h => absurd h (hpoint i), fun i _ h => absurd h (hpoint i)⟩

/-- The section is not one in which a worker takes an item of which a worker is in the handler. -/
def TakenAlone (w : Nat) (s : Threads.State Kernel Point) (e : Nat × Input) : Prop :=
  e.2.Goes → ∀ q, s.pc e.1 = .got q w → (s.shared.work w).canceled = false →
    (s.shared.work w).running = false

theorem ran_step (h : Ran w s) (hallowed : TakenAlone w s (i, input)) :
    Ran w ((threads slots).step s i input) := by
  have hself : ((threads slots).step s i input).pc i = (body slots s.shared (s.pc i) input).2.2 :=
    Threads.step_pc_self i input
  -- nobody comes to be in the handler
  have hstays (hrunning : ((body slots s.shared (s.pc i) input).1.work w).running =
        (s.shared.work w).running)
      (htakes : ∀ q, s.pc i = .got q w → (body slots s.shared (s.pc i) input).2.2 ≠ .starting q w) :
      Ran w ((threads slots).step s i input) := by
    have hinside (j : Nat) (hj : (((threads slots).step s i input).pc j).Inside w) :
        (s.pc j).Inside w := by
      by_cases hji : j = i
      · subst hji
        rw [hself] at hj
        rcases inside_step hj with hj | ⟨q, hpc, -, hpc'⟩
        · exact hj
        · exact absurd hpc' (htakes q hpc)
      · rwa [Threads.step_pc_of_ne hji] at hj
    refine ⟨fun j hj => ?_, fun j j' hj hj' => h.alone j j' (hinside j hj) (hinside j' hj')⟩
    exact hrunning.trans (h.running j (hinside j hj))
  cases flags_step slots s.shared (s.pc i) input w with
  | stays hpending hcanceled hrunning hgot =>
    refine hstays hrunning fun q hpc hpc' => ?_
    rw [hgot q hpc, hpc] at hpc'
    cases hpc'
  | submits who q hpc hidle hwork =>
    refine hstays (by rw [hwork]) fun q' hpc' => ?_
    rw [hpc] at hpc'
    cases hpc'
  | cancels c hpc hnote hpending hrunning =>
    refine hstays hrunning fun q' hpc' => ?_
    rw [hpc] at hpc'
    cases hpc'
  | drops q hpc hcanceled hpc' hwork =>
    refine hstays (by rw [hwork]) fun q' _ hpc'' => ?_
    rw [hpc'] at hpc''
    cases hpc''
  | takes q hpc hcanceled hpc' hwork =>
    have hgoes : input.Goes := by
      cases input with
      | go flag now => trivial
      | call c =>
        rw [hpc] at hpc'
        cases hpc'
    have hidle := hallowed hgoes q hpc hcanceled
    have honly (j : Nat) (hj : (((threads slots).step s i input).pc j).Inside w) : j = i := by
      by_contra hji
      rw [Threads.step_pc_of_ne hji] at hj
      rw [h.running j hj] at hidle
      cases hidle
    refine ⟨fun j hj => ?_, fun j j' hj hj' => (honly j hj).trans (honly j' hj').symm⟩
    change ((body slots s.shared (s.pc i) input).1.work w).running = true
    rw [hwork]
  | finishes q hpc hpc' hwork =>
    have hnone (j : Nat) : ¬ (((threads slots).step s i input).pc j).Inside w := by
      by_cases hji : j = i
      · subst hji
        rw [hself, hpc']
        exact id
      · rw [Threads.step_pc_of_ne hji]
        exact fun hj => hji (h.alone j i hj (by rw [hpc]; rfl))
    exact ⟨fun j hj => absurd hj (hnone j), fun j _ hj => absurd hj (hnone j)⟩

/-! ## The waiting -/

/-- The thread is in a cancellation of the item that waits. -/
def Point.Syncing (pc : Point) (w : Nat) : Prop :=
  match pc with
  | .cancellingDelayable sync w' => sync = true ∧ w' = w
  | .marking sync w' _ => sync = true ∧ w' = w
  | .cancelling .delayableSync w' => w' = w
  | .draining w' => w' = w
  | .cancelling .sync w' => w' = w
  | .awaiting w' => w' = w
  | _ => False

/-- It has seen no slot that refers to the item. -/
def Point.Drained (pc : Point) (w : Nat) : Prop :=
  match pc with
  | .cancelling .sync w' => w' = w
  | .awaiting w' => w' = w
  | _ => False

/-- What a section of a cancellation that waits does. -/
inductive Syncs (slots : Nat) (k : Kernel) (pc : Point) (w : Nat) (k' : Kernel) (pc' : Point)
    (notes : List Note) : Prop
  | goesOn (hsyncing : pc'.Syncing w)
      (hdrained : pc'.Drained w → pc.Drained w ∨ ∀ slot < slots, ¬ (k.requests slot).Matches w)
      (hnotes : ∀ result, .returned result ∉ notes)
  | returns (hpc : pc = .awaiting w) (hidle : ¬ k.Busy w) (hkernel : k' = k)

/-- **The step lemma for the waiting.** -/
theorem syncs_step (slots : Nat) (k : Kernel) (input : Input) (h : pc.Syncing w) :
    Syncs slots k pc w (body slots k pc input).1 (body slots k pc input).2.2
      (body slots k pc input).2.1 := by
  cases input with
  | call c =>
    have hstill : body slots k pc (.call c) = (k, [], pc) := by
      cases pc with
      | idle => exact absurd h id
      | _ => rfl
    rw [hstill]
    exact .goesOn h .inl fun _ => not_mem_nil
  | go flag now =>
    cases pc with
    | cancellingDelayable sync w' =>
      refine .goesOn h False.elim fun result hmem => ?_
      cases mem_singleton.mp hmem
    | marking sync w' delayed =>
      obtain ⟨rfl, rfl⟩ := h
      cases delayed
      · exact .goesOn rfl False.elim fun _ => not_mem_nil
      · exact .goesOn rfl False.elim fun _ => not_mem_nil
    | cancelling c w' =>
      cases c with
      | sync =>
        refine .goesOn h (fun _ => .inl h) fun result hmem => ?_
        cases mem_singleton.mp hmem
      | delayableSync =>
        refine .goesOn h False.elim fun result hmem => ?_
        cases mem_singleton.mp hmem
      | _ => exact absurd h id
    | draining w' =>
      cases h
      simp only [body]
      split
      · exact .goesOn rfl False.elim fun _ => not_mem_nil
      · next hnone =>
        refine .goesOn rfl (fun _ => .inr fun slot hslot hmatches => hnone ?_)
          fun _ => not_mem_nil
        exact ⟨slot, mem_range.mpr hslot, hmatches⟩
    | awaiting w' =>
      cases h
      simp only [body]
      split
      · exact .goesOn rfl (fun _ => .inl rfl) fun _ => not_mem_nil
      · next hidle => exact .returns rfl hidle rfl
    | _ => exact absurd h id

/-- What every run keeps in which items are taken alone. -/
structure Base (slots w : Nat) (s : Threads.State Kernel Point) : Prop where
  placed : Placed w s
  roles : Roles s
  slotted : Slots slots s
  ran : Ran w s

theorem base_initial (slots w : Nat) : Base slots w initial :=
  ⟨placed_initial w, roles_initial, slots_initial slots, ran_initial w⟩

theorem base_step (h : Base slots w s) (hallowed : TakenAlone w s (i, input)) :
    Base slots w ((threads slots).step s i input) :=
  ⟨placed_step h.placed i input, roles_step h.roles i input, slots_step h.roles h.slotted i input,
    ran_step h.ran hallowed⟩

/-- The cancellation has not returned, and nobody begins to offer the item. -/
structure Sync (w i : Nat) (h : List (Nat × Note)) (s : Threads.State Kernel Point) : Prop where
  waits : ∀ result, (i, .returned result) ∉ h
  unoffered : Unoffered w s
  syncing : (s.pc i).Syncing w
  drained : (s.pc i).Drained w → Unslotted w s

/-- Nobody offers the item, and nobody handles it. -/
structure Quiet (w : Nat) (s : Threads.State Kernel Point) : Prop where
  unoffered : Unoffered w s
  unslotted : Unslotted w s
  pending : (s.shared.work w).pending = false
  running : (s.shared.work w).running = false

theorem unslotted_of_range (h : Slots slots s)
    (hnone : ∀ slot < slots, ¬ (s.shared.requests slot).Matches w) : Unslotted w s := by
  intro slot hwork
  cases hinUse : (s.shared.requests slot).inUse with
  | true => exact hnone slot (h.small slot hinUse) ⟨hinUse, hwork⟩
  | false =>
    rw [(h.free slot hinUse).1] at hwork
    cases hwork

theorem sync_step {h : List (Nat × Note)} (hbase : Base slots w s) (hsync : Sync w i h s) {j : Nat}
    (hinput : input.Withholds w) :
    Sync w i (h ++ (threads slots).notes s j input) ((threads slots).step s j input) ∨
      Quiet w ((threads slots).step s j input) := by
  have hunoffered : Unoffered w ((threads slots).step s j input) :=
    unoffered_step hsync.unoffered hinput
  have hwaits (hnotes : ∀ result, (i, .returned result) ∉ (threads slots).notes s j input)
      (result : Int) : (i, .returned result) ∉ h ++ (threads slots).notes s j input :=
    fun hmem => (mem_append.mp hmem).elim (hsync.waits result) (hnotes result)
  by_cases hj : i = j
  · subst hj
    have hself : ((threads slots).step s i input).pc i =
        (body slots s.shared (s.pc i) input).2.2 := Threads.step_pc_self i input
    cases syncs_step slots s.shared input hsync.syncing with
    | goesOn hsyncing hdrained hnotes =>
      refine .inl ⟨hwaits fun result hmem => hnotes result (Threads.mem_notes.mp hmem).2,
        hunoffered, by rwa [hself], fun hdrained' => ?_⟩
      rw [hself] at hdrained'
      have hunslotted : Unslotted w s :=
        (hdrained hdrained').elim hsync.drained (unslotted_of_range hbase.slotted)
      exact unslotted_step hunslotted hsync.unoffered.schedule i input
    | returns hpc hidle hkernel =>
      have hunslotted := hsync.drained (by rw [hpc]; rfl)
      have hsame : ((threads slots).step s i input).shared = s.shared := hkernel
      refine .inr ⟨hunoffered, unslotted_step hunslotted hsync.unoffered.schedule i input, ?_, ?_⟩
      · rw [hsame]
        exact Bool.eq_false_iff.mpr fun hpending => hidle (.inl hpending)
      · rw [hsame]
        exact Bool.eq_false_iff.mpr fun hrunning => hidle (.inr hrunning)
  · have hpc := Threads.step_pc_of_ne (m := threads slots) (s := s) hj input
    refine .inl ⟨hwaits fun result hmem => hj (Threads.mem_notes.mp hmem).1, hunoffered,
      by rw [hpc]; exact hsync.syncing, fun hdrained => ?_⟩
    rw [hpc] at hdrained
    exact unslotted_step (hsync.drained hdrained) hsync.unoffered.schedule j input

theorem quiet_step (hbase : Base slots w s) (h : Quiet w s) (hinput : input.Withholds w) :
    Quiet w ((threads slots).step s i input) := by
  refine ⟨unoffered_step h.unoffered hinput,
    unslotted_step h.unslotted h.unoffered.schedule i input,
    pending_of_unoffered hbase.placed hbase.slotted h.unoffered h.unslotted h.pending i input, ?_⟩
  change ((body slots s.shared (s.pc i) input).1.work w).running = false
  cases flags_step slots s.shared (s.pc i) input w with
  | stays hpending hcanceled hrunning => exact hrunning.trans h.running
  | submits who q hpc hidle hwork => rw [hwork]; exact h.running
  | cancels c hpc hnote hpending hrunning => exact hrunning.trans h.running
  | drops q hpc hcanceled hpc' hwork => rw [hwork]; exact h.running
  | takes q hpc =>
    exact absurd (by rw [At, hpc]; rfl) (hbase.placed.nowhere h.pending (.hand i))
  | finishes q hpc hpc' hwork => rw [hwork]

theorem Quiet.outside (h : Quiet w s) (hran : Ran w s) (i : Nat) : ¬ (s.pc i).Inside w := by
  intro hinside
  have hrunning := hran.running i hinside
  rw [h.running] at hrunning
  cases hrunning

/-! ## Plain work -/

structure Plain (w : Nat) (s : Threads.State Kernel Point) : Prop where
  unscheduled : NoTask s (.schedule w)
  unslotted : Unslotted w s

variable {events : List (Nat × Input)}

theorem plain_run (slots : Nat) (h : ∀ e ∈ events, e.2.Avoids (.schedule w)) :
    Plain w ((threads slots).machine.run initial events) := by
  have hstep (s : Threads.State Kernel Point) (i : Nat) (input : Input) (hs : Plain w s)
      (hinput : input.Avoids (.schedule w)) : Plain w ((threads slots).step s i input) :=
    ⟨noTask_step hs.unscheduled hinput, unslotted_step hs.unslotted hs.unscheduled i input⟩
  have hall : (threads slots).machine.Throughout (fun _ e => e.2.Avoids (.schedule w)) initial
      events := Machine.throughout_of_forall _ (fun e he _ => h e he) _
  refine Threads.run_invariant_of (Plain w) ?_ ⟨noTask_initial _, fun _ => ?_⟩ hall
  · exact hstep
  · exact (Option.some_ne_none w).symm

/-! ## The cancellation -/

/-- The call is a cancellation that waits: of an item of any kind, or of one that has never been
scheduled. -/
def WaitsFor (w : Nat) (before : List (Nat × Input)) (c : Call) : Prop :=
  c = .cancelDelayableSync w ∨
    c = .cancelSync w ∧ ∀ e ∈ before, e.2.Avoids (.schedule w)

theorem sync_of_call {before : List (Nat × Input)} {c : Call} (hc : WaitsFor w before c)
    (hs : s = (threads slots).machine.run initial before) (hidle : s.pc i = .idle)
    (hoffered : Unoffered w s) :
    Sync w i ((threads slots).notes s i (.call c)) ((threads slots).step s i (.call c)) := by
  have hbody : body slots s.shared (s.pc i) (.call c) = (s.shared, [.called c], callPoint c) := by
    rw [hidle]
    rfl
  have hself : ((threads slots).step s i (.call c)).pc i = callPoint c := by
    rw [Threads.step_pc_self]
    exact congrArg (·.2.2) hbody
  have hwithholds : (Input.call c).Withholds w := by
    rcases hc with rfl | ⟨rfl, -⟩ <;> exact ⟨nofun, nofun⟩
  refine ⟨fun result hmem => ?_, unoffered_step hoffered hwithholds, ?_, fun hdrained => ?_⟩
  · have hnote := (Threads.mem_notes.mp hmem).2
    change _ ∈ (body slots s.shared (s.pc i) (.call c)).2.1 at hnote
    rw [hbody] at hnote
    cases mem_singleton.mp hnote
  · rw [hself]
    rcases hc with rfl | ⟨rfl, -⟩
    · exact ⟨rfl, rfl⟩
    · rfl
  · rw [hself] at hdrained
    rcases hc with rfl | ⟨rfl, hplain⟩
    · exact absurd hdrained id
    · have hplain := plain_run slots hplain
      rw [← hs] at hplain
      exact unslotted_step hplain.unslotted hplain.unscheduled i _

/-- The item is taken alone, and nobody begins to offer it. -/
def Withheld (w : Nat) (s : Threads.State Kernel Point) (e : Nat × Input) : Prop :=
  TakenAlone w s e ∧ e.2.Withholds w

theorem withheld_invariant {Inv : List (Nat × Note) → Threads.State Kernel Point → Prop}
    (hstep : ∀ h s i input, Base slots w s → Inv h s → input.Withholds w →
      Inv (h ++ (threads slots).notes s i input) ((threads slots).step s i input))
    {h : List (Nat × Note)} (hbase : Base slots w s) (h0 : Inv h s)
    (hallowed : (threads slots).machine.Throughout (TakenAlone w) s events)
    (hwithheld : ∀ e ∈ events, e.2.Withholds w) :
    Base slots w ((threads slots).machine.run s events) ∧
      Inv (h ++ (threads slots).history s events) ((threads slots).machine.run s events) := by
  have hboth (h : List (Nat × Note)) (s : Threads.State Kernel Point) (i : Nat) (input : Input)
      (hs : Base slots w s ∧ Inv h s)
      (hinput : Withheld w s (i, input)) :
      Base slots w ((threads slots).step s i input) ∧
        Inv (h ++ (threads slots).notes s i input) ((threads slots).step s i input) :=
    ⟨base_step hs.1 hinput.1, hstep h s i input hs.1 hs.2 hinput.2⟩
  have hall : (threads slots).machine.Throughout (Withheld w) s events :=
    hallowed.and (Machine.throughout_of_forall _ (fun e he _ => hwithheld e he) _)
  exact Threads.history_invariant_of hboth ⟨hbase, h0⟩ events hall

/-- **Synchronous cancellation.** In a run in which no worker takes the item while another is in its
handler: when a cancellation of the item that waits has returned, and nobody was offering the item
when it was called or has begun to since, then nobody is in the handler, no slot refers to the item,
and the handler is never called again until somebody offers the item. -/
theorem cancel_sync_quiet (slots w i : Nat) (before after later : List (Nat × Input)) (c : Call)
    (hallowed : (threads slots).machine.Throughout (TakenAlone w) initial
      (before ++ (i, .call c) :: after ++ later))
    (hidle : ((threads slots).machine.run initial before).pc i = .idle) (hc : WaitsFor w before c)
    (hunoffered : Unoffered w ((threads slots).machine.run initial before))
    (hwithheld : ∀ e ∈ after ++ later, e.2.Withholds w) (result : Int)
    (hreturned : (i, .returned result) ∈
      (threads slots).history ((threads slots).machine.run initial before)
        ((i, .call c) :: after)) :
    (∀ j, ¬ (((threads slots).machine.run initial
        (before ++ (i, .call c) :: after)).pc j).Inside w) ∧
      (∀ slot, ¬ (((threads slots).machine.run initial
        (before ++ (i, .call c) :: after)).shared.requests slot).Matches w) ∧
      ∀ j, (j, .started w) ∉ (threads slots).history
        ((threads slots).machine.run initial (before ++ (i, .call c) :: after)) later := by
  obtain ⟨hallowed, hlater⟩ := (Machine.throughout_append _).mp hallowed
  obtain ⟨hbefore, hcall, hafter⟩ := (Machine.throughout_append _).mp hallowed
  rw [Machine.run_append] at hlater ⊢
  have hbase : Base slots w ((threads slots).machine.run initial before) :=
    Threads.run_invariant_of (Base slots w) (fun _ _ _ hs hinput => base_step hs hinput)
      (base_initial slots w) hbefore
  have hsync := sync_of_call hc rfl hidle hunoffered
  have hkept (h : List (Nat × Note)) (s : Threads.State Kernel Point) (j : Nat) (input : Input)
      (hs : Base slots w s) (hinv : Sync w i h s ∨ Quiet w s) (hinput : input.Withholds w) :
      Sync w i (h ++ (threads slots).notes s j input) ((threads slots).step s j input) ∨
        Quiet w ((threads slots).step s j input) :=
    hinv.elim (fun h => sync_step hs h hinput) fun h => .inr (quiet_step hs h hinput)
  obtain ⟨hbase', hsync | hquiet⟩ := withheld_invariant hkept (base_step hbase hcall) (.inl hsync)
    hafter fun e he => hwithheld e (mem_append_left _ he)
  · exact absurd hreturned (hsync.waits result)
  · refine ⟨hquiet.outside hbase'.ran, fun slot h => hquiet.unslotted slot h.2, fun j => ?_⟩
    have hnever (h : List (Nat × Note)) (s : Threads.State Kernel Point) (j : Nat) (input : Input)
        (hs : Base slots w s) (hinv : Quiet w s ∧ ∀ i, (i, .started w) ∉ h)
        (hinput : input.Withholds w) : Quiet w ((threads slots).step s j input) ∧
          ∀ i, (i, .started w) ∉ h ++ (threads slots).notes s j input := by
      refine ⟨quiet_step hs hinv.1 hinput, fun i hmem => ?_⟩
      rcases mem_append.mp hmem with hmem | hmem
      · exact hinv.2 i hmem
      · cases notes_step slots _ _ _ (Threads.mem_notes.mp hmem).2 with
        | started q _ hpc => exact hinv.1.outside hs.ran j (by rw [hpc]; rfl)
    have hrest := withheld_invariant (h := []) hnever hbase' ⟨hquiet, fun _ => not_mem_nil⟩
      hlater fun e he => hwithheld e (mem_append_right _ he)
    exact hrest.2.2 j

def scheduleOne : List (Nat × Input) :=
  [(0, .call (.schedule 0 0 5 false)), (0, .go true 0), (0, .go true 0), (0, .go true 0),
    (0, .go true 0)]

/-- Its timer thread wakes up and leaves, and the cancellation returns. -/
def drainOne : List (Nat × Input) :=
  [(0, .go true 0), (0, .go true 0), (2, .go true 0), (2, .go true 0), (2, .go true 0),
    (0, .go true 0), (0, .go true 0), (0, .go true 0)]

theorem unoffered_of_given (given : List Nat) (h : ∀ e ∈ events, e.1 ∈ given)
    (hnone : ∀ j ∈ given, (((threads slots).machine.run initial events).pc j).task = none) :
    Unoffered w ((threads slots).machine.run initial events) := by
  have htask (task : Task) : NoTask ((threads slots).machine.run initial events) task := by
    intro j
    by_cases hj : j ∈ given
    · rw [hnone j hj]
      exact nofun
    · have hother (e : Nat × Input) (he : e ∈ events) : e.1 ≠ j := by
        rintro rfl
        exact hj (h e he)
      rw [Threads.run_pc_of_ne hother]
      exact noTask_initial task j
  exact ⟨htask _, htask _⟩

theorem takenAlone_of_role (h : ∀ e ∈ events, e.1 = 0 ∨ e.1 = 2) :
    (threads slots).machine.Throughout (TakenAlone w) initial events := by
  have hall : (threads slots).machine.Throughout (fun _ e => e.1 = 0 ∨ e.1 = 2) initial events :=
    Machine.throughout_of_forall _ (fun e he _ => h e he) _
  refine Machine.throughout_of_invariant _ (fun s e hroles he => ?_) roles_initial hall
  refine ⟨fun _ q hpc => ?_, roles_step hroles e.1 e.2⟩
  have hrole := hroles e.1
  rw [hpc] at hrole
  rcases he with he | he <;> rw [he] at hrole <;> cases hrole

theorem cancel_sync_quiet_one : (1, .started 0) ∉ (threads 1).history
    ((threads 1).machine.run initial
      (scheduleOne ++ (0, .call (.cancelDelayableSync 0)) :: drainOne))
    [(0, .go true 0)] := by
  refine (cancel_sync_quiet 1 0 0 scheduleOne drainOne [(0, .go true 0)] (.cancelDelayableSync 0)
    ?_ rfl (.inl rfl) ?_ (by decide) 0 (by decide)).2.2 1
  · exact takenAlone_of_role (by decide)
  · exact unoffered_of_given [0] (by decide) (by decide)

/-- An item is submitted to a second queue while the worker of the first is in its handler. -/
def submitTwice : List (Nat × Input) :=
  [(0, .call (.submit 0 0)), (0, .go true 0), (0, .go true 0),
    (1, .go true 0), (1, .go true 0), (1, .go true 0),
    (0, .call (.submit 1 0)), (0, .go true 0), (0, .go true 0),
    (4, .go true 0), (4, .go true 0), (4, .go true 0),
    (1, .go true 0), (1, .go true 0)]

/-- The first worker clears the flag, and the cancellation returns with the second in the
handler. -/
theorem cancel_sync_returns_too_early :
    ∃ before after : List (Nat × Input),
      ((threads 1).machine.run initial before).pc 0 = .idle ∧
        WaitsFor 0 before (.cancelSync 0) ∧
        Unoffered 0 ((threads 1).machine.run initial before) ∧
        (∀ e ∈ after, e.2.Withholds 0) ∧
        (0, .returned 0) ∈ (threads 1).history ((threads 1).machine.run initial before)
          ((0, .call (.cancelSync 0)) :: after) ∧
        ((threads 1).machine.run initial (before ++ (0, .call (.cancelSync 0)) :: after)).pc 4 =
          .handling 1 0 := by
  refine ⟨submitTwice, [(0, .go true 0), (0, .go true 0)], rfl, .inr ⟨rfl, by decide⟩, ?_,
    by decide, by decide, by decide⟩
  exact unoffered_of_given [0, 1, 4] (by decide) (by decide)

end Brickwright.Bluetooth.WorkQueue
