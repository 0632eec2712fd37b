import Brickwright.Bluetooth.Work.Flags

/-!
# The request slots

A slot in use belongs to the caller that fills it until its timer thread is created, and to the
timer thread from then on (`Slots`). `slotted_step` says what a section can do to the slots.
-/

namespace Brickwright.Bluetooth.WorkQueue

variable {slots : Nat} {k k' : Kernel} {pc pc' : Point} {input : Input}

def Point.Owns (pc : Point) (slot : Nat) : Prop :=
  match pc with
  | .filling slot' _ _ _ => slot' = slot
  | .creating slot' _ _ => slot' = slot
  | .undoing slot' _ _ => slot' = slot
  | _ => False

/-- The timer thread of the slot is there. -/
def Point.Serves (pc : Point) (slot : Nat) : Prop :=
  match pc with
  | .sleeping slot' => slot' = slot
  | .checking slot' => slot' = slot
  | .submitting (.timer slot') _ _ => slot' = slot
  | .putting (.timer slot') _ _ => slot' = slot
  | .releasing slot' => slot' = slot
  | _ => False

/-- The timer thread of the slot is to queue the item. -/
def Point.Brings (pc : Point) (slot w : Nat) : Prop :=
  match pc with
  | .submitting (.timer slot') _ w' => slot' = slot ∧ w' = w
  | _ => False

inductive Slotted (slots : Nat) (k : Kernel) (pc : Point) (k' : Kernel) (pc' : Point) : Prop
  | stays
      (hrequests : ∀ slot, k'.requests slot = k.requests slot ∨
        k'.requests slot = { k.requests slot with canceled := true })
      (howns : ∀ slot, pc'.Owns slot → pc.Owns slot)
      (hserves : ∀ slot, pc'.Serves slot →
        pc.Serves slot ∨ pc = .dormant slot ∧ (k.requests slot).created = true)
      (hbrings : ∀ slot w, pc'.Brings slot w →
        pc.Brings slot w ∨ (k.requests slot).work = some w)
  | allocates (slot q w : Nat) (generation : UInt32) (hpc : pc = .allocating q w generation)
      (hpc' : pc' = .filling slot q w generation) (hslot : slot < slots)
      (hfree : (k.requests slot).inUse = false)
      (hkernel : k' = k.setRequest slot { k.requests slot with inUse := true })
  | fills (slot q w : Nat) (generation : UInt32) (hpc : pc = .filling slot q w generation)
      (hpc' : pc' = .creating slot w generation)
      (hkernel : k' = k.setRequest slot
        { k.requests slot with work := some w, queue := q, generation := generation })
  | creates (slot w : Nat) (generation : UInt32) (hpc : pc = .creating slot w generation)
      (hpc' : pc' = .idle)
      (hkernel : k' = k.setRequest slot { k.requests slot with created := true })
  | undoes (slot w : Nat) (generation : UInt32) (hpc : pc = .undoing slot w generation)
      (hpc' : pc' = .failing w generation) (hkernel : k' = k.setRequest slot .zero)
  | releases (slot : Nat) (hpc : pc = .releasing slot) (hpc' : pc' = .dormant slot)
      (hkernel : k' = k.setRequest slot .zero)

/-- A section that leaves the slots alone, of a thread that has none and gets none. -/
theorem slotted_of_same (hrequests : k'.requests = k.requests) (howns : ∀ slot, ¬ pc'.Owns slot)
    (hserves : ∀ slot, ¬ pc'.Serves slot) (hbrings : ∀ slot w, ¬ pc'.Brings slot w) :
    Slotted slots k pc k' pc' :=
  .stays (fun slot => .inl (congrFun hrequests slot)) (fun slot h => absurd h (howns slot))
    (fun slot h => absurd h (hserves slot)) fun slot w h => absurd h (hbrings slot w)

theorem slotted_of_serves (hrequests : k'.requests = k.requests) (howns : ∀ slot, ¬ pc'.Owns slot)
    (hserves : ∀ slot, pc'.Serves slot → pc.Serves slot)
    (hbrings : ∀ slot w, pc'.Brings slot w → pc.Brings slot w ∨ (k.requests slot).work = some w) :
    Slotted slots k pc k' pc' :=
  .stays (fun slot => .inl (congrFun hrequests slot)) (fun slot h => absurd h (howns slot))
    (fun slot h => .inl (hserves slot h)) hbrings

theorem slotted_submitReturns {s : Submitter} {notes : List Note} {result : Int}
    (hserves : ∀ slot, s = .timer slot → pc.Serves slot) (hrequests : k'.requests = k.requests) :
    Slotted slots k pc (submitReturns k' notes result s).1
      (submitReturns k' notes result s).2.2 := by
  cases s with
  | timer slot =>
    refine slotted_of_serves hrequests (fun _ => id) (fun slot' h => ?_) fun _ _ => False.elim
    cases h
    exact hserves slot rfl
  | _ => exact slotted_of_same hrequests (fun _ => id) (fun _ => id) fun _ _ => id

theorem slotted_markCanceled {w : Nat} (howns : ∀ slot, ¬ pc'.Owns slot)
    (hserves : ∀ slot, ¬ pc'.Serves slot) (hbrings : ∀ slot w, ¬ pc'.Brings slot w) :
    Slotted slots k pc (k.markCanceled w) pc' := by
  refine .stays (fun slot => ?_) (fun slot h => absurd h (howns slot))
    (fun slot h => absurd h (hserves slot)) fun slot w h => absurd h (hbrings slot w)
  rw [Kernel.markCanceled]
  dsimp only
  split
  · exact .inr rfl
  · exact .inl rfl

/-- **The step lemma for the slots.** -/
theorem slotted_step (slots : Nat) (k : Kernel) (pc : Point) (input : Input) :
    Slotted slots k pc (body slots k pc input).1 (body slots k pc input).2.2 := by
  have hact := body_act slots k pc input
  generalize body slots k pc input = r at hact ⊢
  cases hact with
  | stays => exact .stays (fun _ => .inl rfl) (fun _ => id) (fun _ => .inl) fun _ _ => .inl
  | calls c => cases c <;> exact slotted_of_same rfl (fun _ => id) (fun _ => id) fun _ _ => id
  | passes h =>
    cases h with
    | uncreated =>
      exact .stays (fun _ => .inl rfl) (fun _ => id) (fun _ => False.elim) fun _ _ => False.elim
    | canceled | outdated =>
      exact slotted_of_serves rfl (fun _ => id) (fun _ => id) fun _ _ => False.elim
    | _ => exact slotted_of_same rfl (fun _ => id) (fun _ => id) fun _ _ => id
  | marks h => cases h <;> exact slotted_markCanceled (fun _ => id) (fun _ => id) fun _ _ => id
  | queued s =>
    refine slotted_submitReturns (fun slot hs => ?_) rfl
    subst hs
    rfl
  | puts s =>
    refine slotted_submitReturns (fun slot hs => ?_) rfl
    subst hs
    rfl
  | submits s =>
    cases s with
    | timer slot => exact slotted_of_serves rfl (fun _ => id) (fun _ => id) fun _ _ => False.elim
    | _ => exact slotted_of_same rfl (fun _ => id) (fun _ => id) fun _ _ => id
  | schedules =>
    split <;> exact slotted_of_same rfl (fun _ => id) (fun _ => id) fun _ _ => id
  | allocates slot q w generation hslot hfree =>
    exact .allocates slot q w generation rfl rfl hslot hfree rfl
  | fills slot q w generation => exact .fills slot q w generation rfl rfl rfl
  | creates slot w generation => exact .creates slot w generation rfl rfl rfl
  | undoes slot w generation => exact .undoes slot w generation rfl rfl rfl
  | cancels c => cases c <;> exact slotted_of_same rfl (fun _ => id) (fun _ => id) fun _ _ => id
  | wakes slot hcreated =>
    refine .stays (fun _ => .inl rfl) (fun _ => False.elim) (fun slot' h => ?_)
      fun _ _ => False.elim
    cases h
    exact .inr ⟨rfl, hcreated⟩
  | expires => exact slotted_of_serves rfl (fun _ => id) (fun _ => id) fun _ _ => False.elim
  | compares slot w hwork =>
    refine slotted_of_serves rfl (fun _ => id) (fun _ => id) fun slot' w' h => .inr ?_
    obtain ⟨rfl, rfl⟩ := h
    exact hwork
  | releases slot => exact .releases slot rfl rfl rfl
  | _ => exact slotted_of_same rfl (fun _ => id) (fun _ => id) fun _ _ => id

/-! ## Whose a slot is -/

structure Slots (slots : Nat) (s : Threads.State Kernel Point) : Prop where
  small : ∀ slot, (s.shared.requests slot).inUse = true → slot < slots
  free : ∀ slot, (s.shared.requests slot).inUse = false →
    (s.shared.requests slot).work = none ∧ (s.shared.requests slot).created = false
  owns : ∀ i slot, (s.pc i).Owns slot →
    (s.shared.requests slot).inUse = true ∧ (s.shared.requests slot).created = false
  owner : ∀ i j slot, (s.pc i).Owns slot → (s.pc j).Owns slot → i = j
  serves : ∀ i slot, (s.pc i).Serves slot → (s.shared.requests slot).created = true
  brings : ∀ i slot w, (s.pc i).Brings slot w → (s.shared.requests slot).work = some w

variable {s : Threads.State Kernel Point} {i : Nat}

theorem slots_initial (slots : Nat) : Slots slots initial := by
  have hpoint (i slot w : Nat) :
      ¬ (initial.pc i).Owns slot ∧ ¬ (initial.pc i).Serves slot ∧
        ¬ (initial.pc i).Brings slot w := by
    rw [initial]
    dsimp only
    repeat' split
    all_goals exact ⟨id, id, id⟩
  exact {
    small := by rintro _ ⟨⟩
    free := fun _ _ => ⟨rfl, rfl⟩
    owns := fun i slot h => absurd h (hpoint i slot 0).1
    owner := fun i _ slot h => absurd h (hpoint i slot 0).1
    serves := fun i slot h => absurd h (hpoint i slot 0).2.1
    brings := fun i slot w h => absurd h (hpoint i slot w).2.2 }

theorem Point.Brings.serves {slot w : Nat} (h : pc.Brings slot w) : pc.Serves slot := by
  cases pc with
  | submitting who =>
    cases who with
    | timer => exact h.1
    | _ => exact absurd h id
  | _ => exact absurd h id

theorem Point.Serves.role {slot : Nat} (h : pc.Serves slot) : pc.role = .timer slot := by
  cases pc with
  | submitting who =>
    cases who with
    | timer => exact congrArg Role.timer h
    | _ => exact absurd h id
  | putting who =>
    cases who with
    | timer => exact congrArg Role.timer h
    | _ => exact absurd h id
  | sleeping => exact congrArg Role.timer h
  | checking => exact congrArg Role.timer h
  | releasing => exact congrArg Role.timer h
  | _ => exact absurd h id

/-- A section that writes one slot alone, with no other thread on it. -/
theorem slots_of_alone (h : Slots slots s) {slot : Nat} {r : Request}
    (hrequests : ((threads slots).step s i input).shared.requests =
      Function.update s.shared.requests slot r)
    (hothers : ∀ j ≠ i, ¬ (s.pc j).Owns slot ∧ ¬ (s.pc j).Serves slot)
    (hsmall : r.inUse = true → slot < slots)
    (hfree : r.inUse = false → r.work = none ∧ r.created = false)
    (howns : ∀ slot', (((threads slots).step s i input).pc i).Owns slot' →
      slot' = slot ∧ r.inUse = true ∧ r.created = false)
    (hserves : ∀ slot', ¬ (((threads slots).step s i input).pc i).Serves slot') :
    Slots slots ((threads slots).step s i input) := by
  have hself : ((threads slots).step s i input).shared.requests slot = r := by
    rw [hrequests, Function.update_self]
  have hother (slot' : Nat) (hne : slot' ≠ slot) :
      ((threads slots).step s i input).shared.requests slot' = s.shared.requests slot' := by
    rw [hrequests, Function.update_of_ne hne]
  have hpc (j : Nat) (hj : j ≠ i) : ((threads slots).step s i input).pc j = s.pc j :=
    Threads.step_pc_of_ne hj input
  constructor
  case small =>
    intro slot'
    by_cases hne : slot' = slot
    · rw [hne, hself]
      exact hsmall
    · rw [hother slot' hne]
      exact h.small slot'
  case free =>
    intro slot'
    by_cases hne : slot' = slot
    · rw [hne, hself]
      exact hfree
    · rw [hother slot' hne]
      exact h.free slot'
  case owns =>
    intro j slot' howner
    by_cases hj : j = i
    · subst hj
      obtain ⟨rfl, hr⟩ := howns slot' howner
      rwa [hself]
    · rw [hpc j hj] at howner
      rw [hother slot' fun heq => (hothers j hj).1 (heq ▸ howner)]
      exact h.owns j slot' howner
  case owner =>
    intro j j' slot' hj hj'
    by_cases hji : j = i
    · subst hji
      by_contra hne
      obtain ⟨rfl, -⟩ := howns slot' hj
      rw [hpc j' (Ne.symm hne)] at hj'
      exact (hothers j' (Ne.symm hne)).1 hj'
    · by_cases hji' : j' = i
      · subst hji'
        obtain ⟨rfl, -⟩ := howns slot' hj'
        rw [hpc j hji] at hj
        exact absurd hj (hothers j hji).1
      · rw [hpc j hji] at hj
        rw [hpc j' hji'] at hj'
        exact h.owner j j' slot' hj hj'
  case serves =>
    intro j slot' hserver
    by_cases hj : j = i
    · subst hj
      exact absurd hserver (hserves slot')
    · rw [hpc j hj] at hserver
      rw [hother slot' fun heq => (hothers j hj).2 (heq ▸ hserver)]
      exact h.serves j slot' hserver
  case brings =>
    intro j slot' w hbrings
    by_cases hj : j = i
    · subst hj
      exact absurd hbrings.serves (hserves slot')
    · rw [hpc j hj] at hbrings
      rw [hother slot' fun heq => (hothers j hj).2 (heq ▸ hbrings.serves)]
      exact h.brings j slot' w hbrings

theorem slots_step (hroles : Roles s) (h : Slots slots s) (i : Nat) (input : Input) :
    Slots slots ((threads slots).step s i input) := by
  have hself : ((threads slots).step s i input).pc i = (body slots s.shared (s.pc i) input).2.2 :=
    Threads.step_pc_self i input
  have hpc (j : Nat) (hj : j ≠ i) : ((threads slots).step s i input).pc j = s.pc j :=
    Threads.step_pc_of_ne hj input
  -- who has the slot, nobody else has
  have howned {slot : Nat} (howns : (s.pc i).Owns slot) (j : Nat) (hj : j ≠ i) :
      ¬ (s.pc j).Owns slot ∧ ¬ (s.pc j).Serves slot := by
    refine ⟨fun hj' => hj (h.owner j i slot hj' howns), fun hj' => ?_⟩
    have hcreated := h.serves j slot hj'
    rw [(h.owns i slot howns).2] at hcreated
    cases hcreated
  have hinUse {slot : Nat} (howns : (s.pc i).Owns slot) : slot < slots :=
    h.small slot (h.owns i slot howns).1
  cases slotted_step slots s.shared (s.pc i) input with
  | stays hrequests howns hserves hbrings =>
    have hsame (slot : Nat) :
        (((threads slots).step s i input).shared.requests slot).inUse =
            (s.shared.requests slot).inUse ∧
          (((threads slots).step s i input).shared.requests slot).work =
            (s.shared.requests slot).work ∧
          (((threads slots).step s i input).shared.requests slot).created =
            (s.shared.requests slot).created := by
      change ((body slots s.shared (s.pc i) input).1.requests slot).inUse = _ ∧
        ((body slots s.shared (s.pc i) input).1.requests slot).work = _ ∧
        ((body slots s.shared (s.pc i) input).1.requests slot).created = _
      rcases hrequests slot with heq | heq <;> rw [heq] <;> exact ⟨rfl, rfl, rfl⟩
    have hown (j slot : Nat) (hj : (((threads slots).step s i input).pc j).Owns slot) :
        (s.pc j).Owns slot := by
      by_cases hji : j = i
      · subst hji
        rw [hself] at hj
        exact howns slot hj
      · rwa [hpc j hji] at hj
    constructor
    case small => exact fun slot hslot => h.small slot ((hsame slot).1.symm.trans hslot)
    case free =>
      intro slot hslot
      rw [(hsame slot).2.1, (hsame slot).2.2]
      exact h.free slot ((hsame slot).1.symm.trans hslot)
    case owns =>
      intro j slot hj
      rw [(hsame slot).1, (hsame slot).2.2]
      exact h.owns j slot (hown j slot hj)
    case owner =>
      exact fun j j' slot hj hj' => h.owner j j' slot (hown j slot hj) (hown j' slot hj')
    case serves =>
      intro j slot hj
      rw [(hsame slot).2.2]
      by_cases hji : j = i
      · subst hji
        rw [hself] at hj
        rcases hserves slot hj with hj | ⟨-, hcreated⟩
        · exact h.serves j slot hj
        · exact hcreated
      · rw [hpc j hji] at hj
        exact h.serves j slot hj
    case brings =>
      intro j slot w hj
      rw [(hsame slot).2.1]
      by_cases hji : j = i
      · subst hji
        rw [hself] at hj
        rcases hbrings slot w hj with hj | hwork
        · exact h.brings j slot w hj
        · exact hwork
      · rw [hpc j hji] at hj
        exact h.brings j slot w hj
  | allocates slot q w generation hpc hpc' hslot hfree hkernel =>
    have hcreated := (h.free slot hfree).2
    refine slots_of_alone h (congrArg Kernel.requests hkernel)
      (fun j _ => ⟨fun hj => ?_, fun hj => ?_⟩)
      (fun _ => hslot) nofun (fun slot' howns => ?_) fun slot' => ?_
    · rw [(h.owns j slot hj).1] at hfree
      cases hfree
    · rw [h.serves j slot hj] at hcreated
      cases hcreated
    · rw [hself, hpc'] at howns
      exact ⟨Eq.symm howns, rfl, hcreated⟩
    · rw [hself, hpc']
      exact id
  | fills slot q w generation hpc hpc' hkernel =>
    have howns : (s.pc i).Owns slot := by rw [hpc]; rfl
    refine slots_of_alone h (congrArg Kernel.requests hkernel) (howned howns)
      (fun _ => hinUse howns) (fun hfree => ?_) (fun slot' howns' => ?_) fun slot' => ?_
    · rw [show (s.shared.requests slot).inUse = true from (h.owns i slot howns).1] at hfree
      cases hfree
    · rw [hself, hpc'] at howns'
      exact ⟨Eq.symm howns', h.owns i slot howns⟩
    · rw [hself, hpc']
      exact id
  | creates slot w generation hpc hpc' hkernel =>
    have howns : (s.pc i).Owns slot := by rw [hpc]; rfl
    refine slots_of_alone h (congrArg Kernel.requests hkernel) (howned howns)
      (fun _ => hinUse howns) (fun hfree => ?_) (fun slot' howns' => ?_) fun slot' => ?_
    · rw [show (s.shared.requests slot).inUse = true from (h.owns i slot howns).1] at hfree
      cases hfree
    · rw [hself, hpc'] at howns'
      exact absurd howns' id
    · rw [hself, hpc']
      exact id
  | undoes slot w generation hpc hpc' hkernel =>
    have howns : (s.pc i).Owns slot := by rw [hpc]; rfl
    refine slots_of_alone h (congrArg Kernel.requests hkernel) (howned howns) nofun
      (fun _ => ⟨rfl, rfl⟩) (fun slot' howns' => ?_) fun slot' => ?_
    · rw [hself, hpc'] at howns'
      exact absurd howns' id
    · rw [hself, hpc']
      exact id
  | releases slot hpc hpc' hkernel =>
    have hserves : (s.pc i).Serves slot := by rw [hpc]; rfl
    refine slots_of_alone h (congrArg Kernel.requests hkernel)
      (fun j hj => ⟨fun hj' => ?_, fun hj' => ?_⟩) nofun (fun _ => ⟨rfl, rfl⟩)
      (fun slot' howns' => ?_) fun slot' => ?_
    · have hcreated := (h.owns j slot hj').2
      rw [h.serves i slot hserves] at hcreated
      cases hcreated
    · have hmine := timer_eq ((hroles i).symm.trans hserves.role)
      have htheirs := timer_eq ((hroles j).symm.trans hj'.role)
      exact hj (htheirs.trans hmine.symm)
    · rw [hself, hpc'] at howns'
      exact absurd howns' id
    · rw [hself, hpc']
      exact id

end Brickwright.Bluetooth.WorkQueue
