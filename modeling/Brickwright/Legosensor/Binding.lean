import Brickwright.Legosensor.Basic

/-!
# Which port a class is bound to

A binding is one field, so a class has one port at most. That a port has one class at most rests on
the order of its own reports: it is bound between a sync and the error behind it, and the error
releases it (`Tidy`). A port gains a class only in the place of nobody or of a port with a higher
number (`lowestFirst`).
-/

namespace Brickwright.Legosensor

/-! ## What a section does to the bindings -/

section Sections

variable {s : Shared} {p : Nat} {stage : Stage} {input : Input}

/-- **What a section of a port can do to the bindings**: nothing, bind the port in the place of
nobody or of a port with a higher number, or release it. -/
theorem portBody_cls :
    ((portBody s p stage input).1.cls = s.cls ∧
      ∀ c q n, Note.binds c q n ∉ (portBody s p stage input).2.1) ∨
    (∃ c, stage = .binding c ∧ (∀ q, (s.cls c).boundPort = some q → p < q) ∧
      (portBody s p stage input).1 = s.setCls c ((s.cls c).rebind (some p)) ∧
      (portBody s p stage input).2.1 = [.binds c p ((s.cls c).changes + 1)]) ∨
    ∃ c, stage = .idle ∧ (s.cls c).boundPort = some p ∧
      (portBody s p stage input).1 = s.setCls c ((s.cls c).rebind none) ∧
      (portBody s p stage input).2.1 = [] := by
  fun_cases portBody s p stage input with
  | case3 c _ _ _ cs h =>
    obtain ⟨hnone, rfl⟩ := ClassState.tryBind_fresh h
    exact .inr (.inl ⟨c, rfl, fun q hq => absurd (hnone.symm.trans hq) nofun, rfl, rfl⟩)
  | case4 c _ _ _ cs displaced h =>
    obtain ⟨hbound, hlt, rfl⟩ := ClassState.tryBind_displaced h
    refine .inr (.inl ⟨c, rfl, fun q hq => ?_, rfl, rfl⟩)
    rw [hbound] at hq
    cases hq
    exact hlt
  | case17 s' lost h =>
    rcases Shared.unbind_cases h with ⟨-, rfl, -⟩ | ⟨c, rfl, hbound, rfl⟩
    · exact .inl ⟨rfl, fun _ _ _ => List.not_mem_nil⟩
    · exact .inr (.inr ⟨c, rfl, hbound, rfl, rfl⟩)
  | _ => exact .inl ⟨rfl, by simp⟩

theorem userBody_binding (use : Use) (c : Class) :
    ((userBody s use input).1.cls c).binding = (s.cls c).binding := by
  have hset : ∀ {c' : Class} {cs : ClassState}, cs.binding = (s.cls c').binding →
      ((s.setCls c' cs).cls c).binding = (s.cls c).binding :=
    fun h => s.setCls_cases (P := fun cs cs' => cs'.binding = cs.binding) h (fun _ => rfl) c
  fun_cases userBody s use input with
  | case1 c' filep cs rc h =>
    have hclaim := (s.cls c').binding_claim filep
    rw [h] at hclaim
    exact hset hclaim
  | case2 c' filep cs rc h =>
    have hrelease := (s.cls c').binding_release filep
    rw [h] at hrelease
    exact hset hrelease
  | case3 c' filep => exact hset (ClassState.binding_close _ filep)
  | _ => rfl

end Sections

/-! ## One class to a port -/

/-- A port is bound to one class at most. -/
def OneClass (s : Shared) : Prop :=
  ∀ c c' p, (s.cls c).boundPort = some p → (s.cls c').boundPort = some p → c = c'

/-- After a section, no port with a lower number than the bound one was bound to the class
before. -/
def LowestFirst (s : Threads.State Shared Point) (e : Nat × Input) : Prop :=
  ∀ c p, ((threads.step s e.1 e.2).shared.cls c).boundPort = some p →
    ∀ q < p, (s.shared.cls c).boundPort ≠ some q

/-- The port has been released, or is about to be bound. -/
def Stage.loose : Stage → Bool
  | .binding _ | .resetting _ => true
  | _ => false

section Loose

variable {s : Shared} {p : Nat} {stage : Stage} {input : Input}

theorem engaged_setPort {q : Nat} {ps : PortState}
    (h : ps.engaged = (s.ports q).engaged) (r : Nat) :
    ((s.setPort q ps).ports r).engaged = (s.ports r).engaged := by
  by_cases hr : r = q
  · subst hr
    rw [Shared.setPort_self, h]
  · rw [Shared.setPort_of_ne s hr]

theorem engaged_of_ne {q : Nat} (h : q ≠ p) :
    ((portBody s p stage input).1.ports q).engaged = (s.ports q).engaged := by
  have hset : ∀ ps, ((s.setPort p ps).ports q).engaged = (s.ports q).engaged :=
    fun ps => congrArg PortState.engaged (s.setPort_of_ne h ps)
  fun_cases portBody s p stage input with
  | case2 | case12 | case15 | case18 => exact hset _
  | case6 _ _ displaced _ _ _ ps disc hdisc =>
    have hsame := (s.ports displaced).engaged_disconnect displaced
    rw [hdisc] at hsame
    exact engaged_setPort hsame q
  | case17 s' lost h =>
    rcases Shared.unbind_cases h with ⟨-, rfl, -⟩ | ⟨c, -, -, rfl⟩ <;> rfl
  | _ => rfl

/-- Where a thread stands, and what has been reported of its port, tells whether it can be bound. -/
structure Loose (s : Shared) (p : Nat) (stage : Stage) : Prop where
  unbound : stage.loose = true ∨ (s.ports p).engaged = false → ∀ c, (s.cls c).boundPort ≠ some p
  engaged : ∀ c, stage = .binding c → (s.ports p).engaged = true

theorem Loose.step (h : Loose s p stage) (input : Input) (hone : OneClass s) :
    Loose (portBody s p stage input).1 p (portBody s p stage input).2.2 := by
  -- most sections leave the bindings and the reports alone, and the thread at a point like before
  have hkeep : ∀ {s' : Shared} {stage' : Stage}, s'.cls = s.cls →
      (s'.ports p).engaged = (s.ports p).engaged → stage'.loose = false → Loose s' p stage' := by
    intro s' stage' hcls hengaged hloose
    constructor
    · rintro (hl | he)
      · exact absurd (hloose.symm.trans hl) Bool.false_ne_true
      · rw [hcls]
        exact h.unbound (.inr (hengaged ▸ he))
    · rintro c rfl
      cases hloose
  fun_cases portBody s p stage input with
  | case1 => exact h
  | case2 info hfree =>
    refine ⟨fun _ => h.unbound (.inr (by simpa using hfree)), fun c _ => ?_⟩
    exact congrArg PortState.engaged (s.setPort_self p _)
  | case3 c _ _ _ cs hbind =>
    refine ⟨?_, nofun⟩
    rintro (hl | he)
    · cases hl
    · exact absurd (h.engaged c rfl) (by simpa using he)
  | case4 c _ _ _ cs displaced hbind =>
    refine ⟨?_, nofun⟩
    rintro (hl | he)
    · cases hl
    · exact absurd (h.engaged c rfl) (by simpa using he)
  | case5 | case7 | case8 | case9 | case11 | case14 | case16 | case19 => exact hkeep rfl rfl rfl
  | case6 _ _ displaced _ _ _ ps disc hdisc =>
    have hsame := (s.ports displaced).engaged_disconnect displaced
    rw [hdisc] at hsame
    exact hkeep rfl (engaged_setPort hsame p) rfl
  | case10 mode len => exact hkeep rfl rfl (by split <;> rfl)
  | case12 mode len _ _ info ps sentinel hhydrate =>
    have hsame := (s.ports p).engaged_hydrate p info
    rw [hhydrate] at hsame
    exact hkeep rfl (engaged_setPort hsame p) rfl
  | case13 mode len sentinel =>
    refine hkeep rfl rfl ?_
    split
    · rfl
    · split <;> rfl
  | case15 c n mode len _ late _ ps sample hsample =>
    have hsame := (s.ports p).engaged_sample p mode len late
    rw [hsample] at hsame
    exact hkeep rfl (engaged_setPort hsame p) rfl
  | case17 s' lost hunbind =>
    refine ⟨fun _ => ?_, nofun⟩
    rcases Shared.unbind_cases hunbind with ⟨-, rfl, hnone⟩ | ⟨c, -, hbound, rfl⟩
    · exact hnone
    · -- the port was bound to this class only
      intro c' hc'
      by_cases hcc : c' = c
      · subst hcc
        rw [Shared.setCls_self] at hc'
        cases hc'
      · rw [Shared.setCls_of_ne s hcc] at hc'
        exact hcc (hone c' c p hc' hbound)
  | case18 lost =>
    refine ⟨fun _ => h.unbound (.inl rfl), fun c hc => ?_⟩
    split at hc <;> cases hc
  | case20 => exact h

theorem engaged_of_user (use : Use) (q : Nat) :
    ((userBody s use input).1.ports q).engaged = (s.ports q).engaged := by
  fun_cases userBody s use input with
  | case9 | case13 =>
    refine engaged_setPort ?_ q
    rfl
  | _ => rfl

theorem Loose.mono {s' : Shared} {q : Nat} (h : Loose s q stage)
    (hcls : ∀ c, (s'.cls c).boundPort = some q → (s.cls c).boundPort = some q)
    (hengaged : (s'.ports q).engaged = (s.ports q).engaged) : Loose s' q stage where
  unbound hor c hc := h.unbound (hengaged ▸ hor) c (hcls c hc)
  engaged c hc := hengaged.trans (h.engaged c hc)

theorem bound_of_ne {c : Class} {q : Nat} (h : q ≠ p)
    (hq : ((portBody s p stage input).1.cls c).boundPort = some q) :
    (s.cls c).boundPort = some q := by
  have hset : ∀ {c' : Class} (port : Option Nat), port ≠ some q →
      ((s.setCls c' ((s.cls c').rebind port)).cls c).boundPort = some q →
      (s.cls c).boundPort = some q := by
    intro c' port hport hc
    by_cases hcc : c = c'
    · subst hcc
      rw [Shared.setCls_self] at hc
      exact absurd hc hport
    · rwa [Shared.setCls_of_ne s hcc] at hc
  rcases @portBody_cls s p stage input with
    ⟨hsame, -⟩ | ⟨c', -, -, hbind, -⟩ | ⟨c', -, -, hunbind, -⟩
  · rwa [hsame] at hq
  · rw [hbind] at hq
    exact hset (some p) (fun heq => h (Option.some.inj heq).symm) hq
  · rw [hunbind] at hq
    exact hset none (Option.some_ne_none q).symm hq

theorem lowest_of_bound {c : Class} {r : Nat}
    (hr : ((portBody s p stage input).1.cls c).boundPort = some r) {q : Nat} (hq : q < r) :
    (s.cls c).boundPort ≠ some q := by
  intro hbound
  by_cases hrp : r = p
  · subst hrp
    rcases @portBody_cls s r stage input with
      ⟨hsame, -⟩ | ⟨c', -, hlow, hbind, -⟩ | ⟨c', -, hown, hunbind, -⟩
    · rw [hsame, hbound] at hr
      exact absurd (Option.some.inj hr) (Nat.ne_of_lt hq)
    · by_cases hcc : c = c'
      · subst hcc
        exact absurd (hlow q hbound) (Nat.lt_asymm hq)
      · rw [hbind, Shared.setCls_of_ne s hcc, hbound] at hr
        exact absurd (Option.some.inj hr) (Nat.ne_of_lt hq)
    · by_cases hcc : c = c'
      · subst hcc
        rw [hunbind, Shared.setCls_self] at hr
        cases hr
      · rw [hunbind, Shared.setCls_of_ne s hcc, hbound] at hr
        exact absurd (Option.some.inj hr) (Nat.ne_of_lt hq)
  · have hbefore := bound_of_ne hrp hr
    rw [hbound] at hbefore
    exact absurd (Option.some.inj hbefore) (Nat.ne_of_lt hq)

theorem oneClass_port (hone : OneClass s) (h : Loose s p stage) :
    OneClass (portBody s p stage input).1 := by
  intro c c' q hc hc'
  by_cases hqp : q = p
  · subst hqp
    rcases @portBody_cls s q stage input with
      ⟨hsame, -⟩ | ⟨d, rfl, -, hbind, -⟩ | ⟨d, -, hown, hunbind, -⟩
    · rw [hsame] at hc hc'
      exact hone c c' q hc hc'
    · -- it was bound to no class before
      have hfree := h.unbound (.inl rfl)
      have honly : ∀ {c}, ((s.setCls d ((s.cls d).rebind (some q))).cls c).boundPort = some q →
          c = d := by
        intro c hc
        by_contra hcd
        rw [Shared.setCls_of_ne s hcd] at hc
        exact hfree c hc
      rw [hbind] at hc hc'
      exact (honly hc).trans (honly hc').symm
    · have hnone : ∀ {c}, ((s.setCls d ((s.cls d).rebind none)).cls c).boundPort ≠ some q := by
        intro c hc
        by_cases hcd : c = d
        · subst hcd
          rw [Shared.setCls_self] at hc
          cases hc
        · rw [Shared.setCls_of_ne s hcd] at hc
          exact hcd (hone c d q hc hown)
      rw [hunbind] at hc
      exact absurd hc hnone
  · exact hone c c' q (bound_of_ne hqp hc) (bound_of_ne hqp hc')

end Loose

/-! ## Whole steps -/

structure Tidy (s : Threads.State Shared Point) : Prop where
  /-- A port is reported on by its own thread. -/
  own : ∀ i p stage, s.pc i = .port p stage → i = p ∧ i < numPorts
  one : OneClass s.shared
  loose : ∀ p stage, s.pc p = .port p stage → Loose s.shared p stage

section Steps

variable {s : Threads.State Shared Point} {i : Nat} {input : Input}

theorem step_port {p : Nat} {stage : Stage} (h : s.pc i = .port p stage) :
    threads.step s i input =
        ⟨(portBody s.shared p stage input).1,
          Function.update s.pc i (.port p (portBody s.shared p stage input).2.2)⟩ ∧
      threads.notes s i input = (portBody s.shared p stage input).2.1.map (Prod.mk i) := by
  rw [Threads.step, Threads.notes, h]
  exact ⟨rfl, rfl⟩

theorem step_user {use : Use} (h : s.pc i = .user use) :
    threads.step s i input =
        ⟨(userBody s.shared use input).1,
          Function.update s.pc i (.user (userBody s.shared use input).2.2)⟩ ∧
      threads.notes s i input = (userBody s.shared use input).2.1.map (Prod.mk i) := by
  rw [Threads.step, Threads.notes, h]
  exact ⟨rfl, rfl⟩

/-- **One section** keeps the ports tidy. -/
theorem Tidy.step (h : Tidy s) (i : Nat) (input : Input) : Tidy (threads.step s i input) := by
  cases hpc : s.pc i with
  | port p stage =>
    obtain ⟨rfl, hi⟩ := h.own i p stage hpc
    have hloose := h.loose i stage hpc
    obtain ⟨hstep, -⟩ := (@step_port _ _ input) hpc
    rw [hstep]
    refine ⟨fun j q stage' hj => ?_, oneClass_port h.one hloose, fun q stage' hq => ?_⟩
    · dsimp only at hj
      by_cases hji : j = i
      · subst hji
        rw [Function.update_self] at hj
        cases hj
        exact ⟨rfl, hi⟩
      · rw [Function.update_of_ne hji] at hj
        exact h.own j q stage' hj
    · dsimp only at hq
      by_cases hqi : q = i
      · subst hqi
        rw [Function.update_self] at hq
        cases hq
        exact hloose.step input h.one
      · rw [Function.update_of_ne hqi] at hq
        exact (h.loose q stage' hq).mono (fun c => bound_of_ne hqi) (engaged_of_ne hqi)
  | user use =>
    obtain ⟨hstep, -⟩ := (@step_user _ _ input) hpc
    rw [hstep]
    have hbound : ∀ c, ((userBody s.shared use input).1.cls c).boundPort =
        (s.shared.cls c).boundPort := fun c => congrArg Prod.fst (userBody_binding use c)
    refine ⟨fun j q stage' hj => ?_, fun c c' q hc hc' => ?_, fun q stage' hq => ?_⟩
    · dsimp only at hj
      by_cases hji : j = i
      · subst hji
        rw [Function.update_self] at hj
        cases hj
      · rw [Function.update_of_ne hji] at hj
        exact h.own j q stage' hj
    · rw [hbound] at hc hc'
      exact h.one c c' q hc hc'
    · dsimp only at hq
      by_cases hqi : q = i
      · subst hqi
        rw [Function.update_self] at hq
        cases hq
      · rw [Function.update_of_ne hqi] at hq
        exact (h.loose q stage' hq).mono (fun c hc => hbound c ▸ hc) (engaged_of_user use q)

theorem lowestFirst (s : Threads.State Shared Point) (e : Nat × Input) : LowestFirst s e := by
  obtain ⟨i, input⟩ := e
  intro c r hr q hq
  cases hpc : s.pc i with
  | port p stage =>
    rw [(step_port hpc).1] at hr
    exact lowest_of_bound hr hq
  | user use =>
    rw [(step_user hpc).1] at hr
    have hbound := congrArg Prod.fst ((@userBody_binding s.shared input) use c)
    intro hbefore
    rw [show ((userBody s.shared use input).1.cls c).boundPort = (s.shared.cls c).boundPort from
      hbound, hbefore] at hr
    exact absurd (Option.some.inj hr) (Nat.ne_of_lt hq)

theorem tidy_boot : Tidy boot where
  own i p stage h := by
    rw [boot] at h
    dsimp only at h
    split at h
    · next hi =>
      cases h
      exact ⟨rfl, hi⟩
    · cases h
  one c c' p h := by cases h
  loose p stage h := by
    rw [boot] at h
    dsimp only at h
    split at h
    · cases h
      exact ⟨fun _ _ => (Option.some_ne_none p).symm, nofun⟩
    · cases h

end Steps

end Brickwright.Legosensor
