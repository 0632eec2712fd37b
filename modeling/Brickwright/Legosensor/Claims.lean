import Brickwright.Bits.Words
import Brickwright.Legosensor.Binding

/-!
# The claims on the classes

A claim is a descriptor and a generation. Nobody clears it when the class is bound anew: it is valid
while its generation is that of the binding, so every rebinding ends it. The check of a write and
the write are two sections, so the port that is written to is the one that was bound at the check.
`claim_exclusive` says when that is the binding that was claimed: exactly when the class has not
been rebound since the check, nor `2 ^ 32` times or more between the claim and the check.
-/

namespace Brickwright.Legosensor

open List

def ClassState.Valid (cs : ClassState) (filep : Nat) : Prop :=
  ∃ port, cs.checkWriteClaim filep = .ok port

variable {cs : ClassState}

theorem ClassState.checkWriteClaim_ok {filep port : Nat} :
    cs.checkWriteClaim filep = .ok port ↔
      cs.boundPort = some port ∧ cs.claimOwner = some filep ∧
        cs.claimBindGen = cs.bindGeneration := by
  unfold checkWriteClaim
  split
  · simp_all
  · split
    · split <;> simp_all
    · simp_all

/-- One descriptor at most has a valid claim on a class. -/
def OneClaim (s : Shared) : Prop :=
  ∀ c f g, (s.cls c).Valid f → (s.cls c).Valid g → f = g

/-- A section that changes a binding ends the claim on it. -/
def ClaimsEnd (s : Threads.State Shared Point) (e : Nat × Input) : Prop :=
  ∀ c f, ((threads.step s e.1 e.2).shared.cls c).binding ≠ (s.shared.cls c).binding →
    (s.shared.cls c).Valid f → ¬((threads.step s e.1 e.2).shared.cls c).Valid f

/-- What a section writes to a port goes to the one that the class is bound to, under the binding
that was claimed. -/
def WritesBound (s : Threads.State Shared Point) (e : Nat × Input) : Prop :=
  ∀ i c f port n command, (i, .acts c f port n command) ∈ threads.notes s e.1 e.2 →
    (s.shared.cls c).boundPort = some port ∧ (s.shared.cls c).changes = n

/-- What is written under a binding comes behind the descriptor's claim of it. -/
def ClaimedFirst (h : List (Nat × Note)) : Prop :=
  ∀ pre i c f port n command post, h = pre ++ (i, .acts c f port n command) :: post →
    ∃ j, (j, .claims c f n) ∈ pre

/-- A port is written to: the class has not been rebound since the check, nor so often between the
claim and the check that its generation came round. -/
def Undisturbed (s : Threads.State Shared Point) (e : Nat × Input) : Prop :=
  match s.pc e.1, e.2 with
  | .user (.acting c _ _ claimed checked _), .go .. =>
    (s.shared.cls c).changes = checked ∧ checked < claimed + 2 ^ 32
  | _, _ => True

/-! ## One class -/

/-- The generations are the numbers of changes, as far as 32 bits go. -/
structure Counted (cs : ClassState) : Prop where
  generation : cs.bindGeneration = UInt32.ofNat cs.changes
  past : ∀ f, cs.claimOwner = some f →
    cs.claimedAt ≤ cs.changes ∧ cs.claimBindGen = UInt32.ofNat cs.claimedAt

def ClassState.own (cs : ClassState) (filep : Nat) : ClassState :=
  { cs with claimOwner := some filep, claimBindGen := cs.bindGeneration, claimedAt := cs.changes }

def ClassState.disown (cs : ClassState) : ClassState :=
  { cs with claimOwner := none, claimBindGen := 0 }

theorem ClassState.claim_cases {cs cs' : ClassState} {filep : Nat} {rc : Int}
    (h : cs.claim filep = (cs', rc)) : (rc ≠ 0 ∧ cs' = cs) ∨ (rc = 0 ∧ cs' = cs.own filep) := by
  unfold claim at h
  split at h
  · cases h
    exact .inl ⟨by decide, rfl⟩
  · split at h
    · next hown =>
      cases h
      refine .inr ⟨rfl, ?_⟩
      rw [own, ← hown.1, ← hown.2]
    · split at h <;> cases h
      · exact .inr ⟨rfl, rfl⟩
      · exact .inl ⟨by decide, rfl⟩

theorem ClassState.release_cases (cs : ClassState) (filep : Nat) :
    (cs.release filep).1 = cs ∨ (cs.release filep).1 = cs.disown := by
  unfold release
  split
  · exact .inl rfl
  · exact .inr rfl

theorem ClassState.close_cases (cs : ClassState) (filep : Nat) :
    cs.close filep = cs ∨ cs.close filep = cs.disown := by
  unfold close
  split
  · exact .inr rfl
  · exact .inl rfl

theorem Counted.own (h : Counted cs) (filep : Nat) : Counted (cs.own filep) :=
  ⟨h.generation, fun _ _ => ⟨Nat.le_refl _, h.generation⟩⟩

theorem Counted.disown (h : Counted cs) : Counted cs.disown :=
  ⟨h.generation, nofun⟩

theorem Counted.rebind (h : Counted cs) (port : Option Nat) :
    Counted (cs.rebind port) where
  generation := by
    show cs.bindGeneration + 1 = UInt32.ofNat (cs.changes + 1)
    rw [h.generation, UInt32.ofNat_add_one]
  past f hf := by
    obtain ⟨hle, hgen⟩ := h.past f hf
    exact ⟨Nat.le_succ_of_le hle, hgen⟩

theorem ClassState.not_valid_rebind {f : Nat} (h : cs.Valid f)
    (port : Option Nat) : ¬(cs.rebind port).Valid f := by
  rintro ⟨p, hp⟩
  obtain ⟨q, hq⟩ := h
  have hbefore := (checkWriteClaim_ok.mp hq).2.2
  have hafter : cs.claimBindGen = cs.bindGeneration + 1 := (checkWriteClaim_ok.mp hp).2.2
  grind

/-! ## What a thread knows of the claim it has checked -/

/-- A class, after the check of a claim on it. -/
structure Checked (h : List (Nat × Note)) (cs : ClassState) (c : Class)
    (f port claimed checked : Nat) : Prop where
  past : checked ≤ cs.changes
  order : claimed ≤ checked
  generation : UInt32.ofNat claimed = UInt32.ofNat checked
  bound : cs.changes = checked → cs.boundPort = some port
  claimed : ∃ j, (j, .claims c f claimed) ∈ h

def Checking (h : List (Nat × Note)) (s : Shared) : Use → Prop
  | .arming c f port claimed checked _ | .acting c f port claimed checked _ =>
    Checked h (s.cls c) c f port claimed checked
  | .ready | .disarming .. => True

/-- The book of a run: its claims, and what its threads have checked. -/
structure Claimed (h : List (Nat × Note)) (s : Threads.State Shared Point) : Prop where
  counted : ∀ c, Counted (s.shared.cls c)
  owned : ∀ c f, (s.shared.cls c).claimOwner = some f →
    ∃ j, (j, .claims c f (s.shared.cls c).claimedAt) ∈ h
  checking : ∀ i use, s.pc i = .user use → Checking h s.shared use

/-- What a section does to the binding of a class: nothing, or one change. -/
def Moved (cs cs' : ClassState) : Prop :=
  cs'.binding = cs.binding ∨ ∃ port, cs' = cs.rebind port

section Sections

variable {h : List (Nat × Note)} {s : Shared} {p : Nat} {stage : Stage} {use : Use} {input : Input}

theorem Counted.checked {c : Class} {f port : Nat} (hcount : Counted (s.cls c))
    (howned : ∃ j, (j, .claims c f (s.cls c).claimedAt) ∈ h)
    (hok : (s.cls c).checkWriteClaim f = .ok port) :
    Checked h (s.cls c) c f port (s.cls c).claimedAt (s.cls c).changes := by
  obtain ⟨hbound, howner, hvalid⟩ := ClassState.checkWriteClaim_ok.mp hok
  obtain ⟨hle, hgen⟩ := hcount.past f howner
  exact {
    past := Nat.le_refl _
    order := hle
    generation := hgen.symm.trans (hvalid.trans hcount.generation)
    bound := fun _ => hbound
    claimed := howned }

theorem Checked.mono {cs cs' : ClassState} {c : Class} {f port claimed checked : Nat}
    (hc : Checked h cs c f port claimed checked) (hm : Moved cs cs') (notes : List (Nat × Note)) :
    Checked (h ++ notes) cs' c f port claimed checked := by
  obtain ⟨j, hj⟩ := hc.claimed
  rcases hm with hsame | ⟨port', rfl⟩
  · have hchanges : cs'.changes = cs.changes := congrArg (·.2.2) hsame
    have hport : cs'.boundPort = cs.boundPort := congrArg Prod.fst hsame
    exact {
      past := hchanges ▸ hc.past
      order := hc.order
      generation := hc.generation
      bound := fun heq => hport.trans (hc.bound (hchanges.symm.trans heq))
      claimed := ⟨j, mem_append_left _ hj⟩ }
  · have hpast := hc.past
    exact {
      past := Nat.le_succ_of_le hpast
      order := hc.order
      generation := hc.generation
      bound := fun heq => absurd heq (by
        show cs.changes + 1 ≠ checked
        omega)
      claimed := ⟨j, mem_append_left _ hj⟩ }

theorem Checking.mono {s' : Shared} (hc : Checking h s use)
    (hm : ∀ c, Moved (s.cls c) (s'.cls c)) (notes : List (Nat × Note)) :
    Checking (h ++ notes) s' use := by
  cases use with
  | ready | disarming => trivial
  | arming c | acting c => exact Checked.mono hc (hm c) notes

theorem portBody_rebinds (c : Class) :
    (portBody s p stage input).1.cls c = s.cls c ∨
      ∃ port, (portBody s p stage input).1.cls c = (s.cls c).rebind port := by
  have hset : ∀ d port, (s.setCls d ((s.cls d).rebind port)).cls c = s.cls c ∨
      ∃ q, (s.setCls d ((s.cls d).rebind port)).cls c = (s.cls c).rebind q :=
    fun d port => @Shared.setCls_cases (fun cs cs' => cs' = cs ∨ ∃ port, cs' = cs.rebind port)
      s d _ (.inr ⟨port, rfl⟩) (fun _ => .inl rfl) c
  rcases @portBody_cls s p stage input with
    ⟨hsame, -⟩ | ⟨d, -, -, hbind, -⟩ | ⟨d, -, -, hunbind, -⟩
  · exact .inl (congrFun hsame c)
  · rw [hbind]
    exact hset d (some p)
  · rw [hunbind]
    exact hset d none

theorem userBody_claims (c : Class) :
    (userBody s use input).1.cls c = s.cls c ∨ (userBody s use input).1.cls c = (s.cls c).disown ∨
      ∃ f, (userBody s use input).1.cls c = (s.cls c).own f ∧
        .claims c f (s.cls c).changes ∈ (userBody s use input).2.1 := by
  have hset : ∀ {d : Class} {cs : ClassState}, cs = s.cls d ∨ cs = (s.cls d).disown →
      (s.setCls d cs).cls c = s.cls c ∨ (s.setCls d cs).cls c = (s.cls c).disown :=
    fun hd => s.setCls_cases (P := fun cs cs' => cs' = cs ∨ cs' = cs.disown) hd
      (fun _ => .inl rfl) c
  fun_cases userBody s use input with
  | case1 d filep cs rc hclaim =>
    rcases ClassState.claim_cases hclaim with ⟨-, rfl⟩ | ⟨rfl, rfl⟩
    · exact (hset (.inl rfl)).imp id .inl
    · by_cases hcd : c = d
      · subst hcd
        exact .inr (.inr ⟨filep, s.setCls_self c _, by simp [ClassState.own]⟩)
      · exact .inl (s.setCls_of_ne hcd _)
  | case2 d filep cs rc hrelease =>
    have hcases := (s.cls d).release_cases filep
    rw [hrelease] at hcases
    exact (hset hcases).imp id .inl
  | case3 d filep => exact (hset ((s.cls d).close_cases filep)).imp id .inl
  | _ => exact .inl rfl

theorem portBody_moved (c : Class) : Moved (s.cls c) ((portBody s p stage input).1.cls c) :=
  (@portBody_rebinds s p stage input c).imp (congrArg ClassState.binding) id

theorem act_of_note {c : Class} {f port n : Nat} {command : Command}
    (hn : .acts c f port n command ∈ (userBody s use input).2.1) :
    ∃ checked info late rc, use = .acting c f port n checked command ∧
      input = .go info late rc := by
  revert hn
  fun_cases userBody s use input with
  | case1 => split <;> simp
  | case10 d filep port' claimed checked info late rc mode =>
    intro hn
    have heq : Note.acts c f port n command = .acts d filep port' claimed (.select mode) := by
      simpa using hn
    cases heq
    exact ⟨checked, info, late, rc, rfl, rfl⟩
  | case11 d filep port' claimed checked info late rc mode =>
    intro hn
    have heq : Note.acts c f port n command = .acts d filep port' claimed (.select mode) := by
      simpa using hn
    cases heq
    exact ⟨checked, info, late, rc, rfl, rfl⟩
  | case12 d filep port' claimed checked info late rc command' =>
    intro hn
    have heq : Note.acts c f port n command = .acts d filep port' claimed command' := by
      simpa using hn
    cases heq
    exact ⟨checked, info, late, rc, rfl, rfl⟩
  | _ => simp

theorem portBody_no_act (c : Class) (f port n : Nat) (command : Command) :
    .acts c f port n command ∉ (portBody s p stage input).2.1 := by
  fun_cases portBody s p stage input <;> simp

theorem Counted.user (hcount : ∀ c, Counted (s.cls c)) (c : Class) :
    Counted ((userBody s use input).1.cls c) := by
  rcases @userBody_claims s use input c with hsame | hnone | ⟨f, hown, -⟩
  · exact hsame ▸ hcount c
  · exact hnone ▸ (hcount c).disown
  · exact hown ▸ (hcount c).own f

theorem Checking.step (hcount : ∀ c, Counted (s.cls c))
    (howned : ∀ c f, (s.cls c).claimOwner = some f →
      ∃ j, (j, .claims c f (s.cls c).claimedAt) ∈ h)
    (hc : Checking h s use) :
    Checking h s (userBody s use input).2.2 := by
  fun_cases userBody s use input with
  | case7 c filep port hok =>
    exact (hcount c).checked (howned c filep (ClassState.checkWriteClaim_ok.mp hok).2.1) hok
  | case8 c filep port hok =>
    exact (hcount c).checked (howned c filep (ClassState.checkWriteClaim_ok.mp hok).2.1) hok
  | case9 => exact hc
  | case14 => exact hc
  | _ => trivial

end Sections

/-! ## Whole steps -/

section Steps

variable {h : List (Nat × Note)} {s : Threads.State Shared Point} {i : Nat} {input : Input}

theorem step_moved (c : Class) :
    Moved (s.shared.cls c) ((threads.step s i input).shared.cls c) := by
  cases hpc : s.pc i with
  | port p stage =>
    rw [(step_port hpc).1]
    exact portBody_moved c
  | user use =>
    rw [(step_user hpc).1]
    exact .inl (userBody_binding use c)

/-- **One section.** -/
theorem Claimed.step (h' : Claimed h s) (i : Nat) (input : Input) :
    Claimed (h ++ threads.notes s i input) (threads.step s i input) := by
  cases hpc : s.pc i with
  | port p stage =>
    obtain ⟨hstep, -⟩ := (@step_port _ _ input) hpc
    refine ⟨fun c => ?_, fun c f hf => ?_, fun j use hj => ?_⟩
    · rw [hstep]
      rcases @portBody_rebinds s.shared p stage input c with hsame | ⟨port, hbind⟩
      · exact hsame ▸ h'.counted c
      · exact hbind ▸ (h'.counted c).rebind port
    · rw [hstep] at hf ⊢
      have howned : (s.shared.cls c).claimOwner = some f ∧
          ((portBody s.shared p stage input).1.cls c).claimedAt = (s.shared.cls c).claimedAt := by
        rcases @portBody_rebinds s.shared p stage input c with hsame | ⟨port, hbind⟩
        · exact ⟨hsame ▸ hf, congrArg ClassState.claimedAt hsame⟩
        · exact ⟨(congrArg ClassState.claimOwner hbind).symm.trans hf,
            (congrArg ClassState.claimedAt hbind).trans rfl⟩
      obtain ⟨k, hk⟩ := h'.owned c f howned.1
      exact ⟨k, mem_append_left _ (howned.2 ▸ hk)⟩
    · have hj' : s.pc j = .user use := by
        rw [hstep] at hj
        by_cases hji : j = i
        · subst hji
          cases (Function.update_self j _ s.pc).symm.trans hj
        · exact (Function.update_of_ne hji _ s.pc).symm.trans hj
      exact (h'.checking j use hj').mono step_moved _
  | user use =>
    obtain ⟨hstep, hnotes⟩ := (@step_user _ _ input) hpc
    refine ⟨fun c => ?_, fun c f hf => ?_, fun j use' hj => ?_⟩
    · rw [hstep]
      exact Counted.user h'.counted c
    · rw [hstep] at hf ⊢
      rw [hnotes]
      rcases @userBody_claims s.shared use input c with hsame | hnone | ⟨g, hown, hclaim⟩
      · obtain ⟨k, hk⟩ := h'.owned c f (hsame ▸ hf)
        exact ⟨k, mem_append_left _ (hsame.symm ▸ hk)⟩
      · rw [hnone] at hf
        cases hf
      · rw [hown] at hf ⊢
        cases hf
        exact ⟨i, mem_append_right _ (mem_map_of_mem hclaim)⟩
    · by_cases hji : j = i
      · subst hji
        rw [hstep] at hj
        cases (Function.update_self j _ s.pc).symm.trans hj
        have hnext := (@Checking.step h s.shared use input) h'.counted h'.owned
          (h'.checking j use hpc)
        exact hnext.mono step_moved _
      · have hj' : s.pc j = .user use' := by
          exact (Function.update_of_ne hji _ s.pc).symm.trans hj
        exact (h'.checking j use' hj').mono step_moved _

theorem act_of_notes {c : Class} {j f port n : Nat} {command : Command}
    (hn : (j, .acts c f port n command) ∈ threads.notes s i input) :
    ∃ checked info late rc, s.pc i = .user (.acting c f port n checked command) ∧
      input = .go info late rc := by
  cases hpc : s.pc i with
  | port p stage =>
    rw [(step_port hpc).2] at hn
    obtain ⟨note, hmem, heq⟩ := mem_map.mp hn
    cases heq
    exact absurd hmem (portBody_no_act c f port n command)
  | user use =>
    rw [(step_user hpc).2] at hn
    obtain ⟨note, hmem, heq⟩ := mem_map.mp hn
    cases heq
    obtain ⟨checked, info, late, rc, rfl, rfl⟩ := act_of_note hmem
    exact ⟨checked, info, late, rc, rfl, rfl⟩

theorem claimed_boot : Claimed [] boot where
  counted _ := ⟨rfl, nofun⟩
  owned _ _ h := by cases h
  checking i use h := by
    rw [boot] at h
    dsimp only at h
    split at h <;> cases h
    trivial

/-- **A write goes to the binding that was claimed** exactly when nothing came between. -/
theorem Claimed.writesBound_iff (h' : Claimed h s) (e : Nat × Input) :
    WritesBound s e ↔ Undisturbed s e := by
  obtain ⟨i, input⟩ := e
  constructor
  · intro hbound
    unfold Undisturbed
    split
    · next c f port claimed checked command info late rc hpc hinput =>
      subst hinput
      have hc : Checked h (s.shared.cls c) c f port claimed checked := h'.checking i _ hpc
      have hnote : (i, .acts c f port claimed command) ∈ threads.notes s i (.go info late rc) := by
        rw [(step_user hpc).2]
        refine mem_map_of_mem ?_
        cases command with
        | select mode =>
          unfold userBody
          dsimp only
          split <;> exact mem_cons_self
        | _ => exact mem_cons_self
      obtain ⟨-, hsame⟩ := hbound i c f port claimed command hnote
      have hpast := hc.past
      have horder := hc.order
      omega
    · trivial
  · intro hundisturbed j c f port n command hnote
    obtain ⟨checked, info, late, rc, hpc, rfl⟩ := act_of_notes hnote
    have hc : Checked h (s.shared.cls c) c f port n checked := h'.checking i _ hpc
    unfold Undisturbed at hundisturbed
    rw [hpc] at hundisturbed
    obtain ⟨hsame, hlt⟩ := hundisturbed
    exact ⟨hc.bound hsame, hsame.trans (UInt32.eq_of_ofNat_eq hc.order hc.generation hlt).symm⟩

theorem oneClaim (s : Shared) : OneClaim s := by
  rintro c f g ⟨p, hp⟩ ⟨q, hq⟩
  have hf := (ClassState.checkWriteClaim_ok.mp hp).2.1
  have hg := (ClassState.checkWriteClaim_ok.mp hq).2.1
  exact Option.some.inj (hf.symm.trans hg)

theorem claimsEnd (s : Threads.State Shared Point) (e : Nat × Input) : ClaimsEnd s e := by
  obtain ⟨i, input⟩ := e
  intro c f hmoved hvalid
  cases hpc : s.pc i with
  | port p stage =>
    rw [(step_port hpc).1] at hmoved ⊢
    rcases @portBody_rebinds s.shared p stage input c with hsame | ⟨port, hbind⟩
    · exact absurd (congrArg ClassState.binding hsame) hmoved
    · rw [hbind]
      exact ClassState.not_valid_rebind hvalid port
  | user use =>
    rw [(step_user hpc).1] at hmoved
    exact absurd (userBody_binding use c) hmoved

theorem claimed_run (events : List (Nat × Input)) :
    Claimed (threads.history boot events) (threads.machine.run boot events) := by
  have hrun : Claimed ([] ++ threads.history boot events) (threads.machine.run boot events) :=
    Threads.history_invariant (m := threads) (fun _ _ i input hc => hc.step i input) claimed_boot
      events
  rwa [nil_append] at hrun

/-- **Motor claims.** In every run one descriptor at most has a valid claim on a class, every
rebinding of the class ends it, and what is written under a binding comes behind the descriptor's
claim of that binding. Every write reaches the port that is bound to the class under that very
binding if and only if the class is never rebound between a check and its write, nor `2 ^ 32` times
or more between a claim and a check. -/
theorem claim_exclusive (events : List (Nat × Input)) :
    threads.machine.Throughout
        (fun s e => OneClaim s.shared ∧ OneClaim (threads.step s e.1 e.2).shared ∧ ClaimsEnd s e)
        boot events ∧
      ClaimedFirst (threads.history boot events) ∧
      (threads.machine.Throughout WritesBound boot events ↔
        threads.machine.Throughout Undisturbed boot events) := by
  refine ⟨threads.machine.throughout_of_forall
    (fun e _ s => ⟨oneClaim _, oneClaim _, claimsEnd s e⟩) _, ?_, ?_⟩
  · intro pre i c f port n command post hpost
    obtain ⟨before, e, after, l, r, rfl, hnotes, rfl, -⟩ := Threads.exists_step_of_history hpost
    have hk := claimed_run before
    have hmem : (i, Note.acts c f port n command) ∈
        threads.notes (threads.machine.run boot before) e.1 e.2 :=
      hnotes ▸ mem_append_right l mem_cons_self
    obtain ⟨checked, info, late, rc, hpc, -⟩ := act_of_notes hmem
    have hc : Checked _ _ c f port n checked := hk.checking e.1 _ hpc
    obtain ⟨j, hj⟩ := hc.claimed
    exact ⟨j, mem_append_left l hj⟩
  · refine @Machine.throughout_congr _ _ _ threads.machine (fun s => ∃ h, Claimed h s) _ _
      (fun s e hs => ?_) _ ⟨[], claimed_boot⟩ events
    obtain ⟨h, hs⟩ := hs
    exact ⟨hs.writesBound_iff e, fun _ => ⟨_, hs.step e.1 e.2⟩⟩

end Steps

/-- A motor is unplugged between the check of a duty cycle and its port. -/
theorem not_claim_exclusive :
    ¬∀ events, threads.machine.Throughout
        (fun s e => OneClaim s.shared ∧ ClaimsEnd s e ∧ WritesBound s e) boot events := by
  intro h
  let before : List (Nat × Input) :=
    [(0, .sync { typeId := 48 }), (0, .go none false 0), (0, .go none false 0),
      (0, .go none false 0), (6, .claim .motorR 1), (6, .write .motorR 1 (.setPwm 1 5000)),
      (0, .error)]
  have hrun := threads.machine.throughout_append.mp (h (before ++ [(6, .go none false 0)]))
  have hbound := hrun.2.1.2.2
  have hwrites : (6, .acts .motorR 1 0 1 (.setPwm 1 5000)) ∈
      threads.notes (threads.machine.run boot before) 6 (.go none false 0) := by decide +kernel
  have hfree : ((threads.machine.run boot before).shared.cls .motorR).boundPort = none := by
    decide +kernel
  exact absurd (hfree.symm.trans (hbound _ _ _ _ _ _ hwrites).1) nofun

end Brickwright.Legosensor
