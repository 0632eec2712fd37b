import Brickwright.Machine.Semaphore
import Brickwright.Machine.Threads

/-!
# The edges of a port

`stm32_legoport.c`: a confirmed type changes under the lock of the port, which counts the change and
posts a semaphore unless that has a token. Whoever waits for a change compares the counter with what
he has seen, under the lock, and waits for the semaphore without it.

One post wakes one caller. `edges_seen` says what that comes to: no caller misses an edge as long as
one at most is past his comparison when the type changes, and no one takes a token that another
needs.
-/

namespace Brickwright.Legoport

open List

def EINTR : Int := 4
def ETIMEDOUT : Int := 110

/-- `struct legoport_state_s`, what a change and its waiters use of it. `locked` says that a change
has read the semaphore and is about to post it. -/
structure EdgeState where
  confirmedType : UInt8 := 0
  eventCounter : UInt32 := 0
  stateChangeSem : Semaphore := {}
  locked : Bool := false

inductive EdgePoint where
  | ready
  /-- `legoport_post_change`. -/
  | posting
  /-- `stm32_legoport_wait_change`. -/
  | checking (snapshot timeoutMs : UInt32)
  | waiting (snapshot timeoutMs : UInt32)
  | blocked (snapshot timeoutMs : UInt32) (ticket : Nat)
  deriving DecidableEq

inductive EdgeInput where
  | change (newType : UInt8)
  | waitChange (snapshot timeoutMs : UInt32)
  /-- The thread goes on; the scheduler picks whom a post wakes. -/
  | go (pick : Nat)
  /-- The wait for the semaphore ends without a token. -/
  | giveUp (rc : Int)

inductive EdgeNote where
  | returns (snapshot : UInt32) (rc : Int) (newCounter : Option UInt32)
  deriving DecidableEq

/-- `legoport_post_change`, up to the post. -/
def EdgeState.postChange (s : EdgeState) (newType : UInt8) : EdgeState :=
  if s.confirmedType = newType then s
  else
    { s with
      confirmedType := newType
      eventCounter := s.eventCounter + 1
      locked := decide (s.stateChangeSem.value ≤ 0) }

/-- One section of a thread. A thread that needs the lock of a port waits until it is free. -/
def edgeBody (s : EdgeState) : EdgePoint → EdgeInput → EdgeState × List EdgeNote × EdgePoint
  | .ready, .change newType =>
    if s.locked then (s, [], .ready)
    else
      let s := s.postChange newType
      (s, [], if s.locked then .posting else .ready)
  | .posting, .go pick =>
    ({ s with stateChangeSem := s.stateChangeSem.post pick, locked := false }, [], .ready)
  | .ready, .waitChange snapshot timeoutMs => (s, [], .checking snapshot timeoutMs)
  | .checking snapshot timeoutMs, .go _ =>
    if s.locked then (s, [], .checking snapshot timeoutMs)
    else if s.eventCounter ≠ snapshot then
      (s, [.returns snapshot 0 (some s.eventCounter)], .ready)
    else (s, [], .waiting snapshot timeoutMs)
  | .waiting snapshot timeoutMs, .go _ =>
    let (sem, ticket) := s.stateChangeSem.wait
    ({ s with stateChangeSem := sem }, [],
      match ticket with
      | none => .checking snapshot timeoutMs
      | some ticket => .blocked snapshot timeoutMs ticket)
  | .blocked snapshot timeoutMs ticket, .go _ =>
    if ticket ∈ s.stateChangeSem.waiting then (s, [], .blocked snapshot timeoutMs ticket)
    else (s, [], .checking snapshot timeoutMs)
  | .blocked snapshot timeoutMs ticket, .giveUp rc =>
    if ticket ∈ s.stateChangeSem.waiting ∧ (rc = -ETIMEDOUT → timeoutMs ≠ 0) then
      let s := { s with stateChangeSem := s.stateChangeSem.leave ticket }
      if rc = -ETIMEDOUT ∨ rc = -EINTR then (s, [.returns snapshot rc none], .ready)
      else (s, [], .checking snapshot timeoutMs)
    else (s, [], .blocked snapshot timeoutMs ticket)
  | point, _ => (s, [], point)

-- the cases of the code, derived once for all the lemmas that follow
attribute [elab_as_elim] edgeBody.fun_cases_unfolding

@[simp] theorem EdgeState.postChange_sem (s : EdgeState) (newType : UInt8) :
    (s.postChange newType).stateChangeSem = s.stateChangeSem := by
  unfold postChange
  split <;> rfl

def edgeThreads : Threads EdgeState EdgePoint EdgeInput EdgeNote where
  body := edgeBody

def edgeBoot : Threads.State EdgeState EdgePoint where
  shared := {}
  pc _ := .ready

/-! ## Callers that are past their comparison -/

/-- The ticket that a caller waits with. -/
def EdgePoint.ticket : EdgePoint → Option Nat
  | .blocked _ _ ticket => some ticket
  | _ => none

/-- What a caller has seen who is past his comparison and has not been woken. -/
def EdgePoint.past (sem : Semaphore) : EdgePoint → Option UInt32
  | .waiting snapshot _ => some snapshot
  | .blocked snapshot _ ticket => if ticket ∈ sem.waiting then some snapshot else none
  | _ => none

abbrev Edges := Threads.State EdgeState EdgePoint

def past (s : Edges) (i : Nat) : Option UInt32 := (s.pc i).past s.shared.stateChangeSem

/-- A caller is blocked and nothing is there to wake him, although the type has changed since. -/
def Missed (s : Edges) : Prop :=
  s.shared.locked = false ∧ s.shared.stateChangeSem.tokens = 0 ∧
    ∃ i snapshot timeoutMs ticket, s.pc i = .blocked snapshot timeoutMs ticket ∧
      ticket ∈ s.shared.stateChangeSem.waiting ∧ s.shared.eventCounter ≠ snapshot

/-- When the type changes, one caller at most is past his comparison; and a caller who has seen the
last change takes a token only when whoever else is past it has seen that change too. -/
def InTurn (s : Edges) (e : Nat × EdgeInput) : Prop :=
  match s.pc e.1, e.2 with
  | .ready, .change newType =>
    s.shared.locked = false → s.shared.confirmedType ≠ newType →
      ∀ i j a b, past s i = some a → past s j = some b → i = j
  | .waiting snapshot _, .go _ =>
    s.shared.eventCounter = snapshot → 0 < s.shared.stateChangeSem.tokens →
      ∀ j a, past s j = some a → a = s.shared.eventCounter
  | _, _ => True

/-! ## What holds in every run -/

structure Sound (s : Edges) : Prop where
  tickets : s.shared.stateChangeSem.Tickets fun i => (s.pc i).ticket
  posting : ∀ i, s.pc i = .posting → s.shared.locked = true
  poster : ∀ i j, s.pc i = .posting → s.pc j = .posting → i = j
  /-- A change posts only a semaphore without a token. -/
  spent : s.shared.locked = true → s.shared.stateChangeSem.tokens = 0

section Sections

variable {s : EdgeState} {point : EdgePoint} {input : EdgeInput} {a : UInt32}

theorem EdgePoint.past_eq_some {sem : Semaphore} :
    point.past sem = some a ↔ (∃ timeoutMs, point = .waiting a timeoutMs) ∨
      ∃ timeoutMs ticket, point = .blocked a timeoutMs ticket ∧ ticket ∈ sem.waiting := by
  cases point with
  | blocked snapshot timeoutMs ticket =>
    simp only [past]
    split <;> simp_all
  | _ => simp [past]

theorem EdgePoint.blocked_of_ticket {t : Nat} (h : point.ticket = some t) :
    ∃ snapshot timeoutMs, point = .blocked snapshot timeoutMs t := by
  cases point with
  | blocked snapshot timeoutMs ticket =>
    cases h
    exact ⟨snapshot, timeoutMs, rfl⟩
  | _ => cases h

theorem mem_of_mem_body {t : Nat} (ht : t < s.stateChangeSem.next)
    (h : t ∈ (edgeBody s point input).1.stateChangeSem.waiting) : t ∈ s.stateChangeSem.waiting := by
  revert h
  fun_cases edgeBody s point input with
  | case2 newType _ s' =>
    show t ∈ (s.postChange newType).stateChangeSem.waiting → _
    rw [EdgeState.postChange_sem]
    exact id
  | case3 => exact Semaphore.mem_of_mem_post
  | case8 snapshot timeoutMs _ sem ticket hwait =>
    intro h
    refine Semaphore.mem_of_mem_wait ht ?_
    rwa [hwait]
  | case11 | case12 => exact Semaphore.mem_of_mem_leave
  | _ => exact id

theorem tickets_body {held : Nat → Option Nat} {i : Nat} (hs : s.stateChangeSem.Tickets held)
    (hi : held i = point.ticket) :
    (edgeBody s point input).1.stateChangeSem.Tickets
      (Function.update held i (edgeBody s point input).2.2.ticket) := by
  have hsame : ∀ {p : EdgePoint}, p.ticket = point.ticket →
      s.stateChangeSem.Tickets (Function.update held i p.ticket) := by
    intro p hp
    rwa [hp, ← hi, Function.update_eq_self]
  fun_cases edgeBody s point input with
  | case2 newType _ s' =>
    show (s.postChange newType).stateChangeSem.Tickets _
    rw [EdgeState.postChange_sem]
    exact hsame (by split <;> rfl)
  | case3 pick =>
    have hnone : Function.update held i none = held := by
      rw [Function.update_eq_self_iff]
      exact hi.symm
    exact hnone.symm ▸ hs.post pick
  | case8 snapshot timeoutMs _ sem ticket hwait =>
    have hnext := hs.wait (i := i) hi
    rw [hwait] at hnext
    cases ticket <;> exact hnext
  | case10 snapshot timeoutMs ticket _ hout =>
    have hdrop := hs.drop (i := i) hi
    rwa [Semaphore.leave_of_not_mem hout] at hdrop
  | case11 | case12 => exact hs.drop hi
  | _ => exact hsame rfl

/-- Whoever is past the comparison after a section was so before, unless he has just made it. -/
theorem past_body
    (h : (edgeBody s point input).2.2.past (edgeBody s point input).1.stateChangeSem = some a)
    (hticket : ∀ t, point.ticket = some t → t < s.stateChangeSem.next) :
    point.past s.stateChangeSem = some a ∨
      a = s.eventCounter ∧ s.locked = false ∧ (edgeBody s point input).1 = s := by
  revert h
  fun_cases edgeBody s point input with
  | case2 newType _ s' =>
    split <;> simp [EdgePoint.past]
  | case7 snapshot timeoutMs _ hfree hseen =>
    intro h
    have heq : snapshot = a := Option.some.inj h
    exact .inr ⟨heq ▸ (not_not.mp hseen).symm, by simpa using hfree, rfl⟩
  | case8 snapshot timeoutMs _ sem ticket hwait =>
    cases ticket with
    | none => exact nofun
    | some t =>
      intro h
      dsimp only [EdgePoint.past] at h
      split at h
      · exact .inl h
      · cases h
  | case9 | case13 | case14 => exact .inl
  | _ => simp [EdgePoint.past]

theorem EdgeState.locked_postChange {newType : UInt8} (hfree : s.locked = false) :
    (s.postChange newType).locked = true → s.stateChangeSem.tokens = 0 := by
  unfold postChange
  split
  · exact fun h => absurd (hfree.symm.trans h) Bool.false_ne_true
  · intro h
    have hvalue : s.stateChangeSem.value ≤ 0 := of_decide_eq_true h
    have hpos := s.stateChangeSem.value_pos
    omega

theorem EdgeState.pos_of_postChange {newType : UInt8} (hnew : s.confirmedType ≠ newType)
    (hfree : (s.postChange newType).locked = false) : 0 < s.stateChangeSem.tokens := by
  have hlocked : (s.postChange newType).locked = decide (s.stateChangeSem.value ≤ 0) := by
    rw [postChange, if_neg hnew]
  have hvalue := of_decide_eq_false (hlocked.symm.trans hfree)
  exact Semaphore.value_pos.mp (by omega)

theorem EdgeState.postChange_ne {newType : UInt8} (hnew : s.confirmedType ≠ newType) :
    s.postChange newType ≠ s := by
  intro hsame
  have htype : (s.postChange newType).confirmedType = newType := by rw [postChange, if_neg hnew]
  exact hnew ((congrArg confirmedType hsame).symm.trans htype)

theorem locked_body (h : s.locked = true) (hpoint : point ≠ .posting) :
    (edgeBody s point input).1.locked = true := by
  fun_cases edgeBody s point input with
  | case2 newType hfree => exact absurd h hfree
  | case3 => exact absurd rfl hpoint
  | _ => exact h

theorem posting_body (h : (edgeBody s point input).2.2 = .posting) :
    point = .posting ∧ (edgeBody s point input).1 = s ∨
      s.locked = false ∧ (edgeBody s point input).1.locked = true := by
  revert h
  fun_cases edgeBody s point input with
  | case2 newType hfree s' =>
    split
    · next hlocked => exact fun _ => .inr ⟨by simpa using hfree, hlocked⟩
    · exact nofun
  | case8 =>
    split <;> exact nofun
  | case14 => exact fun h => .inl ⟨h, rfl⟩
  | _ => exact nofun

theorem spent_body (hs : s.locked = true → s.stateChangeSem.tokens = 0)
    (h : (edgeBody s point input).1.locked = true) :
    (edgeBody s point input).1.stateChangeSem.tokens = 0 := by
  revert h
  fun_cases edgeBody s point input with
  | case2 newType hfree s' =>
    intro h
    show (s.postChange newType).stateChangeSem.tokens = 0
    rw [EdgeState.postChange_sem]
    exact EdgeState.locked_postChange (by simpa using hfree) h
  | case3 => exact nofun
  | case8 snapshot timeoutMs _ sem ticket hwait =>
    intro h
    have hzero := hs h
    rcases s.stateChangeSem.wait_cases with ⟨hpos, -⟩ | ⟨-, -, hnext, -⟩
    · omega
    · rwa [hwait] at hnext
  | _ => exact hs

/-- **What a section does to the counter and the tokens**: nothing, a change, a post, or a token
that is taken. -/
theorem body_effect :
    ((edgeBody s point input).1.locked = s.locked ∧
      (edgeBody s point input).1.eventCounter = s.eventCounter ∧
      (edgeBody s point input).1.stateChangeSem.tokens = s.stateChangeSem.tokens) ∨
    (∃ newType, point = .ready ∧ input = .change newType ∧ s.locked = false ∧
      s.confirmedType ≠ newType ∧ (edgeBody s point input).1 = s.postChange newType) ∨
    (∃ pick, point = .posting ∧ (edgeBody s point input).1 =
      { s with stateChangeSem := s.stateChangeSem.post pick, locked := false }) ∨
    ∃ snapshot timeoutMs pick, point = .waiting snapshot timeoutMs ∧ input = .go pick ∧
      0 < s.stateChangeSem.tokens ∧ (edgeBody s point input).2.2 = .checking snapshot timeoutMs ∧
      (edgeBody s point input).1.locked = s.locked ∧
      (edgeBody s point input).1.eventCounter = s.eventCounter := by
  fun_cases edgeBody s point input with
  | case2 newType hfree s' =>
    by_cases hsame : s.confirmedType = newType
    · have hs' : s' = s := if_pos hsame
      rw [hs']
      exact .inl ⟨rfl, rfl, rfl⟩
    · exact .inr (.inl ⟨newType, rfl, rfl, by simpa using hfree, hsame, rfl⟩)
  | case3 pick => exact .inr (.inr (.inl ⟨pick, rfl, rfl⟩))
  | case8 snapshot timeoutMs pick sem ticket hwait =>
    rcases s.stateChangeSem.wait_cases with ⟨hpos, hnone, -⟩ | ⟨hzero, -, hnext, -⟩
    · rw [hwait] at hnone
      cases hnone
      exact .inr (.inr (.inr ⟨snapshot, timeoutMs, pick, rfl, rfl, hpos, rfl, rfl, rfl⟩))
    · rw [hwait] at hnext
      exact .inl ⟨rfl, rfl, hnext.trans hzero.symm⟩
  | _ => exact .inl ⟨rfl, rfl, rfl⟩

end Sections

/-! ## Whole steps -/

section Steps

variable {s : Edges} {i : Nat} {input : EdgeInput}

theorem ticket_step : (fun j => ((edgeThreads.step s i input).pc j).ticket) =
    Function.update (fun j => (s.pc j).ticket) i (edgeBody s.shared (s.pc i) input).2.2.ticket :=
  Function.comp_update EdgePoint.ticket s.pc i _

theorem Sound.step (h : Sound s) (i : Nat) (input : EdgeInput) :
    Sound (edgeThreads.step s i input) where
  tickets := by
    rw [ticket_step]
    exact tickets_body h.tickets rfl
  posting j hj := by
    by_cases hji : j = i
    · subst hji
      rw [Threads.step_pc_self] at hj
      rcases posting_body hj with ⟨hposting, hsame⟩ | ⟨-, hlocked⟩
      · exact (congrArg EdgeState.locked hsame).trans (h.posting j hposting)
      · exact hlocked
    · rw [Threads.step_pc_of_ne hji] at hj
      exact locked_body (h.posting j hj) fun hi => hji (h.poster j i hj hi)
  poster j k hj hk := by
    have hself : ∀ {l}, l ≠ i → s.pc l = .posting →
        (edgeBody s.shared (s.pc i) input).2.2 ≠ .posting := by
      intro l hli hl hi
      rcases posting_body hi with ⟨hposting, -⟩ | ⟨hfree, -⟩
      · exact hli (h.poster l i hl hposting)
      · exact absurd (hfree.symm.trans (h.posting l hl)) Bool.false_ne_true
    by_cases hji : j = i <;> by_cases hki : k = i
    · exact hji.trans hki.symm
    · subst hji
      rw [Threads.step_pc_self] at hj
      rw [Threads.step_pc_of_ne hki] at hk
      exact absurd hj (hself hki hk)
    · subst hki
      rw [Threads.step_pc_self] at hk
      rw [Threads.step_pc_of_ne hji] at hj
      exact absurd hk (hself hji hj)
    · rw [Threads.step_pc_of_ne hji] at hj
      rw [Threads.step_pc_of_ne hki] at hk
      exact h.poster j k hj hk
  spent := spent_body h.spent

theorem past_step (h : Sound s) {j : Nat} {a : UInt32}
    (hj : past (edgeThreads.step s i input) j = some a) :
    past s j = some a ∨
      j = i ∧ a = s.shared.eventCounter ∧ s.shared.locked = false ∧
        (edgeThreads.step s i input).shared = s.shared := by
  unfold past at hj
  by_cases hji : j = i
  · subst hji
    rw [Threads.step_pc_self] at hj
    rcases past_body hj (h.tickets.issued j) with hold | hnew
    · exact .inl hold
    · exact .inr ⟨rfl, hnew⟩
  · rw [Threads.step_pc_of_ne hji] at hj
    refine .inl (EdgePoint.past_eq_some.mpr ?_)
    refine (EdgePoint.past_eq_some.mp hj).imp id ?_
    rintro ⟨timeoutMs, ticket, hpc, hmem⟩
    refine ⟨timeoutMs, ticket, hpc, mem_of_mem_body (h.tickets.issued j ticket ?_) hmem⟩
    rw [hpc]
    rfl

/-- Between changes, a caller who needs a token has one, and nobody else needs it; a change that is
about to post has one caller to wake at most. -/
structure Served (s : Edges) : Prop where
  few : ∀ i j a b, past s i = some a → past s j = some b →
    s.shared.locked = true ∨ a ≠ s.shared.eventCounter ∧ b ≠ s.shared.eventCounter → i = j
  token : s.shared.locked = false → ∀ i a, past s i = some a → a ≠ s.shared.eventCounter →
    0 < s.shared.stateChangeSem.tokens

theorem Served.mono {s' : Edges} (h : Served s)
    (hpast : ∀ j a, past s' j = some a → past s j = some a ∨
      a = s'.shared.eventCounter ∧ s'.shared.locked = false)
    (hlocked : s'.shared.locked = s.shared.locked)
    (hcounter : s'.shared.eventCounter = s.shared.eventCounter)
    (htokens : s'.shared.stateChangeSem.tokens = s.shared.stateChangeSem.tokens) : Served s' where
  few i j a b hi hj hor := by
    rcases hpast i a hi with hi' | ⟨hnew, hfree⟩
    · rcases hpast j b hj with hj' | ⟨hnew, hfree⟩
      · exact h.few i j a b hi' hj' (hlocked ▸ hcounter ▸ hor)
      · rcases hor with hl | hstale
        · exact absurd (hfree.symm.trans hl) Bool.false_ne_true
        · exact absurd hnew hstale.2
    · rcases hor with hl | hstale
      · exact absurd (hfree.symm.trans hl) Bool.false_ne_true
      · exact absurd hnew hstale.1
  token hfree i a hi ha := by
    rw [htokens]
    rcases hpast i a hi with hi' | ⟨hnew, -⟩
    · exact h.token (hlocked ▸ hfree) i a hi' (hcounter ▸ ha)
    · exact absurd hnew ha

/-- **One section** in turn. -/
theorem Served.step (h : Served s) (hs : Sound s) (hturn : InTurn s (i, input)) :
    Served (edgeThreads.step s i input) := by
  have hpast : ∀ j a, past (edgeThreads.step s i input) j = some a → past s j = some a ∨
      j = i ∧ a = s.shared.eventCounter ∧ s.shared.locked = false ∧
        (edgeThreads.step s i input).shared = s.shared := fun j a => past_step hs
  rcases @body_effect s.shared (s.pc i) input with ⟨hlocked, hcounter, htokens⟩ |
    ⟨newType, hpc, rfl, hfree, hnew, hshared⟩ | ⟨pick, hpc, hshared⟩ |
    ⟨snapshot, timeoutMs, pick, hpc, rfl, hpos, hnext, hlocked, hcounter⟩
  · refine h.mono (fun j a hj => (hpast j a hj).imp id ?_) hlocked hcounter htokens
    rintro ⟨-, ha, hfree, -⟩
    exact ⟨ha.trans hcounter.symm, hlocked.trans hfree⟩
  · -- nobody compares anything in a change
    have hold : ∀ j a, past (edgeThreads.step s i (.change newType)) j = some a →
        past s j = some a := by
      intro j a hj
      rcases hpast j a hj with hold | ⟨-, -, -, hsame⟩
      · exact hold
      · have hkept : s.shared.postChange newType = s.shared := hshared.symm.trans hsame
        exact absurd hkept (EdgeState.postChange_ne hnew)
    have hone : ∀ j k a b, past s j = some a → past s k = some b → j = k := by
      unfold InTurn at hturn
      rw [hpc] at hturn
      exact hturn hfree hnew
    refine ⟨fun j k a b hj hk _ => hone j k a b (hold j a hj) (hold k b hk),
      fun hopen j a _ _ => ?_⟩
    have hshared' : (edgeThreads.step s i (.change newType)).shared = s.shared.postChange newType :=
      hshared
    rw [hshared'] at hopen ⊢
    rw [EdgeState.postChange_sem]
    exact EdgeState.pos_of_postChange hnew hopen
  · -- whoever is past his comparison is the one to wake, or he will find the token
    have hlock := hs.posting i hpc
    have hold : ∀ j a, past (edgeThreads.step s i input) j = some a → past s j = some a := by
      intro j a hj
      rcases hpast j a hj with hold | ⟨-, -, hfree, -⟩
      · exact hold
      · exact absurd (hfree.symm.trans hlock) Bool.false_ne_true
    have hone : ∀ j k a b, past s j = some a → past s k = some b → j = k :=
      fun j k a b hj hk => h.few j k a b hj hk (.inl hlock)
    refine ⟨fun j k a b hj hk _ => hone j k a b (hold j a hj) (hold k b hk), fun _ j a hj _ => ?_⟩
    have hsem : (edgeThreads.step s i input).shared.stateChangeSem =
        s.shared.stateChangeSem.post pick := congrArg EdgeState.stateChangeSem hshared
    rcases s.shared.stateChangeSem.post_cases pick with ⟨-, htokens, -⟩ | ⟨t, ht, hpost⟩
    · rw [hsem, htokens]
      exact Nat.succ_pos _
    · -- the thread that is called was the only one
      obtain ⟨k, hk⟩ := hs.tickets.held t ht
      obtain ⟨snapshot, timeoutMs, hpk⟩ := EdgePoint.blocked_of_ticket hk
      have hkpast : past s k = some snapshot :=
        EdgePoint.past_eq_some.mpr (.inr ⟨timeoutMs, t, hpk, ht⟩)
      obtain rfl := hone j k a snapshot (hold j a hj) hkpast
      have hji : j ≠ i := by
        rintro rfl
        cases hpk.symm.trans hpc
      rw [past, Threads.step_pc_of_ne hji, hpk, hsem, hpost] at hj
      rcases EdgePoint.past_eq_some.mp hj with ⟨_, hw⟩ | ⟨_, _, hb, hmem⟩
      · cases hw
      · cases hb
        exact absurd hmem s.shared.stateChangeSem.nodup.not_mem_erase
  · have hopen : s.shared.locked = false := by
      by_contra hlock
      have hzero := hs.spent (by simpa using hlock)
      omega
    have hself : past s i = some snapshot := EdgePoint.past_eq_some.mpr (.inl ⟨timeoutMs, hpc⟩)
    have hnobody : ∀ j a, past (edgeThreads.step s i (.go pick)) j = some a →
        a = s.shared.eventCounter := by
      intro j a hj
      by_contra ha
      have hj' := (hpast j a hj).resolve_right fun hnew => ha hnew.2.1
      -- the one who takes the token is past his comparison no longer
      have hji : j ≠ i := by
        rintro rfl
        rw [past, Threads.step_pc_self] at hj
        have hnone := congrArg
          (EdgePoint.past (edgeThreads.step s j (.go pick)).shared.stateChangeSem) hnext
        cases hnone.symm.trans hj
      by_cases hseen : s.shared.eventCounter = snapshot
      · unfold InTurn at hturn
        rw [hpc] at hturn
        exact ha (hturn hseen hpos j a hj')
      · exact hji (h.few j i a snapshot hj' hself (.inr ⟨ha, fun h => hseen h.symm⟩))
    have hcounter' : (edgeThreads.step s i (.go pick)).shared.eventCounter =
        s.shared.eventCounter :=
      hcounter
    have hlocked' : (edgeThreads.step s i (.go pick)).shared.locked = s.shared.locked := hlocked
    refine ⟨fun j k a b hj _ hor => ?_, fun _ j a hj ha => ?_⟩
    · rcases hor with hl | hstale
      · exact absurd (hopen.symm.trans (hlocked'.symm.trans hl)) Bool.false_ne_true
      · exact absurd ((hnobody j a hj).trans hcounter'.symm) hstale.1
    · exact absurd ((hnobody j a hj).trans hcounter'.symm) ha

theorem Served.not_missed (h : Served s) : ¬Missed s := by
  rintro ⟨hfree, hzero, i, snapshot, timeoutMs, ticket, hpc, ht, hne⟩
  have hpast : past s i = some snapshot :=
    EdgePoint.past_eq_some.mpr (.inr ⟨timeoutMs, ticket, hpc, ht⟩)
  have hpos := h.token hfree i snapshot hpast hne.symm
  omega

theorem changed_of_note {point : EdgePoint} {s : EdgeState} {snapshot : UInt32}
    {new : Option UInt32} (h : .returns snapshot 0 new ∈ (edgeBody s point input).2.1) :
    ∃ c, new = some c ∧ c ≠ snapshot := by
  revert h
  fun_cases edgeBody s point input with
  | case6 seen _ _ _ hne =>
    intro h
    have heq : EdgeNote.returns snapshot 0 new = .returns seen 0 (some s.eventCounter) := by
      simpa using h
    cases heq
    exact ⟨_, rfl, hne⟩
  | case11 seen _ _ rc _ _ hrc =>
    intro h
    have heq : EdgeNote.returns snapshot 0 new = .returns seen rc none := by simpa using h
    cases heq
    rcases hrc with hrc | hrc <;> exact absurd hrc (by decide)
  | _ => simp

theorem sound_boot : Sound edgeBoot where
  tickets := Semaphore.tickets_empty
  posting _ := nofun
  poster _ _ := nofun
  spent := nofun

theorem served_boot : Served edgeBoot where
  few _ _ _ _ := nofun
  token _ _ _ := nofun

/-- **The edges of a port.** In every run an answer without an error tells of a counter that is not
the one that was seen. In a run in turn no caller is ever blocked behind a change that he has not
seen with nothing there to wake him. -/
theorem edges_seen (events : List (Nat × EdgeInput)) :
    (∀ i snapshot new, (i, .returns snapshot 0 new) ∈ edgeThreads.history edgeBoot events →
      ∃ c, new = some c ∧ c ≠ snapshot) ∧
    (edgeThreads.machine.Throughout InTurn edgeBoot events →
      ∀ before, before <+: events → ¬Missed (edgeThreads.machine.run edgeBoot before)) := by
  constructor
  · intro i snapshot new hnote
    obtain ⟨pre, post, hsplit⟩ := append_of_mem hnote
    obtain ⟨before, e, after, l, r, -, hnotes, -⟩ := Threads.exists_step_of_history hsplit
    have hmem : (i, EdgeNote.returns snapshot 0 new) ∈
        edgeThreads.notes (edgeThreads.machine.run edgeBoot before) e.1 e.2 :=
      hnotes ▸ mem_append_right l mem_cons_self
    exact changed_of_note (Threads.mem_notes.mp hmem).2
  · rintro hturn before ⟨after, rfl⟩
    have hall := (edgeThreads.machine.throughout_append.mp hturn).1
    have hrun := Threads.run_invariant_of (m := edgeThreads) (fun s => Sound s ∧ Served s)
      (fun s i input hs hturn => ⟨hs.1.step i input, hs.2.step hs.1 hturn⟩)
      ⟨sound_boot, served_boot⟩ hall
    exact hrun.2.not_missed

end Steps

def waitAlone : List (Nat × EdgeInput) :=
  [(0, .waitChange 0 0), (0, .go 0), (0, .go 0), (1, .change 5), (1, .go 0), (0, .go 0), (0, .go 0)]

theorem edges_seen_alone : ¬Missed (edgeThreads.machine.run edgeBoot waitAlone) := by
  refine (edges_seen waitAlone).2 ⟨trivial, trivial, fun _ h => absurd h (by decide), ?_, trivial,
    trivial, trivial, trivial⟩ _ prefix_rfl
  have honly : ∀ {i a}, past (edgeThreads.machine.run edgeBoot (waitAlone.take 3)) i = some a →
      i = 0 := by
    intro i a hi
    by_contra hne
    have hready : (edgeThreads.machine.run edgeBoot (waitAlone.take 3)).pc i = .ready :=
      Threads.run_pc_of_ne (m := edgeThreads) (s := edgeBoot)
        (by simp [waitAlone, Ne.symm hne])
    rw [past, hready] at hi
    cases hi
  exact fun _ _ i j a b hi hj => (honly hi).trans (honly hj).symm

/-- Two callers wait for a change, and one is woken. -/
theorem not_edges_seen :
    ¬∀ events, ¬Missed (edgeThreads.machine.run edgeBoot events) := by
  intro h
  refine h [(0, .waitChange 0 0), (0, .go 0), (0, .go 0), (1, .waitChange 0 0),
    (1, .go 0), (1, .go 0),
    (2, .change 5), (2, .go 0)] ⟨rfl, by decide +kernel, 1, 0, 0, 1, by decide +kernel, ?_, ?_⟩
  · decide +kernel
  · decide +kernel

end Brickwright.Legoport
