import Brickwright.Btsensor.Tx.Drains

/-!
# Registrations are single-shot

A registration is made under a new id, and then it is claimed, cleared or dropped, one of them and
once (`Registry.balance`). Who has claimed it owes one call of its callback, and nobody else does
(`Registry.owes`, `Registry.alone`).
-/

namespace Brickwright.Btsensor.Tx

open List

/-- Whether a note is the making, clearing or claiming of a registration, or the call of its
callback. -/
def Note.arms (id : Nat) : Note → Bool
  | .armed n => decide (n = id)
  | _ => false

def Note.clears (id : Nat) : Note → Bool
  | .cleared n => decide (n = id)
  | _ => false

def Note.claims (id : Nat) : Note → Bool
  | .claimed n _ _ => decide (n = id)
  | _ => false

def Note.calls (id : Nat) : Note → Bool
  | .callback n _ => decide (n = id)
  | _ => false

def Note.OfTimer : Note → Prop
  | .startCalled _ _ _ => True
  | .startReturned _ _ => True
  | .cancelCalled _ _ _ => True
  | .cancelReturned _ => True
  | .expired _ => True
  | _ => False

/-- How many registrations there are with an id: one or none. -/
def Drain.holds (d : Drain) (id : Nat) : Nat :=
  match d.registration with
  | some r => if r.id = id then 1 else 0
  | none => 0

/-- What the notes so far, the registration and the claims that threads owe have to do with each
other. -/
structure Registry (l : List Note) (d : Drain) (owed : Nat → List Claim) : Prop where
  positive : ∀ r, d.registration = some r → r.id ≠ 0
  fresh : ∀ id, d.counter < id → l.countP (Note.arms id) = 0
  once : ∀ id, l.countP (Note.arms id) ≤ 1
  balance : ∀ id, l.countP (Note.claims id) + l.countP (Note.clears id) + d.holds id ≤
    l.countP (Note.arms id)
  owes : ∀ i c, c ∈ owed i →
    (∃ e, .claimed c.id c.result e ∈ l) ∧ l.countP (Note.calls c.id) = 0
  alone : ∀ (i j : Nat) (c c' : Claim), c ∈ owed i → c' ∈ owed j → c.id = c'.id → i = j
  nodup : ∀ i, ((owed i).map Claim.id).Nodup
  called : ∀ id, l.countP (Note.calls id) ≤ 1
  callback : ∀ id result, .callback id result ∈ l → ∃ e, .claimed id result e ∈ l
  ready : ∀ id e, .claimed id 0 e ∈ l → e = true

theorem Drain.holds_some {d : Drain} {r : Registration} (h : d.registration = some r) (id : Nat) :
    d.holds id = if r.id = id then 1 else 0 := by
  rw [holds, h]

theorem Drain.holds_none {d : Drain} (h : d.registration = none) (id : Nat) : d.holds id = 0 := by
  rw [holds, h]

namespace Registry

variable {l notes : List Note} {d d' : Drain} {owed : Nat → List Claim} {i : Nat} {c : Claim}

theorem claimed_pos {id : Nat} {result : Int} {e : Bool} (h : .claimed id result e ∈ l) :
    0 < l.countP (Note.claims id) :=
  countP_pos_iff.mpr ⟨_, h, decide_eq_true rfl⟩

theorem unclaimed (hr : Registry l d owed) {id : Nat} (h : l.countP (Note.claims id) = 0) :
    (∀ i c, c ∈ owed i → c.id ≠ id) ∧ l.countP (Note.calls id) = 0 := by
  refine ⟨?_, ?_⟩
  · rintro i c hc rfl
    obtain ⟨e, he⟩ := (hr.owes i c hc).1
    have := claimed_pos he
    omega
  · by_contra hne
    obtain ⟨n, hn, hcalls⟩ := countP_pos_iff.mp (Nat.pos_of_ne_zero hne)
    cases n with
    | callback n result =>
      obtain rfl : n = id := of_decide_eq_true hcalls
      obtain ⟨e, he⟩ := hr.callback n result hn
      have := claimed_pos he
      omega
    | _ => cases hcalls

theorem count_timer {notes : List Note} (h : ∀ n ∈ notes, n.OfTimer) (id : Nat) :
    notes.countP (Note.arms id) = 0 ∧ notes.countP (Note.clears id) = 0 ∧
      notes.countP (Note.claims id) = 0 ∧ notes.countP (Note.calls id) = 0 := by
  refine ⟨?_, ?_, ?_, ?_⟩
  all_goals
    rw [countP_eq_zero]
    intro n hn
    have hof := h n hn
    cases n <;> first | exact Bool.false_ne_true | exact False.elim hof

theorem timer (hr : Registry l d owed) (hnotes : ∀ n ∈ notes, n.OfTimer)
    (hreg : d'.registration = d.registration ∨ d'.registration = none)
    (hcounter : d'.counter = d.counter) : Registry (l ++ notes) d' owed := by
  have hcount := count_timer hnotes
  have hmem : ∀ {id result e}, .claimed id result e ∈ l ++ notes → .claimed id result e ∈ l := by
    intro id result e he
    exact (mem_append.mp he).resolve_right fun hn => False.elim (hnotes _ hn)
  refine ⟨?_, fun id hid => ?_, fun id => ?_, fun id => ?_, fun i c hc => ?_, hr.alone, hr.nodup,
    fun id => ?_, fun id result hn => ?_, fun id e he => hr.ready id e (hmem he)⟩
  · intro r hsome
    rcases hreg with hsame | hnone
    · exact hr.positive r (hsame ▸ hsome)
    · rw [hnone] at hsome
      cases hsome
  · rw [countP_append, (hcount id).1, hr.fresh id (hcounter ▸ hid)]
  · rw [countP_append, (hcount id).1]
    exact hr.once id
  · have hle : d'.holds id ≤ d.holds id := by
      rcases hreg with hsame | hnone
      · exact Nat.le_of_eq (by rw [Drain.holds, Drain.holds, hsame])
      · rw [Drain.holds_none hnone]
        exact Nat.zero_le _
    have hbalance := hr.balance id
    rw [countP_append, countP_append, countP_append, (hcount id).1,
      (hcount id).2.1, (hcount id).2.2.1]
    omega
  · obtain ⟨⟨e, he⟩, hcalls⟩ := hr.owes i c hc
    refine ⟨⟨e, mem_append_left _ he⟩, ?_⟩
    rw [countP_append, (hcount c.id).2.2.2, hcalls]
  · rw [countP_append, (hcount id).2.2.2]
    exact hr.called id
  · rcases mem_append.mp hn with hn | hn
    · obtain ⟨e, he⟩ := hr.callback id result hn
      exact ⟨e, mem_append_left _ he⟩
    · exact False.elim (hnotes _ hn)

theorem arm (hr : Registry l d owed) {r : Registration} (hfree : d.id = 0)
    (hid : r.id = d.counter + 1) (hsome : d'.registration = some r)
    (hcounter : d'.counter = d.counter + 1) : Registry (l ++ [.armed r.id]) d' owed := by
  have hnone : d.registration = none := by
    cases hreg : d.registration with
    | none => rfl
    | some r' =>
      refine absurd ?_ (hr.positive r' hreg)
      rw [Drain.id, hreg] at hfree
      exact hfree
  have hmem : ∀ {n}, n ∈ l ++ [.armed r.id] → n ≠ .armed r.id → n ∈ l := by
    intro n hn hne
    exact (mem_append.mp hn).resolve_right fun h => hne (mem_singleton.mp h)
  refine ⟨?_, fun id hid' => ?_, fun id => ?_, fun id => ?_, fun i c hc => ?_, hr.alone, hr.nodup,
    fun id => ?_, fun id result hn => ?_, fun id e he => hr.ready id e (hmem he Note.noConfusion)⟩
  · intro r' hr'
    cases hsome.symm.trans hr'
    rw [hid]
    exact Nat.succ_ne_zero _
  · have hne : r.id ≠ id := by omega
    rw [countP_append, hr.fresh id (by omega), countP_singleton, Note.arms,
      decide_eq_false hne]
    rfl
  · have honce := hr.once id
    rw [countP_append, countP_singleton, Note.arms]
    by_cases heq : r.id = id
    · have := hr.fresh id (by omega)
      rw [this, decide_eq_true heq]
      exact Nat.le_refl _
    · rw [decide_eq_false heq]
      exact honce
  · have hbalance := hr.balance id
    rw [Drain.holds_none hnone] at hbalance
    rw [countP_append, countP_append, countP_append, Drain.holds_some hsome]
    simp only [countP_singleton, Note.claims, Note.clears, Note.arms, decide_eq_true_eq]
    exact Nat.add_le_add_right hbalance _
  · obtain ⟨⟨e, he⟩, hcalls⟩ := hr.owes i c hc
    refine ⟨⟨e, mem_append_left _ he⟩, ?_⟩
    rw [countP_append, hcalls]
    rfl
  · rw [countP_append]
    exact hr.called id
  · obtain ⟨e, he⟩ := hr.callback id result (hmem hn Note.noConfusion)
    exact ⟨e, mem_append_left _ he⟩

/-- A claim takes the registration, which nobody had claimed, and owes its callback to one path. -/
theorem claim (hr : Registry l d owed) {r : Registration} (hsome : d.registration = some r)
    (hid : c.id = r.id) {e : Bool} (hzero : c.result = 0 → e = true)
    (hnone : d'.registration = none) (hcounter : d'.counter = d.counter) :
    Registry (l ++ [.claimed c.id c.result e]) d' (Function.update owed i (c :: owed i)) := by
  have hbalance := hr.balance c.id
  have honce := hr.once c.id
  rw [Drain.holds_some hsome, if_pos hid.symm] at hbalance
  -- the drain holds it still, so the balance leaves no room for an earlier claim
  have hunclaimed : l.countP (Note.claims c.id) = 0 := by omega
  obtain ⟨hnobody, huncalled⟩ := hr.unclaimed hunclaimed
  have hcalls : ∀ id, (l ++ [Note.claimed c.id c.result e]).countP (Note.calls id) =
      l.countP (Note.calls id) := fun id => countP_append
  have howed : ∀ {j c'}, c' ∈ Function.update owed i (c :: owed i) j →
      (j = i ∧ c' = c) ∨ c' ∈ owed j := by
    intro j c' hc'
    by_cases hij : j = i
    · subst hij
      rw [Function.update_self] at hc'
      exact (mem_cons.mp hc').imp_left fun h => ⟨rfl, h⟩
    · rw [Function.update_of_ne hij] at hc'
      exact .inr hc'
  refine ⟨?_, fun id hid' => ?_, fun id => ?_, fun id => ?_, fun j c' hc' => ?_, ?_, fun j => ?_,
    fun id => ?_, fun id result hn => ?_, fun id e' he' => ?_⟩
  · intro r' hr'
    rw [hnone] at hr'
    cases hr'
  · rw [countP_append, hr.fresh id (hcounter ▸ hid')]
    rfl
  · rw [countP_append]
    exact hr.once id
  · rw [countP_append, countP_append, countP_append, Drain.holds_none hnone]
    simp only [countP_singleton, Note.claims, Note.clears, Note.arms, decide_eq_true_eq,
      Bool.false_eq_true, if_false]
    by_cases heq : c.id = id
    · subst heq
      rw [if_pos rfl]
      omega
    · have := hr.balance id
      rw [if_neg heq]
      omega
  · rcases howed hc' with ⟨-, rfl⟩ | hc'
    · refine ⟨⟨e, mem_append_right _ mem_cons_self⟩, ?_⟩
      rw [hcalls]
      exact huncalled
    · obtain ⟨⟨e', he'⟩, hzero'⟩ := hr.owes j c' hc'
      refine ⟨⟨e', mem_append_left _ he'⟩, ?_⟩
      rw [hcalls]
      exact hzero'
  · intro j k c₁ c₂ h₁ h₂ heq
    rcases howed h₁ with ⟨hj, hc₁⟩ | hold₁
    · rcases howed h₂ with ⟨hk, -⟩ | hold₂
      · exact hj.trans hk.symm
      · rw [hc₁] at heq
        exact absurd heq.symm (hnobody k c₂ hold₂)
    · rcases howed h₂ with ⟨-, hc₂⟩ | hold₂
      · rw [hc₂] at heq
        exact absurd heq (hnobody j c₁ hold₁)
      · exact hr.alone j k c₁ c₂ hold₁ hold₂ heq
  · by_cases hij : j = i
    · subst hij
      rw [Function.update_self, map_cons, nodup_cons]
      refine ⟨fun hmem => ?_, hr.nodup j⟩
      obtain ⟨c', hc', heq⟩ := mem_map.mp hmem
      exact hnobody j c' hc' heq
    · rw [Function.update_of_ne hij]
      exact hr.nodup j
  · rw [hcalls]
    exact hr.called id
  · rcases mem_append.mp hn with hn | hn
    · obtain ⟨e', he'⟩ := hr.callback id result hn
      exact ⟨e', mem_append_left _ he'⟩
    · cases mem_singleton.mp hn
  · rcases mem_append.mp he' with he' | he'
    · exact hr.ready id e' he'
    · have heq := mem_singleton.mp he'
      injection heq with _ hresult hempty
      rw [hempty]
      exact hzero hresult.symm

theorem clear (hr : Registry l d owed) {r : Registration} (hsome : d.registration = some r)
    (hnone : d'.registration = none) (hcounter : d'.counter = d.counter) :
    Registry (l ++ [.cleared r.id]) d' owed := by
  have hmem : ∀ {n}, n ∈ l ++ [.cleared r.id] → n ≠ .cleared r.id → n ∈ l := by
    intro n hn hne
    exact (mem_append.mp hn).resolve_right fun h => hne (mem_singleton.mp h)
  refine ⟨?_, fun id hid' => ?_, fun id => ?_, fun id => ?_, fun i c hc => ?_, hr.alone, hr.nodup,
    fun id => ?_, fun id result hn => ?_, fun id e he => hr.ready id e (hmem he Note.noConfusion)⟩
  · intro r' hr'
    rw [hnone] at hr'
    cases hr'
  · rw [countP_append, hr.fresh id (hcounter ▸ hid')]
    rfl
  · rw [countP_append]
    exact hr.once id
  · have hbalance := hr.balance id
    rw [Drain.holds_some hsome] at hbalance
    rw [countP_append, countP_append, countP_append, Drain.holds_none hnone]
    simp only [countP_singleton, Note.claims, Note.clears, Note.arms, decide_eq_true_eq,
      Bool.false_eq_true, if_false]
    omega
  · obtain ⟨⟨e, he⟩, hcalls⟩ := hr.owes i c hc
    refine ⟨⟨e, mem_append_left _ he⟩, ?_⟩
    rw [countP_append, hcalls]
    rfl
  · rw [countP_append]
    exact hr.called id
  · obtain ⟨e, he⟩ := hr.callback id result (hmem hn Note.noConfusion)
    exact ⟨e, mem_append_left _ he⟩

/-- A callback is called for a claim that is owed, and is owed no longer. -/
theorem call (hr : Registry l d owed) {rest : List Claim} (howed : owed i = c :: rest) :
    Registry (l ++ [.callback c.id c.result]) d (Function.update owed i rest) := by
  have hc : c ∈ owed i := howed ▸ mem_cons_self
  obtain ⟨⟨e, he⟩, hzero⟩ := hr.owes i c hc
  have hcalls : ∀ id, (l ++ [Note.callback c.id c.result]).countP (Note.calls id) =
      l.countP (Note.calls id) + if c.id = id then 1 else 0 := by
    intro id
    rw [countP_append, countP_singleton]
    simp only [Note.calls, decide_eq_true_eq]
  have hsub : ∀ {j c'}, c' ∈ Function.update owed i rest j → c' ∈ owed j ∧ c'.id ≠ c.id := by
    intro j c' hc'
    by_cases hij : j = i
    · subst hij
      rw [Function.update_self] at hc'
      have hnodup := hr.nodup j
      rw [howed, map_cons, nodup_cons] at hnodup
      refine ⟨howed ▸ mem_cons_of_mem _ hc', fun heq => hnodup.1 ?_⟩
      exact heq ▸ mem_map_of_mem hc'
    · rw [Function.update_of_ne hij] at hc'
      exact ⟨hc', fun heq => hij (hr.alone j i c' c hc' hc heq)⟩
  refine ⟨hr.positive, fun id hid => ?_, fun id => ?_, fun id => ?_, fun j c' hc' => ?_, ?_,
    fun j => ?_, fun id => ?_, fun id result hn => ?_, fun id e' he' => ?_⟩
  · rw [countP_append, hr.fresh id hid]
    rfl
  · rw [countP_append]
    exact hr.once id
  · rw [countP_append, countP_append, countP_append]
    exact hr.balance id
  · obtain ⟨hc', hne⟩ := hsub hc'
    obtain ⟨⟨e', he'⟩, hzero'⟩ := hr.owes j c' hc'
    refine ⟨⟨e', mem_append_left _ he'⟩, ?_⟩
    rw [hcalls, hzero', if_neg (Ne.symm hne)]
  · intro j k c₁ c₂ h₁ h₂ heq
    exact hr.alone j k c₁ c₂ (hsub h₁).1 (hsub h₂).1 heq
  · by_cases hij : j = i
    · subst hij
      have hnodup := hr.nodup j
      rw [howed, map_cons, nodup_cons] at hnodup
      rw [Function.update_self]
      exact hnodup.2
    · rw [Function.update_of_ne hij]
      exact hr.nodup j
  · rw [hcalls]
    by_cases heq : c.id = id
    · subst heq
      exact Nat.le_of_eq (by rw [hzero, if_pos rfl])
    · rw [if_neg heq]
      exact hr.called id
  · rcases mem_append.mp hn with hn | hn
    · obtain ⟨e', he'⟩ := hr.callback id result hn
      exact ⟨e', mem_append_left _ he'⟩
    · cases mem_singleton.mp hn
      exact ⟨e, mem_append_left _ he⟩
  · exact hr.ready id e' ((mem_append.mp he').resolve_right fun hn => by
      cases mem_singleton.mp hn)

end Registry

/-! ## Over a run -/

/-- The notes of a history about registrations and their timers. -/
abbrev book (h : History) : List Note := drainNotes (plain h)

abbrev owing (s : Threads.State Shared Pc) (i : Nat) : List Claim := (s.pc i).owed

section Run

variable {h : History} {s : Threads.State Shared Pc} {t t' : Shared} {pc : Pc} {i : Nat}
  {after : Option Claim} {notes : List Note} {input : Input}

theorem book_step (h : History) (s : Threads.State Shared Pc) (i : Nat) (input : Input) :
    book (h ++ arbiter.notes s i input) =
      book h ++ drainNotes (body s.shared (s.pc i) input).2.1 := by
  rw [book, plain_step, drainNotes, filter_append]

theorem owing_step (s : Threads.State Shared Pc) (i : Nat) (input : Input) :
    owing (arbiter.step s i input) =
      Function.update (owing s) i (body s.shared (s.pc i) input).2.2.owed := by
  funext j
  by_cases hij : j = i
  · subst hij
    rw [owing, Threads.step_pc_self, Function.update_self]
    rfl
  · rw [owing, Threads.step_pc_of_ne hij, Function.update_of_ne hij]

theorem reconcileLoop_registration (t : Shared) (after : Option Claim) :
    (reconcileLoop t after).1.drain.registration = t.drain.registration ∧
      (reconcileLoop t after).1.drain.counter = t.drain.counter ∧
      (reconcileLoop t after).2.2.owed = after.toList ∧
      ∀ n ∈ (reconcileLoop t after).2.1, n.OfTimer := by
  rcases reconcileLoop_cases t after with ⟨-, heq⟩ | ⟨-, -, heq⟩ | ⟨-, -, heq⟩
  · rw [heq]
    exact ⟨rfl, rfl, callback_owed after, fun _ hn => absurd hn not_mem_nil⟩
  · rw [heq]
    refine ⟨rfl, rfl, rfl, fun n hn => ?_⟩
    cases mem_singleton.mp hn
    trivial
  · rw [heq]
    refine ⟨rfl, rfl, rfl, fun n hn => ?_⟩
    cases mem_singleton.mp hn
    trivial

theorem Entry.registration (h : Entry t after pc t' notes) :
    t'.drain.registration = t.drain.registration ∧ t'.drain.counter = t.drain.counter ∧
      pc.owed = after.toList ∧ ∀ n ∈ notes, n.OfTimer := by
  have hone : ∀ n : Note, n.OfTimer → ∀ n' ∈ [n], n'.OfTimer := fun n hn n' hn' => by
    rwa [mem_singleton.mp hn']
  cases h with
  | reconcile => exact ⟨rfl, rfl, rfl, fun _ hn => absurd hn not_mem_nil⟩
  | cancelled id => exact ⟨rfl, rfl, rfl, hone (.cancelReturned id) trivial⟩
  | again => exact ⟨rfl, rfl, rfl, fun _ hn => absurd hn not_mem_nil⟩
  | started id rc => exact ⟨rfl, rfl, rfl, hone (.startReturned id rc) trivial⟩
  | failed id rc =>
    refine ⟨?_, ?_, rfl, hone (.startReturned id rc) trivial⟩
    · split <;> rfl
    · split <;> rfl

theorem drainNotes_timer (h : ∀ n ∈ notes, n.OfTimer) : drainNotes notes = notes := by
  refine filter_eq_self.mpr fun n hn => ?_
  have hof := h n hn
  cases n <;> first | rfl | exact False.elim hof

theorem Registry.change {l : List Note} {d d' : Drain} {owed : Nat → List Claim} {empty : Bool}
    {claims : List Claim} (hr : Registry l d owed) (hi : owed i = [])
    (h : Change d d' empty notes claims) :
    Registry (l ++ notes) d' (Function.update owed i claims) := by
  have hnothing : Function.update owed i [] = owed := by
    rw [← hi, Function.update_eq_self]
  cases h with
  | keep _ hsame hcounter =>
    rw [hnothing]
    exact hr.timer (fun _ hn => absurd hn not_mem_nil) (.inl hsame) hcounter
  | drop _ hnone hcounter =>
    rw [hnothing]
    exact hr.timer (fun _ hn => absurd hn not_mem_nil) (.inr hnone) hcounter
  | arm _ r hfree hid hsome hcounter =>
    rw [hnothing]
    exact hr.arm hfree hid hsome hcounter
  | armEmpty c hfree hid hzero hsame hcounter =>
    -- It is made and claimed in one section.
    let made : Drain := { d with counter := d.counter + 1, registration := some ⟨c.id, 0, 0, 0⟩ }
    have hnone : d.registration = none := by
      cases hreg : d.registration with
      | none => rfl
      | some r =>
        refine absurd ?_ (hr.positive r hreg)
        rw [Drain.id, hreg] at hfree
        exact hfree
    have hmade : Registry (l ++ [.armed c.id]) made owed :=
      hr.arm (r := ⟨c.id, 0, 0, 0⟩) hfree hid rfl rfl
    have hclaimed := hmade.claim (i := i) (c := c) rfl rfl (fun _ => rfl) (hsame.trans hnone)
      hcounter
    rwa [append_assoc, hi] at hclaimed
  | clear _ r hsome hnone hcounter =>
    rw [hnothing]
    exact hr.clear hsome hnone hcounter
  | claim r c hid hzero hsome hnone hcounter =>
    have hclaimed := hr.claim (i := i) hsome hid (fun _ => rfl) hnone hcounter
    rwa [hi] at hclaimed

theorem Registry.step (hr : Registry (book h) s.shared.drain (owing s)) (i : Nat) (input : Input) :
    Registry (book (h ++ arbiter.notes s i input)) (arbiter.step s i input).shared.drain
      (owing (arbiter.step s i input)) := by
  rw [book_step, owing_step]
  show Registry _ (body s.shared (s.pc i) input).1.drain _
  generalize hpc : s.pc i = pc
  generalize hbody : body s.shared pc input = r
  have hdrains : Drains s.shared pc r := hbody ▸ body_drains s.shared pc input
  have howed : owing s i = pc.owed := congrArg Pc.owed hpc
  have hnothing : ∀ claims, claims = pc.owed →
      Function.update (owing s) i claims = owing s := by
    rintro _ rfl
    rw [← howed, Function.update_eq_self]
  cases hdrains with
  | still =>
    rw [hnothing _ rfl]
    exact hr.timer (fun _ hn => absurd hn not_mem_nil) (.inl rfl) rfl
  | apart hapart hempty =>
    rw [hnothing _ (hapart.owed.trans hempty.symm), hapart.notes]
    exact hr.timer (fun _ hn => absurd hn not_mem_nil) (.inl hapart.drain.registration)
      hapart.drain.counter
  | busy after =>
    rw [hnothing _ (callback_owed after)]
    exact hr.timer (fun _ hn => absurd hn not_mem_nil) (.inl rfl) rfl
  | change hchange _ _ hempty => exact hr.change (howed.trans hempty) hchange
  | timeout r hid hsome =>
    have hexpired : Registry (book h ++ [.expired r.id]) s.shared.drain (owing s) :=
      hr.timer (fun n hn => by cases mem_singleton.mp hn; trivial) (.inl rfl) rfl
    have hclaimed : Registry (book h ++ [.expired r.id] ++
        [.claimed r.id (-ETIMEDOUT) s.shared.queues.empty])
        { s.shared.drain.clear with timer := 0 } _ :=
      hexpired.claim (i := i) (c := ⟨r.id, -ETIMEDOUT, r.cb, r.ctx⟩) hsome rfl
        (fun h => absurd (show -ETIMEDOUT = 0 from h) (by decide)) rfl rfl
    rwa [append_assoc, howed] at hclaimed
  | expired id =>
    show Registry _ _ (Function.update (owing s) i [])
    rw [hnothing [] rfl]
    exact hr.timer (fun n hn => by cases mem_singleton.mp hn; trivial) (.inl rfl) rfl
  | @loop _ after t' notes hentry =>
    obtain ⟨hreg, hcounter, hpcowed, hnotes⟩ := hentry.registration
    obtain ⟨hreg', hcounter', howed', hnotes'⟩ := reconcileLoop_registration t' after
    have hall : ∀ n ∈ notes ++ (reconcileLoop t' after).2.1, n.OfTimer := fun n hn =>
      (mem_append.mp hn).elim (hnotes n) (hnotes' n)
    rw [hnothing _ (howed'.trans hpcowed.symm), drainNotes_timer hall]
    exact hr.timer hall (.inl (hreg'.trans hreg)) (hcounter'.trans hcounter)
  | failed id after rc r hrc hsome hid =>
    have hreturned : Registry (book h ++ [.startReturned id rc]) s.shared.drain (owing s) :=
      hr.timer (fun n hn => by cases mem_singleton.mp hn; trivial) (.inl rfl) rfl
    have hclaimed : Registry (book h ++ [.startReturned id rc] ++
        [.claimed id rc s.shared.queues.empty]) { s.shared.drain.clear with
          timer := if s.shared.drain.timer = id then 0 else s.shared.drain.timer } _ :=
      hreturned.claim (i := i) (c := ⟨id, rc, r.cb, r.ctx⟩) hsome hid.symm
        (fun h => absurd h (Int.ne_of_lt hrc)) rfl rfl
    rwa [append_assoc, howed] at hclaimed
  | callback c next => exact hr.call howed

theorem start_registry (depth : Nat) :
    Registry (book []) (start depth).shared.drain (owing (start depth)) :=
  ⟨nofun, fun _ _ => rfl, fun _ => Nat.zero_le _, fun _ => Nat.le_refl _, nofun, nofun,
    fun _ => nodup_nil, fun _ => Nat.zero_le _, fun _ _ hn => absurd hn not_mem_nil,
    fun _ _ hn => absurd hn not_mem_nil⟩

theorem registry_run (d : Depth) (events : List (Nat × Input)) :
    Registry (book (noted d events)) (reached d events).shared.drain
      (owing (reached d events)) := by
  let Inv (h : History) (s : Threads.State Shared Pc) : Prop :=
    Registry (book h) s.shared.drain (owing s)
  have hstep : ∀ h s i input, Inv h s →
      Inv (h ++ arbiter.notes s i input) (arbiter.step s i input) :=
    fun _ _ i input hr => hr.step i input
  exact Threads.history_invariant hstep (start_registry d.slots) events

/-! ## The ids -/

/-- The ids of the registrations that were made, in order. -/
def armedIds (l : List Note) : List Nat :=
  l.filterMap fun
    | .armed id => some id
    | _ => none

theorem armedIds_drainNotes (l : List Note) : armedIds (drainNotes l) = armedIds l := by
  induction l with
  | nil => rfl
  | cons n l ih =>
    cases n
    case armed id => exact congrArg (List.cons id) ih
    all_goals exact ih

theorem armedIds_timer (h : ∀ n ∈ notes, n.OfTimer) : armedIds notes = [] := by
  rw [armedIds, filterMap_eq_nil_iff]
  intro n hn
  have hof := h n hn
  cases n <;> first | rfl | exact False.elim hof

theorem armedIds_step (t : Shared) (pc : Pc) (input : Input) :
    (armedIds (body t pc input).2.1 = [] ∧
      (body t pc input).1.drain.counter = t.drain.counter) ∨
    (armedIds (body t pc input).2.1 = [t.drain.counter + 1] ∧
      (body t pc input).1.drain.counter = t.drain.counter + 1) := by
  generalize hbody : body t pc input = r
  have hdrains : Drains t pc r := hbody ▸ body_drains t pc input
  cases hdrains with
  | still => exact .inl ⟨rfl, rfl⟩
  | apart hapart =>
    rw [← armedIds_drainNotes, hapart.notes]
    exact .inl ⟨rfl, hapart.drain.counter⟩
  | busy => exact .inl ⟨rfl, rfl⟩
  | change hchange =>
    rw [← armedIds_drainNotes]
    generalize drainNotes r.2.1 = notes, r.2.2.owed = claims, t.queues.empty = empty at hchange
    cases hchange with
    | keep _ _ hcounter => exact .inl ⟨rfl, hcounter⟩
    | drop _ _ hcounter => exact .inl ⟨rfl, hcounter⟩
    | arm _ r _ hid _ hcounter => exact .inr ⟨congrArg (fun n => [n]) hid, hcounter⟩
    | armEmpty c _ hid _ _ hcounter => exact .inr ⟨congrArg (fun n => [n]) hid, hcounter⟩
    | clear _ _ _ _ hcounter => exact .inl ⟨rfl, hcounter⟩
    | claim _ _ _ _ _ _ hcounter => exact .inl ⟨rfl, hcounter⟩
  | timeout => exact .inl ⟨rfl, rfl⟩
  | expired => exact .inl ⟨rfl, rfl⟩
  | @loop _ after t' notes hentry =>
    obtain ⟨-, hcounter, -, hnotes⟩ := hentry.registration
    obtain ⟨-, hcounter', -, hnotes'⟩ := reconcileLoop_registration t' after
    refine .inl ⟨?_, hcounter'.trans hcounter⟩
    exact armedIds_timer fun n hn => (mem_append.mp hn).elim (hnotes n) (hnotes' n)
  | failed => exact .inl ⟨rfl, rfl⟩
  | callback => exact .inl ⟨rfl, rfl⟩

/-- **The ids grow.** -/
theorem ids_run (d : Depth) (events : List (Nat × Input)) :
    (armedIds (plain (noted d events))).Pairwise (· < ·) ∧
      ∀ id ∈ armedIds (plain (noted d events)),
        0 < id ∧ id ≤ (reached d events).shared.drain.counter := by
  let Inv (h : History) (s : Threads.State Shared Pc) : Prop :=
    (armedIds (plain h)).Pairwise (· < ·) ∧
      ∀ id ∈ armedIds (plain h), 0 < id ∧ id ≤ s.shared.drain.counter
  have hstep : ∀ h s i input, Inv h s →
      Inv (h ++ arbiter.notes s i input) (arbiter.step s i input) := by
    rintro h s i input ⟨hsorted, hle⟩
    have happend : armedIds (plain (h ++ arbiter.notes s i input)) =
        armedIds (plain h) ++ armedIds (body s.shared (s.pc i) input).2.1 := by
      rw [plain_step]
      exact filterMap_append
    show (armedIds (plain (h ++ arbiter.notes s i input))).Pairwise (· < ·) ∧
      ∀ id ∈ armedIds (plain (h ++ arbiter.notes s i input)),
        0 < id ∧ id ≤ (body s.shared (s.pc i) input).1.drain.counter
    rw [happend]
    rcases armedIds_step s.shared (s.pc i) input with ⟨hnone, hcounter⟩ | ⟨hone, hcounter⟩
    · rw [hnone, hcounter, append_nil]
      exact ⟨hsorted, hle⟩
    · rw [hone, hcounter]
      refine ⟨pairwise_append.mpr ⟨hsorted, pairwise_singleton _ _, ?_⟩, ?_⟩
      · intro id hid id' hid'
        rw [mem_singleton.mp hid']
        exact Nat.lt_succ_of_le (hle id hid).2
      · intro id hid
        rcases mem_append.mp hid with hid | hid
        · exact ⟨(hle id hid).1, Nat.le_succ_of_le (hle id hid).2⟩
        · rw [mem_singleton.mp hid]
          exact ⟨Nat.succ_pos _, Nat.le_refl _⟩
  have h0 : Inv [] (start d.slots) := ⟨List.Pairwise.nil, fun _ hid => absurd hid not_mem_nil⟩
  exact Threads.history_invariant hstep h0 events

/-! ## Callbacks -/

attribute [local simp] drainNotes Note.drains

theorem callback_owed_by {t : Shared} {id : Nat} {result : Int}
    (h : .callback id result ∈ (body t pc input).2.1) :
    ∃ c, c ∈ pc.owed ∧ c.id = id ∧ c.result = result := by
  have hmem : .callback id result ∈ drainNotes (body t pc input).2.1 :=
    mem_filter.mpr ⟨h, rfl⟩
  generalize hbody : body t pc input = r at hmem
  have hdrains : Drains t pc r := hbody ▸ body_drains t pc input
  have htimer : ∀ {l : List Note}, (∀ n ∈ l, n.OfTimer) → .callback id result ∉ l :=
    fun hall hn => hall _ hn
  cases hdrains with
  | still => exact absurd hmem not_mem_nil
  | apart hapart =>
    rw [hapart.notes] at hmem
    exact absurd hmem not_mem_nil
  | busy => exact absurd hmem not_mem_nil
  | change hchange =>
    generalize drainNotes r.2.1 = notes, r.2.2.owed = claims at hchange hmem
    generalize t.queues.empty = empty at hchange
    cases hchange <;> simp at hmem
  | timeout r => simp at hmem
  | expired => simp at hmem
  | @loop _ after t' notes hentry =>
    obtain ⟨-, -, -, hnotes⟩ := hentry.registration
    obtain ⟨-, -, -, hnotes'⟩ := reconcileLoop_registration t' after
    refine absurd (mem_filter.mp hmem).1 (htimer fun n hn => ?_)
    exact (mem_append.mp hn).elim (hnotes n) (hnotes' n)
  | failed => simp at hmem
  | callback c next =>
    cases mem_singleton.mp hmem
    exact ⟨c, mem_cons_self, rfl, rfl⟩

theorem claimed_empty {t : Shared} {id : Nat} {result : Int} {e : Bool}
    (h : .claimed id result e ∈ (body t pc input).2.1) : e = t.queues.empty := by
  have hmem : .claimed id result e ∈ drainNotes (body t pc input).2.1 :=
    mem_filter.mpr ⟨h, rfl⟩
  generalize hbody : body t pc input = r at hmem
  have hdrains : Drains t pc r := hbody ▸ body_drains t pc input
  cases hdrains with
  | still => exact absurd hmem not_mem_nil
  | apart hapart =>
    rw [hapart.notes] at hmem
    exact absurd hmem not_mem_nil
  | busy => exact absurd hmem not_mem_nil
  | change hchange =>
    generalize drainNotes r.2.1 = notes, r.2.2.owed = claims at hchange hmem
    generalize t.queues.empty = empty at hchange ⊢
    cases hchange <;> simp at hmem
    · exact hmem.2.2
    · exact hmem.2.2
  | timeout r =>
    simp at hmem
    exact hmem.2.2
  | expired => simp at hmem
  | @loop _ after t' notes hentry =>
    obtain ⟨-, -, -, hnotes⟩ := hentry.registration
    obtain ⟨-, -, -, hnotes'⟩ := reconcileLoop_registration t' after
    have hof : (Note.claimed id result e).OfTimer :=
      (mem_append.mp (mem_filter.mp hmem).1).elim (hnotes _) (hnotes' _)
    exact False.elim hof
  | failed =>
    simp at hmem
    exact hmem.2.2
  | callback => simp at hmem

/-- A clear and a timeout with the id of another registration leave everything as it is. -/
theorem stale_call (pc : Pc) {t : Shared} {id : Nat} {r : Registration}
    (hr : t.drain.registration = some r)
    (hid : r.id ≠ id) {c : Call} (hc : c = .clear id ∨ c = .onDrainTimeout id) :
    (body t pc (.call c)).1 = t ∧ ∀ n ∈ (body t pc (.call c)).2.1, n = .rc 0 ∨ n = .expired id := by
  unfold body
  dsimp only
  split
  · rcases hc with rfl | rfl
    · show (clearPostDrain t id).1 = t ∧ ∀ n ∈ (clearPostDrain t id).2.1, _
      have hother : ¬ (id ≠ 0 ∧ t.drain.id = id) := by
        rintro ⟨-, hsame⟩
        rw [Drain.id, hr] at hsame
        exact hid hsame
      rw [clearPostDrain, if_neg hother]
      exact ⟨rfl, fun n hn => .inl (mem_singleton.mp hn)⟩
    · show (onDrainTimeout t id).1 = t ∧ ∀ n ∈ (onDrainTimeout t id).2.1, _
      have hother : ¬ (id ≠ 0 ∧ r.id = id ∧ t.drain.timer = id) := fun h => hid h.2.1
      unfold onDrainTimeout
      rw [hr]
      dsimp only
      rw [if_neg hother]
      exact ⟨rfl, fun n hn => .inr (mem_singleton.mp hn)⟩
  · exact ⟨rfl, fun n hn => absurd hn not_mem_nil⟩

end Run

/-- What is true of registrations in a run. -/
structure SingleShot (d : Depth) (events : List (Nat × Input)) : Prop where
  /-- The ids grow, so none is used again. -/
  ids : (armedIds (plain (noted d events))).Pairwise (· < ·)
  /-- A callback is called at most once, and of a registration that was made. -/
  once : ∀ id, (plain (noted d events)).countP (Note.calls id) ≤ 1
  made : ∀ id result, .callback id result ∈ plain (noted d events) →
    id ∈ armedIds (plain (noted d events))
  /-- A clear that returns true notes it, and then the callback is never called. -/
  clears : ∀ i id, (i, .rc 1) ∈ arbiter.notes (reached d events) i (.call (.clear id)) →
    (i, .cleared id) ∈ arbiter.notes (reached d events) i (.call (.clear id))
  cleared : ∀ id result, .cleared id ∈ plain (noted d events) →
    .callback id result ∉ plain (noted d events)
  /-- A callback with result 0 was claimed when both queues were empty. -/
  zero : ∀ before i input after id, events = before ++ (i, input) :: after →
    (i, .callback id 0) ∈ arbiter.notes (reached d before) i input →
    ∃ first j claim rest, before = first ++ (j, claim) :: rest ∧
      (j, .claimed id 0 true) ∈ arbiter.notes (reached d first) j claim ∧
      (reached d first).shared.queues.empty = true
  /-- A clear and a timeout with another id leave the registration there is, and all else. -/
  stale : ∀ i id r c, c = .clear id ∨ c = .onDrainTimeout id →
    (reached d events).shared.drain.registration = some r → r.id ≠ id →
    (arbiter.step (reached d events) i (.call c)).shared = (reached d events).shared ∧
      ∀ n, (i, n) ∈ arbiter.notes (reached d events) i (.call c) → n = .rc 0 ∨ n = .expired id

/-- **Registrations are single-shot**, in every run. -/
theorem single_shot (d : Depth) (events : List (Nat × Input)) : SingleShot d events where
  ids := (ids_run d events).1
  once id := by
    have hcount := (registry_run d events).called id
    have hsame : (book (noted d events)).countP (Note.calls id) =
        (plain (noted d events)).countP (Note.calls id) := by
      rw [book, drainNotes, countP_filter]
      refine countP_congr fun n _ => ?_
      cases n <;> simp [Note.calls, Note.drains]
    rwa [hsame] at hcount
  made id result hn := by
    have hr := registry_run d events
    obtain ⟨e, he⟩ := hr.callback id result (mem_filter.mpr ⟨hn, rfl⟩)
    have hclaimed := Registry.claimed_pos he
    -- what was claimed was armed: the balance has no other way to come to a claim
    have hbalance := hr.balance id
    obtain ⟨n, hmem, harms⟩ := countP_pos_iff.mp (by omega :
      0 < (book (noted d events)).countP (Note.arms id))
    cases n with
    | armed m =>
      obtain rfl : m = id := of_decide_eq_true harms
      exact mem_filterMap.mpr ⟨_, (mem_filter.mp hmem).1, rfl⟩
    | _ => cases harms
  clears i id hn := by
    obtain ⟨-, hn⟩ := Threads.mem_notes.mp hn
    refine Threads.mem_notes.mpr ⟨rfl, ?_⟩
    change .rc 1 ∈ (body _ _ _).2.1 at hn
    show .cleared id ∈ (body _ _ _).2.1
    unfold body at hn ⊢
    dsimp only at hn ⊢
    split at hn
    · change .rc 1 ∈ (clearPostDrain _ id).2.1 at hn
      show .cleared id ∈ (clearPostDrain _ id).2.1
      rw [clearPostDrain] at hn ⊢
      split at hn
      · next hcurrent =>
        rw [if_pos hcurrent]
        exact mem_cons_self
      · cases mem_singleton.mp hn
    · exact absurd hn not_mem_nil
  cleared id result hcleared hn := by
    have hr := registry_run d events
    obtain ⟨e, he⟩ := hr.callback id result (mem_filter.mpr ⟨hn, rfl⟩)
    have hclaimed := Registry.claimed_pos he
    have hclears : 0 < (book (noted d events)).countP (Note.clears id) :=
      countP_pos_iff.mpr ⟨_, mem_filter.mpr ⟨hcleared, rfl⟩, decide_eq_true rfl⟩
    have hbalance := hr.balance id
    have honce := hr.once id
    omega
  zero before i input after id _ hn := by
    have hr := registry_run d before
    obtain ⟨c, hc, rfl, hzero⟩ := callback_owed_by (Threads.mem_notes.mp hn).2
    obtain ⟨⟨e, he⟩, -⟩ := hr.owes i c hc
    rw [hzero] at he
    have hready := hr.ready c.id e he
    subst hready
    -- the step that made the claim saw the drain empty
    obtain ⟨⟨j, n⟩, hj, hclaimed⟩ := mem_map.mp (mem_filter.mp he).1
    obtain ⟨pre, post, hsplit⟩ := append_of_mem hj
    obtain ⟨first, ⟨j', claim⟩, rest, l, r, hbefore, hnotes, -, -⟩ :=
      Threads.exists_step_of_history hsplit
    subst hclaimed
    have hmem : (j, .claimed c.id 0 true) ∈ arbiter.notes (reached d first) j' claim := by
      rw [hnotes]
      simp
    obtain ⟨rfl, hclaim⟩ := Threads.mem_notes.mp hmem
    exact ⟨first, j, claim, rest, hbefore, hmem, (claimed_empty hclaim).symm⟩
  stale i id r c hc hr hid := by
    obtain ⟨hshared, hnotes⟩ := stale_call ((reached d events).pc i) hr hid hc
    exact ⟨hshared, fun n hn => hnotes n (Threads.mem_notes.mp hn).2⟩

end Brickwright.Btsensor.Tx
