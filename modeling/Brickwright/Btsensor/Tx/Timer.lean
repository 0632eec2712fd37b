import Brickwright.Btsensor.Tx.SingleShot

/-!
# The drain timer

One thread at a time is in the reconciler's loop and in the backend's operations (`Owner`). A timer
is started once, and cancelled or run out at most one of them and once (`Timers`). When no call is
under way the backend's timer is that of the registration (`Reconciled.quiescent`), unless a
notification has been merged into a pump that `btsensor_tx_deinit` had cut off: such a pump leaves
`g_pumping` set and does not reconcile.
-/

namespace Brickwright.Btsensor.Tx

open List

/-- Whether a note is the start of a registration's timer, or its cancelling, or its running out
with a callback. -/
def Note.starts (id : Nat) : Note → Bool
  | .startCalled n _ _ => decide (n = id)
  | _ => false

def Note.cancels (id : Nat) : Note → Bool
  | .cancelCalled n _ _ => decide (n = id)
  | _ => false

def Note.runsOut (id : Nat) : Note → Bool
  | .claimed n code _ => decide (n = id ∧ code = -ETIMEDOUT)
  | _ => false

/-- The backend has no timer any more: it has cancelled it, or not started it, or it has expired. -/
def Note.Ends (id : Nat) : Note → Prop
  | .cancelCalled n _ _ => n = id
  | .startReturned n code => n = id ∧ code < 0
  | .expired n => n = id
  | _ => False

def Armed (l : List Note) (id : Nat) : Prop :=
  Outstanding (fun n => n.starts id = true) (Note.Ends id) l

/-! ## One owner -/

structure Owner (s : Threads.State Shared Pc) : Prop where
  one : ∀ i j, (s.pc i).owner = true → (s.pc j).owner = true → i = j
  pumping : s.shared.drain.timerPumping = true ↔ ∃ i, (s.pc i).owner = true

section Owner

variable {s : Threads.State Shared Pc} {t t' : Shared} {pc : Pc} {i : Nat} {after : Option Claim}
  {notes : List Note} {input : Input}

/-- A section of a thread that is the owner before it and behind it, or neither. -/
theorem Owner.same (ho : Owner s)
    (howner : (body s.shared (s.pc i) input).2.2.owner = (s.pc i).owner)
    (hpumping : (body s.shared (s.pc i) input).1.drain.timerPumping =
      s.shared.drain.timerPumping) : Owner (arbiter.step s i input) := by
  have hsame : ∀ j, ((arbiter.step s i input).pc j).owner = (s.pc j).owner := by
    intro j
    by_cases hij : j = i
    · subst hij
      rw [Threads.step_pc_self]
      exact howner
    · rw [Threads.step_pc_of_ne hij]
  refine ⟨fun j k hj hk => ?_, ?_⟩
  · rw [hsame] at hj hk
    exact ho.one j k hj hk
  · show (body s.shared (s.pc i) input).1.drain.timerPumping = true ↔ _
    rw [hpumping, ho.pumping]
    exact exists_congr fun j => by rw [hsame]

theorem Entry.owner (h : Entry t after pc t' notes) :
    t'.queues = t.queues ∧
      ((pc = .reconcile after ∧ t.drain.timerPumping = false ∧ t'.drain.timerPumping = true) ∨
        (pc.owner = true ∧ t'.drain.timerPumping = t.drain.timerPumping)) := by
  cases h with
  | reconcile hfree => exact ⟨rfl, .inl ⟨rfl, hfree, rfl⟩⟩
  | cancelled => exact ⟨rfl, .inr ⟨rfl, rfl⟩⟩
  | again => exact ⟨rfl, .inr ⟨rfl, rfl⟩⟩
  | started => exact ⟨rfl, .inr ⟨rfl, rfl⟩⟩
  | failed =>
    refine ⟨?_, .inr ⟨rfl, ?_⟩⟩
    · split <;> rfl
    · split <;> rfl

theorem Owner.entry (ho : Owner s) (h : Entry s.shared after (s.pc i) t' notes) :
    t'.drain.timerPumping = true := by
  rcases h.owner.2 with ⟨-, -, hset⟩ | ⟨hi, hsame⟩
  · exact hset
  · rw [hsame]
    exact ho.pumping.mpr ⟨i, hi⟩

/-- The reconciler's loop: nobody else is in it, and it is left when the timer is the right one. -/
theorem Owner.loop (ho : Owner s) (hentry : Entry s.shared after (s.pc i) t' notes)
    (hbody : body s.shared (s.pc i) input = ((reconcileLoop t' after).1,
      notes ++ (reconcileLoop t' after).2.1, (reconcileLoop t' after).2.2)) :
    Owner (arbiter.step s i input) := by
  have hothers : ∀ j, j ≠ i → (s.pc j).owner = false := by
    intro j hij
    by_contra hj
    rw [Bool.not_eq_false] at hj
    rcases hentry.owner.2 with ⟨-, hfree, -⟩ | ⟨hi, -⟩
    · have hset := ho.pumping.mpr ⟨j, hj⟩
      rw [hfree] at hset
      cases hset
    · exact hij (ho.one j i hj hi)
  have hpumping := ho.entry hentry
  have hself : ((arbiter.step s i input).pc i).owner = (reconcileLoop t' after).2.2.owner := by
    rw [Threads.step_pc_self]
    exact congrArg (fun r => r.2.2.owner) hbody
  have honly : ∀ j, ((arbiter.step s i input).pc j).owner = true → j = i := by
    intro j hj
    by_contra hij
    rw [Threads.step_pc_of_ne hij, hothers j hij] at hj
    cases hj
  have hdrain : (arbiter.step s i input).shared.drain = (reconcileLoop t' after).1.drain :=
    congrArg (fun r => r.1.drain) hbody
  refine ⟨fun j k hj hk => (honly j hj).trans (honly k hk).symm, ?_⟩
  rw [hdrain]
  have hmatch : (reconcileLoop t' after).1.drain.timerPumping = true ↔
      (reconcileLoop t' after).2.2.owner = true := by
    rcases reconcileLoop_cases t' after with ⟨-, heq⟩ | ⟨-, -, heq⟩ | ⟨-, -, heq⟩
    · rw [heq]
      exact iff_of_false Bool.false_ne_true (by rw [callback_owner]; exact Bool.false_ne_true)
    · rw [heq]
      exact iff_of_true hpumping rfl
    · rw [heq]
      exact iff_of_true hpumping rfl
  rw [hmatch]
  constructor
  · exact fun howner => ⟨i, hself.trans howner⟩
  · rintro ⟨j, hj⟩
    obtain rfl := honly j hj
    exact hself.symm.trans hj

theorem Owner.step (ho : Owner s) (i : Nat) (input : Input) : Owner (arbiter.step s i input) := by
  have hdrains := body_drains s.shared (s.pc i) input
  generalize hpc : s.pc i = pc at hdrains
  generalize hbody : body s.shared pc input = r at hdrains
  have hsame : r.2.2.owner = pc.owner → r.1.drain.timerPumping = s.shared.drain.timerPumping →
      Owner (arbiter.step s i input) := by
    intro howner hpumping
    refine ho.same ?_ ?_
    · rw [hpc, hbody]
      exact howner
    · rw [hpc, hbody]
      exact hpumping
  cases hdrains with
  | still => exact hsame rfl rfl
  | apart hapart _ howner =>
    exact hsame (hapart.owner.trans howner.symm) hapart.drain.timerPumping
  | busy after => exact hsame (callback_owner after) rfl
  | change _ _ hpumping _ howner howner' => exact hsame (howner'.trans howner.symm) hpumping
  | timeout => exact hsame rfl rfl
  | expired => exact hsame rfl rfl
  | loop hentry =>
    subst hpc
    exact ho.loop hentry hbody
  | failed => exact hsame rfl rfl
  | callback c next => cases next <;> exact hsame rfl rfl

end Owner

/-! ## Starts and ends -/

/-- What the notes so far say of the timer that is installed and of the registration. -/
structure Timers (l : List Note) (d : Drain) : Prop where
  startOnce : ∀ id, l.countP (Note.starts id) ≤ 1
  cancelOnce : ∀ id, l.countP (Note.cancels id) ≤ 1
  started : ∀ id, 0 < l.countP (Note.cancels id) → 0 < l.countP (Note.starts id)
  either : ∀ id, 0 < l.countP (Note.cancels id) → l.countP (Note.runsOut id) = 0
  /-- The ids that were started, and those that ran out, were given out. -/
  old : ∀ id, 0 < l.countP (Note.starts id) ∨ 0 < l.countP (Note.runsOut id) → id ≤ d.counter
  /-- The installed timer was started, and it has not been cancelled or run out. -/
  installed : d.timer ≠ 0 → 0 < l.countP (Note.starts d.timer) ∧
    l.countP (Note.cancels d.timer) = 0 ∧ l.countP (Note.runsOut d.timer) = 0
  /-- A registration whose timer was started has a timeout, and its timer is installed. -/
  current : ∀ r, d.registration = some r → 0 < l.countP (Note.starts r.id) →
    d.timer = r.id ∧ r.timeout ≠ 0
  settled : ∀ r, d.registration = some r →
    l.countP (Note.cancels r.id) = 0 ∧ l.countP (Note.runsOut r.id) = 0
  /-- What the backend has armed is installed; the installed timer is armed if it is that of the
  registration. -/
  armed : ∀ id, Armed l id → id ≠ 0 ∧ d.timer = id
  ready : ∀ r, d.registration = some r → d.timer = r.id → r.id ≠ 0 → Armed l r.id

namespace Timers

variable {l notes : List Note} {d d' : Drain}

/-- Nothing that starts or ends a timer. -/
def Idle (n : Note) : Prop :=
  (∀ id, n.starts id = false) ∧ (∀ id, n.cancels id = false) ∧ (∀ id, n.runsOut id = false) ∧
    ∀ id, ¬ n.Ends id

theorem count_idle (h : ∀ n ∈ notes, Idle n) (id : Nat) :
    (l ++ notes).countP (Note.starts id) = l.countP (Note.starts id) ∧
      (l ++ notes).countP (Note.cancels id) = l.countP (Note.cancels id) ∧
      (l ++ notes).countP (Note.runsOut id) = l.countP (Note.runsOut id) ∧
      (Armed (l ++ notes) id ↔ Armed l id) := by
  have hzero : ∀ {p : Note → Bool}, (∀ n ∈ notes, p n = false) →
      (l ++ notes).countP p = l.countP p := by
    intro p hp
    have hno : notes.countP p = 0 :=
      countP_eq_zero.mpr fun n hn => by rw [hp n hn]; exact Bool.false_ne_true
    rw [countP_append, hno, Nat.add_zero]
  refine ⟨hzero fun n hn => (h n hn).1 id, hzero fun n hn => (h n hn).2.1 id,
    hzero fun n hn => (h n hn).2.2.1 id, Outstanding.append_iff fun n hn => ⟨?_, (h n hn).2.2.2 id⟩⟩
  rw [(h n hn).1 id]
  decide

/-- The registration changes, to none or to one whose id is new; no timer is touched. -/
theorem idle (ht : Timers l d) (hnotes : ∀ n ∈ notes, Idle n)
    (hreg : d'.registration = d.registration ∨ d'.registration = none ∨
      ∃ r, d'.registration = some r ∧ d.counter < r.id)
    (htimer : d'.timer = d.timer) (hcounter : d.counter ≤ d'.counter) :
    Timers (l ++ notes) d' := by
  have hcount := count_idle (l := l) hnotes
  have hold : ∀ {r}, d'.registration = some r → d.registration = some r ∨ d.counter < r.id := by
    intro r hr
    rcases hreg with hsame | hnone | ⟨r', hsome, hnew⟩
    · exact .inl (hsame ▸ hr)
    · rw [hnone] at hr
      cases hr
    · cases hsome.symm.trans hr
      exact .inr hnew
  have hfresh : ∀ {id}, d.counter < id →
      l.countP (Note.starts id) = 0 ∧ l.countP (Note.runsOut id) = 0 := by
    intro id hid
    constructor
    · by_contra hne
      have := ht.old id (.inl (Nat.pos_of_ne_zero hne))
      omega
    · by_contra hne
      have := ht.old id (.inr (Nat.pos_of_ne_zero hne))
      omega
  refine ⟨fun id => ?_, fun id => ?_, fun id => ?_, fun id => ?_, fun id => ?_, ?_, fun r hr => ?_,
    fun r hr => ?_, fun id => ?_, fun r hr => ?_⟩
  · rw [(hcount id).1]
    exact ht.startOnce id
  · rw [(hcount id).2.1]
    exact ht.cancelOnce id
  · rw [(hcount id).1, (hcount id).2.1]
    exact ht.started id
  · rw [(hcount id).2.1, (hcount id).2.2.1]
    exact ht.either id
  · rw [(hcount id).1, (hcount id).2.2.1]
    exact fun h => Nat.le_trans (ht.old id h) hcounter
  · rw [htimer, (hcount _).1, (hcount _).2.1, (hcount _).2.2.1]
    exact ht.installed
  · rw [(hcount _).1, htimer]
    intro hpos
    rcases hold hr with hr | hnew
    · exact ht.current r hr hpos
    · rw [(hfresh hnew).1] at hpos
      exact absurd hpos (Nat.lt_irrefl 0)
  · rw [(hcount _).2.1, (hcount _).2.2.1]
    rcases hold hr with hr | hnew
    · exact ht.settled r hr
    · refine ⟨?_, (hfresh hnew).2⟩
      by_contra hne
      have := ht.started r.id (Nat.pos_of_ne_zero hne)
      rw [(hfresh hnew).1] at this
      exact Nat.lt_irrefl 0 this
  · rw [(hcount id).2.2.2, htimer]
    exact ht.armed id
  · rw [(hcount _).2.2.2, htimer]
    intro hinstalled hid
    rcases hold hr with hr | hnew
    · exact ht.ready r hr hinstalled hid
    · have hpos := (ht.installed (hinstalled ▸ hid)).1
      rw [hinstalled, (hfresh hnew).1] at hpos
      exact absurd hpos (Nat.lt_irrefl 0)

/-- A timer is started once for a registration: while it runs, the drain names it. -/
theorem start (ht : Timers l d) {r : Registration} (hr : d.registration = some r)
    (hid : r.id ≠ 0) (hle : r.id ≤ d.counter) (htimeout : r.timeout ≠ 0) (hzero : d.timer = 0)
    {delay : UInt32} {ops : TimerOps} (hreg : d'.registration = d.registration)
    (htimer : d'.timer = r.id) (hcounter : d'.counter = d.counter) :
    Timers (l ++ [.startCalled r.id delay ops]) d' := by
  have hnever : l.countP (Note.starts r.id) = 0 := by
    by_contra hne
    have hinstalled := (ht.current r hr (Nat.pos_of_ne_zero hne)).1
    exact hid (hinstalled.symm.trans hzero)
  obtain ⟨hcancels, hrunsOut⟩ := ht.settled r hr
  have hstarts : ∀ id, (l ++ [Note.startCalled r.id delay ops]).countP (Note.starts id) =
      l.countP (Note.starts id) + if r.id = id then 1 else 0 := by
    intro id
    rw [countP_append, countP_singleton]
    simp only [Note.starts, decide_eq_true_eq]
  have hother : ∀ id,
      (l ++ [Note.startCalled r.id delay ops]).countP (Note.cancels id) =
        l.countP (Note.cancels id) ∧
      (l ++ [Note.startCalled r.id delay ops]).countP (Note.runsOut id) =
        l.countP (Note.runsOut id) := fun id => ⟨countP_append, countP_append⟩
  have harmed : ∀ id, ¬ Armed l id := fun id h => (ht.armed id h).1
    ((ht.armed id h).2.symm.trans hzero)
  refine ⟨fun id => ?_, fun id => ?_, fun id => ?_, fun id => ?_, fun id => ?_, fun _ => ?_,
    fun r' hr' _ => ?_, fun r' hr' => ?_, fun id h => ?_, fun r' hr' hinstalled hid' => ?_⟩
  · rw [hstarts]
    by_cases heq : r.id = id
    · subst heq
      exact Nat.le_of_eq (by rw [hnever, if_pos rfl])
    · rw [if_neg heq]
      exact ht.startOnce id
  · rw [(hother id).1]
    exact ht.cancelOnce id
  · rw [(hother id).1, hstarts]
    exact fun h => Nat.lt_of_lt_of_le (ht.started id h) (Nat.le_add_right _ _)
  · rw [(hother id).1, (hother id).2]
    exact ht.either id
  · rw [hstarts, (hother id).2, hcounter]
    rintro (h | h)
    · by_cases heq : r.id = id
      · exact heq ▸ hle
      · rw [if_neg heq] at h
        exact ht.old id (.inl h)
    · exact ht.old id (.inr h)
  · rw [htimer, hstarts, (hother _).1, (hother _).2, if_pos rfl]
    exact ⟨Nat.succ_pos _, hcancels, hrunsOut⟩
  · rw [hreg] at hr'
    cases hr.symm.trans hr'
    exact ⟨htimer, htimeout⟩
  · rw [(hother _).1, (hother _).2]
    exact ht.settled r' (hreg ▸ hr')
  · rcases Outstanding.concat.mp h with hopens | ⟨hbefore, -⟩
    · obtain rfl : r.id = id := of_decide_eq_true hopens
      exact ⟨hid, htimer⟩
    · exact absurd hbefore (harmed id)
  · rw [hreg] at hr'
    cases hr.symm.trans hr'
    exact Outstanding.concat.mpr (.inl (decide_eq_true rfl))

/-- A note that ends a timer, at the installed one or not; the registration has another id, or it is
dropped. -/
theorem finish (ht : Timers l d) (id : Nat) {n : Note} (hends : n.Ends id)
    (hcancels : n.cancels id = true → 0 < l.countP (Note.starts id) ∧
      l.countP (Note.cancels id) = 0 ∧ l.countP (Note.runsOut id) = 0)
    (hreg : ∀ r, d'.registration = some r → d.registration = some r ∧ r.id ≠ id)
    (htimer : d'.timer = if d.timer = id then 0 else d.timer) (hcounter : d'.counter = d.counter) :
    Timers (l ++ [n]) d' := by
  have hstarts : ∀ m, n.starts m = false := by
    intro m
    cases n <;> first | rfl | exact False.elim hends
  have hrunsOut : ∀ m, n.runsOut m = false := by
    intro m
    cases n <;> first | rfl | exact False.elim hends
  have hother : ∀ m, m ≠ id → n.cancels m = false ∧ ¬ n.Ends m := by
    intro m hm
    cases n with
    | cancelCalled k =>
      obtain rfl : k = id := hends
      exact ⟨decide_eq_false (Ne.symm hm), fun h : k = m => hm h.symm⟩
    | startReturned k =>
      obtain ⟨rfl, -⟩ : k = id ∧ _ := hends
      exact ⟨rfl, fun h => hm h.1.symm⟩
    | expired k =>
      obtain rfl : k = id := hends
      exact ⟨rfl, fun h : k = m => hm h.symm⟩
    | _ => exact False.elim hends
  have hcountStarts : ∀ m, (l ++ [n]).countP (Note.starts m) = l.countP (Note.starts m) := by
    intro m
    rw [countP_append, countP_singleton, hstarts, if_neg Bool.false_ne_true]
    rfl
  have hcountRuns : ∀ m, (l ++ [n]).countP (Note.runsOut m) = l.countP (Note.runsOut m) := by
    intro m
    rw [countP_append, countP_singleton, hrunsOut, if_neg Bool.false_ne_true]
    rfl
  have hcountCancels : ∀ m, m ≠ id →
      (l ++ [n]).countP (Note.cancels m) = l.countP (Note.cancels m) := by
    intro m hm
    rw [countP_append, countP_singleton, (hother m hm).1, if_neg Bool.false_ne_true]
    rfl
  have harmed : ∀ m, Armed (l ++ [n]) m ↔ m ≠ id ∧ Armed l m := by
    intro m
    rw [Armed, Outstanding.concat, hstarts]
    constructor
    · rintro (h | ⟨h, hno⟩)
      · cases h
      · exact ⟨fun heq => hno (heq ▸ hends), h⟩
    · rintro ⟨hm, h⟩
      exact .inr ⟨h, (hother m hm).2⟩
  -- The ticket that ends, if a cancel ends it.
  have hself : (l ++ [n]).countP (Note.cancels id) = l.countP (Note.cancels id) ∨
      ((l ++ [n]).countP (Note.cancels id) = 1 ∧ 0 < l.countP (Note.starts id) ∧
        l.countP (Note.runsOut id) = 0) := by
    rw [countP_append, countP_singleton]
    by_cases hc : n.cancels id = true
    · obtain ⟨hpos, hzero, hruns⟩ := hcancels hc
      rw [if_pos hc, hzero]
      exact .inr ⟨rfl, hpos, hruns⟩
    · rw [if_neg hc]
      exact .inl rfl
  refine ⟨fun m => ?_, fun m => ?_, fun m => ?_, fun m => ?_, fun m => ?_, fun hne => ?_,
    fun r hr => ?_, fun r hr => ?_, fun m hm => ?_, fun r hr hinstalled hid => ?_⟩
  · rw [hcountStarts]
    exact ht.startOnce m
  · by_cases hm : m = id
    · subst hm
      rcases hself with hsame | ⟨hone, -⟩
      · rw [hsame]
        exact ht.cancelOnce m
      · exact Nat.le_of_eq hone
    · rw [hcountCancels m hm]
      exact ht.cancelOnce m
  · rw [hcountStarts]
    by_cases hm : m = id
    · subst hm
      rcases hself with hsame | ⟨-, hpos, -⟩
      · rw [hsame]
        exact ht.started m
      · exact fun _ => hpos
    · rw [hcountCancels m hm]
      exact ht.started m
  · rw [hcountRuns]
    by_cases hm : m = id
    · subst hm
      rcases hself with hsame | ⟨-, -, hruns⟩
      · rw [hsame]
        exact ht.either m
      · exact fun _ => hruns
    · rw [hcountCancels m hm]
      exact ht.either m
  · rw [hcountStarts, hcountRuns, hcounter]
    exact ht.old m
  · have hkeep : d.timer ≠ id ∧ d'.timer = d.timer := by
      rw [htimer] at hne ⊢
      split at hne
      · exact absurd rfl hne
      · next h => exact ⟨h, if_neg h⟩
    rw [hkeep.2] at hne ⊢
    rw [hcountStarts, hcountRuns, hcountCancels _ hkeep.1]
    exact ht.installed hne
  · obtain ⟨hr, hne⟩ := hreg r hr
    rw [hcountStarts, htimer]
    intro hpos
    obtain ⟨hinstalled, htimeout⟩ := ht.current r hr hpos
    rw [if_neg (hinstalled ▸ hne)]
    exact ⟨hinstalled, htimeout⟩
  · obtain ⟨hr, hne⟩ := hreg r hr
    rw [hcountRuns, hcountCancels _ hne]
    exact ht.settled r hr
  · obtain ⟨hne, hm⟩ := (harmed m).mp hm
    obtain ⟨hzero, hinstalled⟩ := ht.armed m hm
    rw [htimer, if_neg (hinstalled ▸ hne)]
    exact ⟨hzero, hinstalled⟩
  · obtain ⟨hr, hne⟩ := hreg r hr
    refine (harmed r.id).mpr ⟨hne, ht.ready r hr ?_ hid⟩
    rw [htimer] at hinstalled
    split at hinstalled
    · exact absurd hinstalled.symm hid
    · exact hinstalled

/-- A claim whose timer is not installed any more has let it run out. -/
theorem runOut (ht : Timers l d) {id : Nat} (hcancels : l.countP (Note.cancels id) = 0)
    (hle : id ≤ d.counter) (hnone : d.registration = none) (htimer : d.timer ≠ id) (code : Int)
    (e : Bool) : Timers (l ++ [.claimed id code e]) d := by
  have hsame : ∀ m, (l ++ [Note.claimed id code e]).countP (Note.starts m) =
        l.countP (Note.starts m) ∧
      (l ++ [Note.claimed id code e]).countP (Note.cancels m) = l.countP (Note.cancels m) :=
    fun m => ⟨countP_append, countP_append⟩
  have hruns : ∀ m, m ≠ id → (l ++ [Note.claimed id code e]).countP (Note.runsOut m) =
      l.countP (Note.runsOut m) := by
    intro m hm
    rw [countP_append, countP_singleton, Note.runsOut,
      decide_eq_false fun h => hm h.1.symm, if_neg Bool.false_ne_true]
    rfl
  have harmed : ∀ m, Armed (l ++ [.claimed id code e]) m ↔ Armed l m := by
    intro m
    rw [Armed, Outstanding.concat]
    constructor
    · rintro (h | ⟨h, -⟩)
      · cases h
      · exact h
    · exact fun h => .inr ⟨h, fun hends => hends⟩
  refine ⟨fun m => ?_, fun m => ?_, fun m => ?_, fun m => ?_, fun m => ?_, fun hne => ?_,
    fun r hr => ?_, fun r hr => ?_, fun m hm => ht.armed m ((harmed m).mp hm), fun r hr => ?_⟩
  · rw [(hsame m).1]
    exact ht.startOnce m
  · rw [(hsame m).2]
    exact ht.cancelOnce m
  · rw [(hsame m).1, (hsame m).2]
    exact ht.started m
  · rw [(hsame m).2]
    intro hpos
    have hm : m ≠ id := by
      rintro rfl
      rw [hcancels] at hpos
      exact Nat.lt_irrefl 0 hpos
    rw [hruns m hm]
    exact ht.either m hpos
  · rw [(hsame m).1]
    by_cases hm : m = id
    · exact fun _ => hm ▸ hle
    · rw [hruns m hm]
      exact ht.old m
  · rw [(hsame _).1, (hsame _).2, hruns _ htimer]
    exact ht.installed hne
  all_goals
    rw [hnone] at hr
    cases hr

/-- The backend reports an expiry that is not of the registration's installed timer. -/
theorem lapse (ht : Timers l d) {id : Nat} (hstale : ∀ r, d.registration = some r →
    ¬ (id ≠ 0 ∧ r.id = id ∧ d.timer = id)) : Timers (l ++ [.expired id]) d := by
  have hsame : ∀ m, (l ++ [Note.expired id]).countP (Note.starts m) = l.countP (Note.starts m) ∧
      (l ++ [Note.expired id]).countP (Note.cancels m) = l.countP (Note.cancels m) ∧
      (l ++ [Note.expired id]).countP (Note.runsOut m) = l.countP (Note.runsOut m) :=
    fun m => ⟨countP_append, countP_append, countP_append⟩
  refine ⟨fun m => ?_, fun m => ?_, fun m => ?_, fun m => ?_, fun m => ?_, fun hne => ?_,
    fun r hr => ?_, fun r hr => ?_, fun m hm => ?_, fun r hr hinstalled hid => ?_⟩
  · rw [(hsame m).1]
    exact ht.startOnce m
  · rw [(hsame m).2.1]
    exact ht.cancelOnce m
  · rw [(hsame m).1, (hsame m).2.1]
    exact ht.started m
  · rw [(hsame m).2.1, (hsame m).2.2]
    exact ht.either m
  · rw [(hsame m).1, (hsame m).2.2]
    exact ht.old m
  · rw [(hsame _).1, (hsame _).2.1, (hsame _).2.2]
    exact ht.installed hne
  · rw [(hsame _).1]
    exact ht.current r hr
  · rw [(hsame _).2.1, (hsame _).2.2]
    exact ht.settled r hr
  · rcases Outstanding.concat.mp hm with hopens | ⟨hbefore, -⟩
    · cases hopens
    · exact ht.armed m hbefore
  · refine Outstanding.concat.mpr (.inr ⟨ht.ready r hr hinstalled hid, fun hends : id = r.id => ?_⟩)
    subst hends
    exact hstale r hr ⟨hid, rfl, hinstalled⟩

end Timers

/-! ## Over a run -/

theorem Registry.le_counter {l : List Note} {d : Drain} {owed : Nat → List Claim}
    (hr : Registry l d owed) {r : Registration} (hsome : d.registration = some r) :
    r.id ≤ d.counter := by
  by_contra hlt
  have hbalance := hr.balance r.id
  rw [hr.fresh r.id (Nat.not_le.mp hlt), Drain.holds_some hsome, if_pos rfl] at hbalance
  omega

theorem Drain.desired_ne_zero {d : Drain} (h : d.desired ≠ 0) :
    ∃ r, d.registration = some r ∧ r.timeout ≠ 0 ∧ d.desired = r.id := by
  rw [desired] at h ⊢
  split at h
  · next htimeout =>
    rw [if_pos htimeout]
    rw [timeout] at htimeout
    rw [Drain.id] at h ⊢
    cases hr : d.registration with
    | none =>
      rw [hr] at h
      exact absurd rfl h
    | some r =>
      rw [hr] at htimeout
      exact ⟨r, rfl, htimeout, rfl⟩
  · exact absurd rfl h

theorem Drain.desired_some {d : Drain} {r : Registration} (hsome : d.registration = some r)
    (htimeout : r.timeout ≠ 0) : d.desired = r.id := by
  rw [desired, timeout, Drain.id, hsome]
  exact if_pos htimeout

section Run

variable {h : History} {s : Threads.State Shared Pc} {t t' : Shared} {pc : Pc} {i : Nat}
  {l notes : List Note} {d d' : Drain} {owed : Nat → List Claim} {after : Option Claim}
  {input : Input}

theorem Change.idle {empty : Bool} {claims : List Claim} (h : Change d d' empty notes claims) :
    ∀ n ∈ notes, Timers.Idle n := by
  have harmed : ∀ id, Timers.Idle (.armed id) :=
    fun id => ⟨fun _ => rfl, fun _ => rfl, fun _ => rfl, fun _ hends => hends⟩
  have hclaimed : ∀ (c : Claim) (e : Bool), c.result = 0 →
      Timers.Idle (.claimed c.id c.result e) := by
    intro c e hzero
    refine ⟨fun _ => rfl, fun _ => rfl, fun _ => decide_eq_false ?_, fun _ hends => hends⟩
    rintro ⟨-, hresult⟩
    rw [hzero] at hresult
    exact absurd hresult (by decide)
  cases h with
  | keep => exact fun _ hn => absurd hn not_mem_nil
  | drop => exact fun _ hn => absurd hn not_mem_nil
  | arm _ r =>
    intro n hn
    rw [mem_singleton.mp hn]
    exact harmed r.id
  | armEmpty c _ _ hzero =>
    intro n hn
    rcases mem_cons.mp hn with rfl | hn
    · exact harmed c.id
    · rw [mem_singleton.mp hn]
      exact hclaimed c true hzero
  | clear _ r =>
    intro n hn
    rw [mem_singleton.mp hn]
    exact ⟨fun _ => rfl, fun _ => rfl, fun _ => rfl, fun _ hends => hends⟩
  | claim _ c _ hzero =>
    intro n hn
    rw [mem_singleton.mp hn]
    exact hclaimed c true hzero

theorem Timers.change (ht : Timers l d) {empty : Bool} {claims : List Claim}
    (h : Change d d' empty notes claims) (htimer : d'.timer = d.timer) :
    Timers (l ++ notes) d' := by
  have hidle := h.idle
  cases h with
  | keep _ hsame hcounter => exact ht.idle hidle (.inl hsame) htimer (Nat.le_of_eq hcounter.symm)
  | drop _ hnone hcounter =>
    exact ht.idle hidle (.inr (.inl hnone)) htimer (Nat.le_of_eq hcounter.symm)
  | arm _ r _ hid hsome hcounter =>
    refine ht.idle hidle (.inr (.inr ⟨r, hsome, ?_⟩)) htimer ?_
    · rw [hid]
      exact Nat.lt_succ_self _
    · rw [hcounter]
      exact Nat.le_succ _
  | armEmpty c _ _ _ hsame hcounter =>
    refine ht.idle hidle (.inl hsame) htimer ?_
    rw [hcounter]
    exact Nat.le_succ _
  | clear _ r _ hnone hcounter =>
    exact ht.idle hidle (.inr (.inl hnone)) htimer (Nat.le_of_eq hcounter.symm)
  | claim _ _ _ _ _ hnone hcounter =>
    exact ht.idle hidle (.inr (.inl hnone)) htimer (Nat.le_of_eq hcounter.symm)

theorem Timers.entry (ht : Timers l t.drain) (h : Entry t after pc t' notes) :
    Timers (l ++ notes) t'.drain := by
  have hsame : (∀ n ∈ notes, Timers.Idle n) → t'.drain.registration = t.drain.registration →
      t'.drain.timer = t.drain.timer → t'.drain.counter = t.drain.counter →
      Timers (l ++ notes) t'.drain :=
    fun hidle hreg htimer hcounter =>
      ht.idle hidle (.inl hreg) htimer (Nat.le_of_eq hcounter.symm)
  cases h with
  | reconcile => exact hsame (fun _ hn => absurd hn not_mem_nil) rfl rfl rfl
  | cancelled id =>
    refine hsame (fun n hn => ?_) rfl rfl rfl
    rw [mem_singleton.mp hn]
    exact ⟨fun _ => rfl, fun _ => rfl, fun _ => rfl, fun _ hends => hends⟩
  | again => exact hsame (fun _ hn => absurd hn not_mem_nil) rfl rfl rfl
  | started id rc hrc =>
    refine hsame (fun n hn => ?_) rfl rfl rfl
    rw [mem_singleton.mp hn]
    exact ⟨fun _ => rfl, fun _ => rfl, fun _ => rfl, fun _ hends => Int.not_lt.mpr hrc hends.2⟩
  | failed id rc hrc hother =>
    refine ht.finish id ⟨rfl, hrc⟩ (fun hcancels => by cases hcancels) ?_ ?_ ?_
    · intro r hr
      have hsome : t.drain.registration = some r := by
        split at hr <;> exact hr
      exact ⟨hsome, hother r hsome⟩
    · split <;> rfl
    · split <;> rfl

theorem Timers.round (ht : Timers l t.drain) (hr : Registry l t.drain owed) :
    Timers (l ++ (reconcileLoop t after).2.1) (reconcileLoop t after).1.drain := by
  rcases reconcileLoop_cases t after with ⟨-, heq⟩ | ⟨hne, htimer, heq⟩ | ⟨hzero, hdesired, heq⟩
  · rw [heq]
    exact ht.idle (fun _ hn => absurd hn not_mem_nil) (.inl rfl) rfl (Nat.le_refl _)
  · rw [heq]
    have hinstalled := ht.installed htimer
    refine ht.finish t.drain.timer rfl (fun _ => hinstalled)
      (fun r (hsome : t.drain.registration = some r) => ?_) (if_pos rfl).symm rfl
    refine ⟨hsome, fun hid => hne ?_⟩
    have hcurrent := ht.current r hsome (hid ▸ hinstalled.1)
    rw [Drain.desired_some hsome hcurrent.2]
    exact hcurrent.1
  · rw [heq]
    obtain ⟨r, hsome, htimeout, hid⟩ := Drain.desired_ne_zero hdesired
    rw [hid]
    exact ht.start hsome (hr.positive r hsome) (hr.le_counter hsome) htimeout hzero rfl rfl rfl

theorem Timers.step (ht : Timers (book h) s.shared.drain)
    (hr : Registry (book h) s.shared.drain (owing s)) (i : Nat) (input : Input) :
    Timers (book (h ++ arbiter.notes s i input)) (arbiter.step s i input).shared.drain := by
  rw [book_step]
  show Timers _ (body s.shared (s.pc i) input).1.drain
  generalize hpc : s.pc i = pc
  generalize hbody : body s.shared pc input = r
  have hdrains : Drains s.shared pc r := hbody ▸ body_drains s.shared pc input
  have hnothing : Timers (book h ++ []) s.shared.drain := by rwa [append_nil]
  cases hdrains with
  | still => exact hnothing
  | apart hapart =>
    rw [hapart.notes]
    exact ht.idle (fun _ hn => absurd hn not_mem_nil) (.inl hapart.drain.registration)
      hapart.drain.timer (Nat.le_of_eq hapart.drain.counter.symm)
  | busy => exact hnothing
  | change hchange htimer => exact ht.change hchange htimer
  | timeout r hid hsome htimer =>
    have hexpired : Timers (book h ++ [.expired r.id])
        { s.shared.drain.clear with timer := 0 } :=
      ht.finish r.id rfl (fun hcancels => by cases hcancels) nofun (if_pos htimer).symm rfl
    have hcancels : (book h ++ [Note.expired r.id]).countP (Note.cancels r.id) = 0 := by
      rw [countP_append, (ht.settled r hsome).1]
      rfl
    have hrun := hexpired.runOut hcancels (hr.le_counter hsome) rfl (Ne.symm hid) (-ETIMEDOUT)
      s.shared.queues.empty
    rwa [append_assoc] at hrun
  | expired id hstale => exact ht.lapse hstale
  | @loop _ after t' notes hentry =>
    obtain ⟨hreg, hcounter, -, hnotes⟩ := hentry.registration
    obtain ⟨-, -, -, hnotes'⟩ := reconcileLoop_registration t' after
    rw [drainNotes_timer fun n hn => (mem_append.mp hn).elim (hnotes n) (hnotes' n),
      ← append_assoc]
    exact (ht.entry hentry).round (hr.timer hnotes (.inl hreg) hcounter)
  | failed id after rc r hrc hsome hid =>
    subst hid
    have hreturned : Timers (book h ++ [.startReturned r.id rc]) { s.shared.drain.clear with
        timer := if s.shared.drain.timer = r.id then 0 else s.shared.drain.timer } :=
      ht.finish r.id ⟨rfl, hrc⟩ (fun hcancels => by cases hcancels) nofun rfl rfl
    have hcancels : (book h ++ [Note.startReturned r.id rc]).countP (Note.cancels r.id) = 0 := by
      rw [countP_append, (ht.settled r hsome).1]
      rfl
    have htimer : (if s.shared.drain.timer = r.id then 0 else s.shared.drain.timer) ≠ r.id := by
      split
      · exact Ne.symm (hr.positive r hsome)
      · assumption
    have hrun := hreturned.runOut hcancels (hr.le_counter hsome) rfl htimer rc
      s.shared.queues.empty
    rwa [append_assoc] at hrun
  | callback c next =>
    refine ht.idle (fun n hn => ?_) (.inl rfl) rfl (Nat.le_refl _)
    rw [mem_singleton.mp (mem_filter.mp hn).1]
    exact ⟨fun _ => rfl, fun _ => rfl, fun _ => rfl, fun _ hends => hends⟩

theorem timers_run (d : Depth) (events : List (Nat × Input)) :
    Timers (book (noted d events)) (reached d events).shared.drain := by
  let Inv (h : History) (s : Threads.State Shared Pc) : Prop :=
    Registry (book h) s.shared.drain (owing s) ∧ Timers (book h) s.shared.drain
  have hstep : ∀ h s i input, Inv h s →
      Inv (h ++ arbiter.notes s i input) (arbiter.step s i input) :=
    fun _ _ i input ⟨hr, ht⟩ => ⟨hr.step i input, ht.step hr i input⟩
  have h0 : Inv [] (start d.slots) :=
    ⟨start_registry d.slots, fun _ => Nat.zero_le _, fun _ => Nat.zero_le _, nofun, nofun,
      fun _ hpos => by cases hpos <;> contradiction, fun hne => absurd rfl hne, nofun, nofun,
      fun _ harmed => absurd harmed Outstanding.nil, nofun⟩
  exact (Threads.history_invariant hstep h0 events).2

theorem owner_run (d : Depth) (events : List (Nat × Input)) : Owner (reached d events) := by
  refine Threads.run_invariant (fun s i input ho => ho.step i input) ?_ events
  refine ⟨nofun, iff_of_false Bool.false_ne_true ?_⟩
  rintro ⟨i, h⟩
  cases h

end Run

/-! ## Who takes care of the timer -/

/-- If the timer is not the one it should be, the reconciler runs or a thread is going to call
it. -/
def Minded (s : Threads.State Shared Pc) : Prop :=
  s.shared.drain.timer ≠ s.shared.drain.desired →
    s.shared.drain.timerPumping = true ∨ ∃ i, (s.pc i).Duty s.shared.queues

/-- A notification that is merged into a pump leaves no such timer to nobody: the reconciler runs,
or another thread is going to call it. -/
def Attended (s : Threads.State Shared Pc) (e : Nat × Input) : Prop :=
  ∀ rc, e.2 = .resume rc → s.pc e.1 = .enter → s.shared.queues.pumping = true →
    s.shared.drain.timer ≠ s.shared.drain.desired →
    s.shared.drain.timerPumping = true ∨ ∃ j, j ≠ e.1 ∧ (s.pc j).Duty s.shared.queues

section Minded

variable {s : Threads.State Shared Pc} {i : Nat} {input : Input} {q q' : Queues} {pc : Pc}
  {d d' : Drain}

theorem Pc.Duty.congr (hduty : pc.Duty q) (h : q'.lifetime = q.lifetime) : pc.Duty q' := by
  have hpump : ∀ {p : Pump}, ¬ p.outlived q → ¬ p.outlived q' := by
    intro p hlive
    rwa [Pump.outlived, h]
  unfold Pc.Duty at hduty ⊢
  split at hduty
  any_goals trivial
  obtain ⟨p, hp, hlive⟩ := hduty
  exact ⟨p, hp, hpump hlive⟩

theorem Drain.Same.desired (h : d.Same d') : d.desired = d'.desired := by
  rw [Drain.desired, Drain.desired, Drain.timeout, Drain.timeout, Drain.id, Drain.id,
    h.registration]

theorem Minded.self (h : (body s.shared (s.pc i) input).1.drain.timer ≠
        (body s.shared (s.pc i) input).1.drain.desired →
      (body s.shared (s.pc i) input).1.drain.timerPumping = true ∨
        (body s.shared (s.pc i) input).2.2.Duty (body s.shared (s.pc i) input).1.queues) :
    Minded (arbiter.step s i input) := by
  intro hne
  refine (h hne).imp_right fun hduty => ⟨i, ?_⟩
  rw [Threads.step_pc_self]
  exact hduty

/-- The section leaves the timer, and its thread goes on with what it has to do. -/
theorem Minded.keep (hm : Minded s)
    (hdrain : (body s.shared (s.pc i) input).1.drain.Same s.shared.drain)
    (hlifetime : (body s.shared (s.pc i) input).1.queues.lifetime = s.shared.queues.lifetime)
    (hduty : (s.pc i).Duty s.shared.queues → s.shared.drain.timer ≠ s.shared.drain.desired →
      (body s.shared (s.pc i) input).2.2.Duty (body s.shared (s.pc i) input).1.queues ∨
        s.shared.drain.timerPumping = true ∨ ∃ j, j ≠ i ∧ (s.pc j).Duty s.shared.queues) :
    Minded (arbiter.step s i input) := by
  intro hne
  change (body s.shared (s.pc i) input).1.drain.timer ≠
    (body s.shared (s.pc i) input).1.drain.desired at hne
  rw [hdrain.timer, hdrain.desired] at hne
  have hpumping : s.shared.drain.timerPumping = true →
      (arbiter.step s i input).shared.drain.timerPumping = true :=
    fun h => hdrain.timerPumping.trans h
  have hother : ∀ j, j ≠ i → (s.pc j).Duty s.shared.queues →
      ∃ k, ((arbiter.step s i input).pc k).Duty (arbiter.step s i input).shared.queues := by
    intro j hij hj
    refine ⟨j, ?_⟩
    rw [Threads.step_pc_of_ne hij]
    exact hj.congr hlifetime
  rcases hm hne with h | ⟨j, hj⟩
  · exact .inl (hpumping h)
  by_cases hij : j = i
  · subst hij
    rcases hduty hj hne with h | h | ⟨k, hk, h⟩
    · refine .inr ⟨j, ?_⟩
      rw [Threads.step_pc_self]
      exact h
    · exact .inl (hpumping h)
    · exact .inr (hother k hk h)
  · exact .inr (hother j hij hj)

theorem Minded.step (hm : Minded s) (ho : Owner s) (ha : Attended s (i, input)) :
    Minded (arbiter.step s i input) := by
  have hdrains := body_drains s.shared (s.pc i) input
  generalize hpc : s.pc i = pc at hdrains
  generalize hbody : body s.shared pc input = r at hdrains
  have hself : (r.1.drain.timer ≠ r.1.drain.desired →
      r.1.drain.timerPumping = true ∨ r.2.2.Duty r.1.queues) →
      Minded (arbiter.step s i input) := by
    intro h
    refine Minded.self ?_
    rw [hpc, hbody]
    exact h
  have hkeep : r.1.drain.Same s.shared.drain →
      r.1.queues.lifetime = s.shared.queues.lifetime →
      (pc.Duty s.shared.queues → s.shared.drain.timer ≠ s.shared.drain.desired →
        r.2.2.Duty r.1.queues ∨ s.shared.drain.timerPumping = true ∨
          ∃ j, j ≠ i ∧ (s.pc j).Duty s.shared.queues) →
      Minded (arbiter.step s i input) := by
    intro hdrain hlifetime hduty
    refine hm.keep ?_ ?_ ?_
    · rw [hpc, hbody]
      exact hdrain
    · rw [hpc, hbody]
      exact hlifetime
    · rw [hpc, hbody]
      exact hduty
  cases hdrains with
  | still => exact hkeep (.refl _) rfl fun hduty _ => .inl hduty
  | apart hapart _ _ hduty =>
    refine hkeep hapart.drain hapart.lifetime fun h hne => ?_
    rcases hduty h with hgoes | ⟨rfl, hpumping⟩
    · exact .inl hgoes
    -- The notification is merged.
    · cases input with
      | call c =>
        left
        rw [← hbody]
        trivial
      | resume rc => exact .inr (ha rc rfl hpc hpumping hne)
  | busy after hpumping => exact hself fun _ => .inl hpumping
  | change _ _ _ _ _ _ hduty => exact hself hduty
  | timeout => exact hself fun _ => .inr trivial
  | expired => exact hself fun _ => .inr trivial
  | @loop _ after t' notes hentry =>
    subst hpc
    have hpumping := ho.entry hentry
    refine hself fun hne => ?_
    rcases reconcileLoop_cases t' after with ⟨hsettled, heq⟩ | ⟨-, -, heq⟩ | ⟨-, -, heq⟩
    · rw [heq] at hne
      exact absurd hsettled hne
    · rw [heq]
      exact .inl hpumping
    · rw [heq]
      exact .inl hpumping
  | failed => exact hself fun _ => .inl (ho.pumping.mpr ⟨i, by rw [hpc]; rfl⟩)
  | callback c next =>
    refine hkeep (.refl _) rfl fun hduty _ => .inl ?_
    cases next with
    | reconcile => trivial
    | done => exact hduty
    | again after => exact hduty

end Minded

theorem minded_run (d : Depth) (events : List (Nat × Input))
    (hall : arbiter.machine.Throughout Attended (start d.slots) events) :
    Minded (reached d events) := by
  let Inv (_ : History) (s : Threads.State Shared Pc) : Prop := Owner s ∧ Minded s
  have hstep : ∀ h s i input, Inv h s → Attended s (i, input) →
      Inv (h ++ arbiter.notes s i input) (arbiter.step s i input) :=
    fun _ _ i input ⟨ho, hm⟩ ha => ⟨ho.step i input, hm.step ho ha⟩
  have h0 : Inv [] (start d.slots) := ⟨owner_run d [], fun hne => absurd rfl hne⟩
  exact (Threads.history_invariant_of (h := []) hstep h0 events hall).2

/-! ## The timer -/

/-- The thread is in the backend's `start` or `cancel`. -/
def Pc.InBackend : Pc → Prop
  | .cancelling _ _ => True
  | .starting _ _ => True
  | _ => False

theorem Pc.InBackend.owner {pc : Pc} (h : pc.InBackend) : pc.owner = true := by
  cases pc <;> first | rfl | exact False.elim h

/-- What is true of the backend's timer in a run. -/
structure Reconciled (d : Depth) (events : List (Nat × Input)) : Prop where
  /-- One thread at a time is in the backend's operations. -/
  exclusive : ∀ i j, ((reached d events).pc i).InBackend → ((reached d events).pc j).InBackend →
    i = j
  /-- A timer is started once and cancelled once, if it is. -/
  startOnce : ∀ id, (plain (noted d events)).countP (Note.starts id) ≤ 1
  cancelOnce : ∀ id, (plain (noted d events)).countP (Note.cancels id) ≤ 1
  started : ∀ id, 0 < (plain (noted d events)).countP (Note.cancels id) →
    0 < (plain (noted d events)).countP (Note.starts id)
  /-- It is not cancelled if it runs out with a callback. -/
  either : ∀ id, .callback id (-ETIMEDOUT) ∈ plain (noted d events) →
    (plain (noted d events)).countP (Note.cancels id) = 0
  /-- When no call is under way, what is armed is the timer of the registration. -/
  quiescent : arbiter.machine.Throughout Attended (start d.slots) events →
    (∀ i, (reached d events).pc i = .idle) → ∀ id, Armed (plain (noted d events)) id ↔
      ∃ r, (reached d events).shared.drain.registration = some r ∧ r.id = id ∧ r.timeout ≠ 0

theorem countP_book {p : Note → Bool} (h : ∀ n, p n = true → n.drains = true) (l : History) :
    (book l).countP p = (plain l).countP p := by
  rw [book, drainNotes, countP_filter]
  refine countP_congr fun n _ => ?_
  rw [Bool.and_eq_true]
  exact and_iff_left_of_imp (h n)

theorem armed_book (l : History) (id : Nat) : Armed (book l) id ↔ Armed (plain l) id := by
  refine Outstanding.filter_iff fun n hn => ?_
  cases n
  case startCalled | startReturned | cancelCalled | expired => rfl
  all_goals rcases hn with hopens | hends
  all_goals first | cases hopens | exact False.elim hends

/-- **The timer is reconciled**, in every run. -/
theorem timer_reconciled (d : Depth) (events : List (Nat × Input)) : Reconciled d events := by
  have ht := timers_run d events
  have hr := registry_run d events
  have hstarts : ∀ id, (book (noted d events)).countP (Note.starts id) =
      (plain (noted d events)).countP (Note.starts id) := fun id =>
    countP_book (fun n hn => by cases n <;> first | rfl | cases hn) _
  have hcancels : ∀ id, (book (noted d events)).countP (Note.cancels id) =
      (plain (noted d events)).countP (Note.cancels id) := fun id =>
    countP_book (fun n hn => by cases n <;> first | rfl | cases hn) _
  refine ⟨fun i j hi hj => (owner_run d events).one i j hi.owner hj.owner, fun id => ?_,
    fun id => ?_, fun id => ?_, fun id hcallback => ?_, fun hall hidle id => ?_⟩
  · rw [← hstarts]
    exact ht.startOnce id
  · rw [← hcancels]
    exact ht.cancelOnce id
  · rw [← hstarts, ← hcancels]
    exact ht.started id
  · rw [← hcancels]
    obtain ⟨e, he⟩ := hr.callback id _ (mem_filter.mpr ⟨hcallback, rfl⟩)
    have hruns : 0 < (book (noted d events)).countP (Note.runsOut id) :=
      countP_pos_iff.mpr ⟨_, he, decide_eq_true ⟨rfl, rfl⟩⟩
    by_contra hne
    rw [ht.either id (Nat.pos_of_ne_zero hne)] at hruns
    exact Nat.lt_irrefl 0 hruns
  · have hsettled : (reached d events).shared.drain.timer =
        (reached d events).shared.drain.desired := by
      by_contra hne
      rcases minded_run d events hall hne with hpumping | ⟨i, hduty⟩
      · obtain ⟨i, howner⟩ := (owner_run d events).pumping.mp hpumping
        rw [hidle] at howner
        cases howner
      · rw [hidle] at hduty
        obtain ⟨p, hp, -⟩ := hduty
        cases hp
    rw [← armed_book]
    constructor
    · intro harmed
      obtain ⟨hid, htimer⟩ := ht.armed id harmed
      rw [hsettled] at htimer
      obtain ⟨r, hsome, htimeout, hdesired⟩ := Drain.desired_ne_zero (htimer ▸ hid)
      exact ⟨r, hsome, hdesired.symm.trans htimer, htimeout⟩
    · rintro ⟨r, hsome, rfl, htimeout⟩
      refine ht.ready r hsome ?_ (hr.positive r hsome)
      rw [hsettled, Drain.desired_some hsome htimeout]

/-- The send of a response is refused, and a registration is made with a timeout. -/
def keptArmed : List (Nat × Input) :=
  [(0, .call (.setTimerOps ⟨some 1, some 2, 0⟩)),
    (0, .call (.linkState (some .ble) true 1)), (0, .resume 0), (0, .resume 0), (0, .resume 0),
    (1, .call (.enqueueResponseForLink (some .ble) (some [79, 75, 10]) 0 7)), (1, .resume 0),
    (1, .resume 0), (1, .resume 0), (1, .resume (-11)), (1, .resume 0), (1, .resume 0),
    (2, .call (.arm (some 9) 0 100 true)), (2, .resume 0), (2, .resume 0)]

theorem timer_reconciled_kept : Armed (plain (noted ⟨8, by decide⟩ keptArmed)) 1 := by
  have hidle : ∀ i, (reached ⟨8, by decide⟩ keptArmed).pc i = .idle := by
    refine reached_idle (n := 3) (by decide) fun i hi => ?_
    match i, hi with
    | 0, _ => rfl
    | 1, _ => rfl
    | 2, _ => rfl
  have ha : ∀ {s : Threads.State Shared Pc} {e : Nat × Input},
      (s.pc e.1 = .enter → s.shared.queues.pumping = false) → Attended s e := by
    intro s e h rc _ henter hpumping
    rw [h henter] at hpumping
    cases hpumping
  have hall : arbiter.machine.Throughout Attended (start 8) keptArmed := by
    refine ⟨ha ?_, ha ?_, ha ?_, ha ?_, ha ?_, ha ?_, ha ?_, ha ?_, ha ?_, ha ?_, ha ?_, ha ?_,
      ha ?_, ha ?_, ha ?_, trivial⟩
    all_goals first | exact fun _ => rfl | exact fun h => Pc.noConfusion h
  have hsome : (reached ⟨8, by decide⟩ keptArmed).shared.drain.registration =
      some ⟨1, 9, 0, 100⟩ := rfl
  exact ((timer_reconciled ⟨8, by decide⟩ keptArmed).quiescent hall hidle 1).mpr
    ⟨_, hsome, rfl, by decide⟩

/-- A response is being sent when `btsensor_tx_deinit` is called. A link comes up again, a response
is queued and a registration made with a timeout, and the link goes down. -/
def cutOff : List (Nat × Input) :=
  [(0, .call (.setTimerOps ⟨some 1, some 2, 0⟩)),
    (0, .call (.linkState (some .ble) true 1)), (0, .resume 0), (0, .resume 0), (0, .resume 0),
    (1, .call (.enqueueResponseForLink (some .ble) (some [79, 75, 10]) 0 7)), (1, .resume 0),
    (1, .resume 0), (1, .resume 0), (2, .call .deinit),
    (2, .call (.linkState (some .ble) true 2)), (2, .resume 0),
    (2, .call (.enqueueResponseForLink (some .ble) (some [79, 75, 10]) 0 7)), (2, .resume 0),
    (2, .call (.arm (some 9) 0 100 true)), (2, .resume 0), (2, .resume 0),
    (2, .call (.linkState (some .ble) false 2)), (2, .resume 0), (1, .resume 0)]

/-- The last notification is merged into the pump that was cut off: the timer stays armed. -/
theorem timer_left_armed :
    ¬ ∀ (d : Depth) (events : List (Nat × Input)), (∀ i, (reached d events).pc i = .idle) →
      ∀ id, Armed (plain (noted d events)) id ↔
        ∃ r, (reached d events).shared.drain.registration = some r ∧ r.id = id ∧
          r.timeout ≠ 0 := by
  intro hclaim
  have hidle : ∀ i, (reached ⟨8, by decide⟩ cutOff).pc i = .idle := by
    refine reached_idle (n := 3) (by decide) fun i hi => ?_
    match i, hi with
    | 0, _ => rfl
    | 1, _ => rfl
    | 2, _ => rfl
  let x : Slot := ⟨[79, 75, 10], ⟨1, 7, 1, .ble, true⟩⟩
  let y : Slot := ⟨[79, 75, 10], ⟨2, 7, 2, .ble, true⟩⟩
  have hplain : plain (noted ⟨8, by decide⟩ cutOff) =
      [.rc 0, .announced .ble true 1, .entered, .finished, .admitted .response x, .rc 0, .entered,
        .selected .response x, .handed .response x, .removed .response x .reset,
        .announced .ble true 2, .merged, .admitted .response y, .rc 0, .merged, .armed 1, .rc 0] ++
      .startCalled 1 100 ⟨some 1, some 2, 0⟩ ::
      [.startReturned 1 0, .announced .ble false 2, .removed .response y .discarded, .merged,
        .result .response x 0] := rfl
  have harmed : Armed (plain (noted ⟨8, by decide⟩ cutOff)) 1 := by
    refine ⟨_, _, _, hplain, rfl, ?_⟩
    simp [Note.Ends]
  obtain ⟨r, hsome, -⟩ := (hclaim ⟨8, by decide⟩ cutOff hidle 1).mp harmed
  cases hsome

end Brickwright.Btsensor.Tx
