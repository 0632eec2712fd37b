import Brickwright.Btsensor.Tx.Delivery

/-!
# What a section does to the registration and its timer

`Drains` lists it all, and every section is in it (`body_drains`): it leaves them alone, it makes,
drops or claims a registration and leaves the timer, the timer expires, the reconciler's owner goes
on with its loop, or a callback is called.
-/

namespace Brickwright.Btsensor.Tx

open List

/-- A note of the registration or of its timer. -/
def Note.drains : Note → Bool
  | .armed _ => true
  | .cleared _ => true
  | .claimed _ _ _ => true
  | .callback _ _ => true
  | .startCalled _ _ _ => true
  | .startReturned _ _ => true
  | .cancelCalled _ _ _ => true
  | .cancelReturned _ => true
  | .expired _ => true
  | _ => false

abbrev drainNotes (notes : List Note) : List Note := notes.filter Note.drains

/-- The claims whose callbacks a thread still has to call. -/
def Next.owed : Next → List Claim
  | .again after => after.toList
  | _ => []

def Pc.owed : Pc → List Claim
  | .reconcile after => after.toList
  | .cancelling _ after => after.toList
  | .starting _ after => after.toList
  | .deliver c next => c :: next.owed
  | .delivering next => next.owed
  | _ => []

/-- The thread is in the loop of `reconcile_timer`. -/
def Pc.owner : Pc → Bool
  | .cancelling _ _ => true
  | .starting _ _ => true
  | .deliver _ (.again _) => true
  | .delivering (.again _) => true
  | _ => false

/-- The thread is going to call `reconcile_timer`, or the pump it runs is, or the pump it is about
to call. -/
def Pc.Duty (q : Queues) : Pc → Prop
  | .enter => True
  | .drained => True
  | .reconcile _ => True
  | .deliver _ .reconcile => True
  | .delivering .reconcile => True
  | pc => ∃ p, pc.running = some p ∧ ¬ p.outlived q

/-- Nothing but the timer's functions differs. -/
structure Drain.Same (d d' : Drain) : Prop where
  registration : d.registration = d'.registration
  counter : d.counter = d'.counter
  timer : d.timer = d'.timer
  timerPumping : d.timerPumping = d'.timerPumping

theorem Drain.Same.refl (d : Drain) : d.Same d := ⟨rfl, rfl, rfl, rfl⟩

/-- A section that leaves the registration and its timer alone. -/
structure Apart (t : Shared) (r : Shared × List Note × Pc) : Prop where
  drain : r.1.drain.Same t.drain
  lifetime : r.1.queues.lifetime = t.queues.lifetime
  notes : drainNotes r.2.1 = []
  owed : r.2.2.owed = []
  owner : r.2.2.owner = false

/-- What becomes of the registration while its timer is left to the reconciler. -/
inductive Change (d d' : Drain) : Bool → List Note → List Claim → Prop where
  | keep (empty : Bool) (hsame : d'.registration = d.registration)
      (hcounter : d'.counter = d.counter) : Change d d' empty [] []
  /-- It is dropped with what is queued. -/
  | drop (empty : Bool) (hnone : d'.registration = none) (hcounter : d'.counter = d.counter) :
      Change d d' empty [] []
  | arm (empty : Bool) (r : Registration) (hfree : d.id = 0) (hid : r.id = d.counter + 1)
      (hsome : d'.registration = some r) (hcounter : d'.counter = d.counter + 1) :
      Change d d' empty [.armed r.id] []
  /-- With nothing queued it is claimed at once. -/
  | armEmpty (c : Claim) (hfree : d.id = 0) (hid : c.id = d.counter + 1) (hzero : c.result = 0)
      (hsame : d'.registration = d.registration) (hcounter : d'.counter = d.counter + 1) :
      Change d d' true [.armed c.id, .claimed c.id c.result true] [c]
  | clear (empty : Bool) (r : Registration) (hsome : d.registration = some r)
      (hnone : d'.registration = none) (hcounter : d'.counter = d.counter) :
      Change d d' empty [.cleared r.id] []
  | claim (r : Registration) (c : Claim) (hid : c.id = r.id) (hzero : c.result = 0)
      (hsome : d.registration = some r) (hnone : d'.registration = none)
      (hcounter : d'.counter = d.counter) :
      Change d d' true [.claimed c.id c.result true] [c]

/-- How a thread comes to the head of the reconciler's loop: what it has noted on the way, and the
state there. -/
inductive Entry (t : Shared) (after : Option Claim) : Pc → Shared → List Note → Prop where
  | reconcile (hfree : t.drain.timerPumping = false) :
      Entry t after (.reconcile after) { t with drain := { t.drain with timerPumping := true } } []
  | cancelled (id : Nat) : Entry t after (.cancelling id after) t [.cancelReturned id]
  | again : Entry t after (.delivering (.again after)) t []
  | started (id : Nat) (rc : Int) (hrc : 0 ≤ rc) :
      Entry t after (.starting id after) t [.startReturned id rc]
  /-- The start has failed, of a registration that is not the current one. -/
  | failed (id : Nat) (rc : Int) (hrc : rc < 0)
      (hother : ∀ r, t.drain.registration = some r → r.id ≠ id) :
      Entry t after (.starting id after)
        (if t.drain.timer = id then { t with drain := { t.drain with timer := 0 } } else t)
        [.startReturned id rc]

inductive Drains (t : Shared) : Pc → Shared × List Note × Pc → Prop where
  | still (pc : Pc) : Drains t pc (t, [], pc)
  | apart {pc : Pc} {r : Shared × List Note × Pc} (h : Apart t r) (howed : pc.owed = [])
      (howner : pc.owner = false)
      (hduty : pc.Duty t.queues → r.2.2.Duty r.1.queues ∨
        (pc = .enter ∧ t.queues.pumping = true)) :
      Drains t pc r
  /-- Another thread is in the reconciler's loop. -/
  | busy (after : Option Claim) (h : t.drain.timerPumping = true) :
      Drains t (.reconcile after) (t, [], .callback after)
  | change {pc : Pc} {r : Shared × List Note × Pc}
      (h : Change t.drain r.1.drain t.queues.empty (drainNotes r.2.1) r.2.2.owed)
      (htimer : r.1.drain.timer = t.drain.timer)
      (hpumping : r.1.drain.timerPumping = t.drain.timerPumping)
      (howed : pc.owed = []) (howner : pc.owner = false) (howner' : r.2.2.owner = false)
      (hduty : r.1.drain.timer ≠ r.1.drain.desired →
        r.1.drain.timerPumping = true ∨ r.2.2.Duty r.1.queues) :
      Drains t pc r
  /-- The timer expires. -/
  | timeout (r : Registration) (hid : r.id ≠ 0) (hsome : t.drain.registration = some r)
      (htimer : t.drain.timer = r.id) :
      Drains t .idle ({ t with drain := { t.drain.clear with timer := 0 } },
        [.expired r.id, .claimed r.id (-ETIMEDOUT) t.queues.empty],
        .deliver ⟨r.id, -ETIMEDOUT, r.cb, r.ctx⟩ .reconcile)
  | expired (id : Nat) (hstale : ∀ r, t.drain.registration = some r →
      ¬ (id ≠ 0 ∧ r.id = id ∧ t.drain.timer = id)) :
      Drains t .idle (t, [.expired id], .reconcile none)
  | loop {pc : Pc} {after : Option Claim} {t' : Shared} {notes : List Note}
      (h : Entry t after pc t' notes) :
      Drains t pc ((reconcileLoop t' after).1, notes ++ (reconcileLoop t' after).2.1,
        (reconcileLoop t' after).2.2)
  /-- The start of the current registration's timer has failed. -/
  | failed (id : Nat) (after : Option Claim) (rc : Int) (r : Registration) (hrc : rc < 0)
      (hsome : t.drain.registration = some r) (hid : r.id = id) :
      Drains t (.starting id after)
        ({ t with drain := { t.drain.clear with
            timer := if t.drain.timer = id then 0 else t.drain.timer } },
          [.startReturned id rc, .claimed id rc t.queues.empty],
          .deliver ⟨id, rc, r.cb, r.ctx⟩ (.again after))
  | callback (c : Claim) (next : Next) :
      Drains t (.deliver c next) (t, [.callback c.id c.result], .delivering next)

variable {t : Shared} {pc : Pc} {after : Option Claim}

/-! ## Where a thread goes -/

@[simp] theorem callback_owed (after : Option Claim) : (Pc.callback after).owed = after.toList := by
  cases after <;> rfl

@[simp] theorem callback_owner (after : Option Claim) : (Pc.callback after).owner = false := by
  cases after <;> rfl

@[simp] theorem unlockAndReconcile_owed (d : Drain) (after : Option Claim) :
    (unlockAndReconcile d after).owed = after.toList := by
  rw [unlockAndReconcile]
  split
  · rfl
  · exact callback_owed after

@[simp] theorem unlockAndReconcile_owner (d : Drain) (after : Option Claim) :
    (unlockAndReconcile d after).owner = false := by
  rw [unlockAndReconcile]
  split
  · rfl
  · exact callback_owner after

/-- It takes care of a timer that is not the one it should be, unless the reconciler does. -/
theorem unlockAndReconcile_duty (d : Drain) (after : Option Claim) (q : Queues)
    (h : d.timer ≠ d.desired) :
    d.timerPumping = true ∨ (unlockAndReconcile d after).Duty q := by
  cases hpumping : d.timerPumping with
  | true => exact .inl rfl
  | false =>
    right
    have hneeded : (!d.timerPumping && (d.timer != 0 || (d.id != 0 && d.timeout != 0))) = true := by
      rw [hpumping, Bool.not_false, Bool.true_and, Bool.or_eq_true, Bool.and_eq_true, bne_iff_ne,
        bne_iff_ne, bne_iff_ne]
      by_cases htimer : d.timer = 0
      · right
        rw [Drain.desired] at h
        split at h
        · next htimeout => exact ⟨fun hid => h (htimer.trans hid.symm), htimeout⟩
        · exact absurd htimer h
      · exact .inl htimer
    rw [unlockAndReconcile, if_pos hneeded]
    trivial

/-! ## The queues -/

theorem drainNotes_eq_nil {notes : List Note} (h : ∀ n ∈ notes, n.drains = false) :
    drainNotes notes = [] :=
  filter_eq_nil_iff.mpr fun n hn => by rw [h n hn]; decide

theorem removals_drains {q : Queues} {p : Slot → Bool} {why : Reason} {n : Note}
    (h : n ∈ q.removals p why) : n.drains = false := by
  obtain ⟨k, -, hk⟩ := mem_flatMap.mp h
  obtain ⟨x, -, rfl⟩ := mem_map.mp hk
  rfl

theorem Enqueued.apart {t : Shared} {r : Shared × List Note × Pc} (h : Enqueued t r) :
    Apart t r := by
  cases h with
  | refused e => exact ⟨.refl _, rfl, rfl, rfl, rfl⟩
  | taken k slot x victim e =>
    refine ⟨.refl _, congrArg Prod.fst (store_flags ..), drainNotes_eq_nil fun n hn => ?_, rfl, rfl⟩
    rcases mem_append.mp hn with hn | hn
    · obtain ⟨y, -, rfl⟩ := mem_map.mp hn
      rfl
    · rcases mem_cons.mp hn with rfl | hn
      · rfl
      · cases mem_singleton.mp hn
        rfl

/-! ## The calls -/

theorem Apart.call {r : Shared × List Note × Pc} (h : Apart t r) : Drains t .idle r := by
  refine .apart h rfl rfl ?_
  rintro ⟨p, hp, -⟩
  cases hp

theorem apart_rc (t : Shared) (code : Int) : Drains t .idle (t, [.rc code], .idle) :=
  Apart.call ⟨.refl _, rfl, rfl, rfl, rfl⟩

theorem apart_nil (t : Shared) (pc : Pc) (howed : pc.owed = []) (howner : pc.owner = false) :
    Drains t .idle (t, [], pc) :=
  Apart.call ⟨.refl _, rfl, rfl, howed, howner⟩

theorem init_drains (t : Shared) : Drains t .idle (init t) := by
  have hnotes : drainNotes (init t).2.1 = [] := by
    refine drainNotes_eq_nil fun n hn => ?_
    rcases mem_append.mp hn with hn | hn
    · exact removals_drains hn
    · cases mem_singleton.mp hn
      rfl
  refine .change ?_ rfl rfl rfl rfl (unlockAndReconcile_owner ..) fun h =>
    unlockAndReconcile_duty t.drain.clear none _ h
  rw [hnotes]
  have howed : (init t).2.2.owed = [] := unlockAndReconcile_owed ..
  rw [howed]
  exact .drop _ rfl rfl

theorem deinit_drains (t : Shared) : Drains t .idle (deinit t) := by
  refine .change ?_ rfl rfl rfl rfl (unlockAndReconcile_owner ..) fun h =>
    unlockAndReconcile_duty t.drain.clear none _ h
  have hnotes : drainNotes (deinit t).2.1 = [] :=
    drainNotes_eq_nil fun n hn => removals_drains hn
  have howed : (deinit t).2.2.owed = [] := unlockAndReconcile_owed ..
  rw [hnotes, howed]
  exact .drop _ rfl rfl

theorem discardLink_drain (t : Shared) (link : Link) :
    (discardLink t link).1.drain = t.drain ∨ (discardLink t link).1.drain = t.drain.clear := by
  rw [discardLink]
  split
  · exact .inl rfl
  · exact .inr rfl

/-- A section that may have discarded a link's items, and then goes on to the reconciler. -/
theorem discard_drains (link : Link) {r : Shared × List Note × Pc}
    (hdrain : r.1.drain = (discardLink t link).1.drain)
    (hlifetime : r.1.queues.lifetime = t.queues.lifetime) (hnotes : drainNotes r.2.1 = [])
    (howed : r.2.2.owed = []) (howner : r.2.2.owner = false) (hduty : r.2.2.Duty r.1.queues) :
    Drains t .idle r := by
  rcases discardLink_drain t link with hsame | hclear
  · refine Apart.call ⟨?_, hlifetime, hnotes, howed, howner⟩
    rw [hdrain, hsame]
    exact .refl _
  · rw [hclear] at hdrain
    refine .change ?_ (by rw [hdrain]; rfl) (by rw [hdrain]; rfl) rfl rfl howner
      fun _ => .inr hduty
    rw [hnotes, howed, hdrain]
    exact .drop _ rfl rfl

theorem linkState_drains (t : Shared) (link : Link) (connected : Bool) (generation : UInt32) :
    Drains t .idle (linkState t link connected generation) := by
  rw [linkState]
  split
  · refine discard_drains link rfl rfl ?_ rfl rfl trivial
    refine drainNotes_eq_nil fun n hn => ?_
    rcases mem_cons.mp hn with rfl | hn
    · rfl
    · exact removals_drains hn
  · exact Apart.call ⟨.refl _, rfl, rfl, rfl, rfl⟩

theorem setLink_drains (t : Shared) (link : Link) (selected : Bool) :
    Drains t .idle (setLink t link selected) := by
  rw [setLink]
  split
  · exact Apart.call ⟨.refl _, rfl, rfl, rfl, rfl⟩
  · exact discard_drains link rfl rfl
      (drainNotes_eq_nil fun n hn => removals_drains hn) rfl rfl trivial

theorem arm_drains (t : Shared) (cb : Option Nat) (ctx : Nat) (timeout : UInt32) (out : Bool) :
    Drains t .idle (arm t cb ctx timeout out) := by
  unfold arm
  split
  · exact apart_rc t _
  dsimp only
  split
  · exact apart_rc t _
  split
  · exact apart_rc t _
  next hfree =>
  rw [not_not] at hfree
  split
  · exact apart_rc t _
  split
  · exact apart_rc t _
  split
  · next hempty =>
    refine .change ?_ rfl rfl rfl rfl (unlockAndReconcile_owner ..) fun h =>
      unlockAndReconcile_duty _ _ _ h
    rw [hempty, unlockAndReconcile_owed]
    exact .armEmpty ⟨_, 0, _, _⟩ hfree rfl rfl rfl rfl
  · refine .change ?_ rfl rfl rfl rfl (unlockAndReconcile_owner ..) fun h =>
      unlockAndReconcile_duty _ _ _ h
    rw [unlockAndReconcile_owed]
    exact .arm _ ⟨_, _, _, _⟩ hfree rfl rfl rfl

theorem onDrainTimeout_drains (t : Shared) (registration : Nat) :
    Drains t .idle (onDrainTimeout t registration) := by
  unfold onDrainTimeout
  split
  · next r hsome =>
    split
    · next hcurrent =>
      obtain ⟨hid, rfl, htimer⟩ := hcurrent
      exact .timeout r hid hsome htimer
    · next hstale =>
      refine .expired registration fun r' hr' hcurrent => hstale ?_
      cases hsome.symm.trans hr'
      exact hcurrent
  · next hnone =>
    refine .expired registration fun r' hr' => ?_
    cases hnone.symm.trans hr'

theorem clearPostDrain_drains (t : Shared) (registration : Nat) :
    Drains t .idle (clearPostDrain t registration) := by
  rw [clearPostDrain]
  split
  · next hcurrent =>
    obtain ⟨hid, hcurrent⟩ := hcurrent
    obtain ⟨r, hsome, rfl⟩ : ∃ r, t.drain.registration = some r ∧ r.id = registration := by
      rw [Drain.id] at hcurrent
      cases hr : t.drain.registration with
      | none =>
        rw [hr] at hcurrent
        exact absurd hcurrent.symm hid
      | some r =>
        rw [hr] at hcurrent
        exact ⟨r, rfl, hcurrent⟩
    refine .change ?_ rfl rfl rfl rfl (unlockAndReconcile_owner ..) fun h =>
      unlockAndReconcile_duty _ _ _ h
    rw [unlockAndReconcile_owed]
    exact .clear _ r hsome rfl rfl
  · exact Apart.call ⟨.refl _, rfl, rfl, unlockAndReconcile_owed .., unlockAndReconcile_owner ..⟩

theorem setTimerOps_drains (t : Shared) (ops : TimerOps) : Drains t .idle (setTimerOps t ops) := by
  rw [setTimerOps]
  split
  · exact apart_rc t _
  split
  · exact apart_rc t _
  · exact Apart.call ⟨⟨rfl, rfl, rfl, rfl⟩, rfl, rfl, rfl, rfl⟩

theorem call_drains (t : Shared) (c : Call) : Drains t .idle (call t c) := by
  cases c with
  | init => exact init_drains t
  | deinit => exact deinit_drains t
  | linkState link connected generation =>
    cases link with
    | none => exact apart_nil t .idle rfl rfl
    | some link => exact linkState_drains t link connected generation
  | setLink link selected =>
    cases link with
    | none => exact apart_nil t .idle rfl rfl
    | some link => exact setLink_drains t link selected
  | setRfcommCid cid => exact setLink_drains t .classic _
  | enqueueResponseForLink => exact (enqueued_enqueueResponse ..).apart.call
  | enqueueResponse line rc identity =>
    unfold call
    dsimp only
    split
    · exact apart_rc t _
    split
    · exact apart_nil t _ rfl rfl
    · exact apart_rc t _
  | tryEnqueueFrameForLink => exact (enqueued_enqueueFrame ..).apart.call
  | tryEnqueueFrame buf rc identity =>
    unfold call
    dsimp only
    split
    · exact apart_rc t _
    split
    · exact apart_rc t _
    split
    · exact apart_nil t _ rfl rfl
    · exact apart_rc t _
  | onCanSendNow => exact apart_nil t .enter rfl rfl
  | setTimerOps ops => exact setTimerOps_drains t ops
  | arm cb ctx timeout out => exact arm_drains t cb ctx timeout out
  | onDrainTimeout registration => exact onDrainTimeout_drains t registration
  | clear registration => exact clearPostDrain_drains t registration

/-! ## Going on -/

theorem enter_drains (t : Shared) : Drains t .enter (enter t) := by
  rcases enter_cases t with ⟨hpumping, heq⟩ | ⟨-, heq⟩
  · rw [heq]
    exact .apart ⟨.refl _, rfl, rfl, rfl, rfl⟩ rfl rfl fun _ => .inr ⟨rfl, hpumping⟩
  · rw [heq]
    refine .apart ⟨.refl _, rfl, rfl, rfl, rfl⟩ rfl rfl fun _ => .inl ⟨_, rfl, ?_⟩
    rw [Pump.outlived, not_not]

theorem pumpLoop_drains (t : Shared) (p : Pump) : Drains t (.loop p) (pumpLoop t p) := by
  rcases pumpLoop_cases t p with ⟨hdead, heq⟩ | ⟨-, ⟨x, -, heq⟩ | ⟨-, -, -, heq⟩ | ⟨-, -, heq⟩⟩
  · rw [heq]
    refine .apart ⟨.refl _, rfl, rfl, rfl, rfl⟩ rfl rfl ?_
    rintro ⟨p', hp, hlive⟩
    cases hp
    exact absurd hdead hlive
  · rw [heq]
    have hpc : ∀ pc : Pc, pc = (if x.item.tag.link = .ble then .handing p x else .asking p x) →
        pc.owed = [] ∧ pc.owner = false ∧ (∀ q, pc.Duty q ↔ ∃ p', some p = some p' ∧
          ¬ p'.outlived q) := by
      rintro pc rfl
      split
      · exact ⟨rfl, rfl, fun _ => Iff.rfl⟩
      · exact ⟨rfl, rfl, fun _ => Iff.rfl⟩
    obtain ⟨howed, howner, hduty⟩ := hpc _ rfl
    exact .apart ⟨.refl _, rfl, rfl, howed, howner⟩ rfl rfl fun h => .inl ((hduty _).mpr h)
  · rw [heq]
    refine .apart ⟨.refl _, rfl, rfl, rfl, rfl⟩ rfl rfl ?_
    rintro ⟨p', hp, hlive⟩
    cases hp
    exact .inl ⟨_, rfl, hlive⟩
  · rw [heq]
    exact .apart ⟨.refl _, rfl, rfl, rfl, rfl⟩ rfl rfl fun _ => .inl trivial

theorem pumpResult_drains {p : Pump} {x : Pending} (hflight : pc.flight = some (p, x)) (rc : Int) :
    Drains t pc (pumpResult t p x rc) := by
  have hpc : pc.owed = [] ∧ pc.owner = false ∧
      (pc.Duty t.queues → ¬ p.outlived t.queues) := by
    cases pc
    case asking p' x' =>
      cases hflight
      exact ⟨rfl, rfl, fun ⟨_, hp, hlive⟩ => by cases hp; exact hlive⟩
    case handing p' x' =>
      cases hflight
      exact ⟨rfl, rfl, fun ⟨_, hp, hlive⟩ => by cases hp; exact hlive⟩
    case sending p' x' =>
      cases hflight
      exact ⟨rfl, rfl, fun ⟨_, hp, hlive⟩ => by cases hp; exact hlive⟩
    all_goals cases hflight
  obtain ⟨howed, howner, hlive⟩ := hpc
  rcases pumpResult_cases t p x rc with ⟨hdead, heq⟩ | ⟨-, -, ⟨-, -, heq⟩ | ⟨-, heq⟩⟩
  · rw [heq]
    exact .apart ⟨.refl _, rfl, rfl, rfl, rfl⟩ howed howner fun h => absurd hdead (hlive h)
  · rw [heq]
    exact .apart ⟨.refl _, rfl, rfl, rfl, rfl⟩ howed howner fun h => .inl ⟨_, rfl, hlive h⟩
  · rw [heq]
    exact .apart ⟨.refl _, rfl, rfl, rfl, rfl⟩ howed howner fun h => .inl ⟨_, rfl, hlive h⟩

theorem drained_drains (t : Shared) : Drains t .drained (drained t) := by
  have hkeep : Drains t .drained (t, [], unlockAndReconcile t.drain none) := by
    refine .change ?_ rfl rfl rfl rfl (unlockAndReconcile_owner ..) fun h =>
      unlockAndReconcile_duty _ _ _ h
    rw [unlockAndReconcile_owed]
    exact .keep _ rfl rfl
  unfold drained
  split
  · next r hsome =>
    split
    · next hempty =>
      refine .change ?_ rfl rfl rfl rfl (unlockAndReconcile_owner ..) fun h =>
        unlockAndReconcile_duty _ _ _ h
      rw [hempty, unlockAndReconcile_owed]
      exact .claim r ⟨_, 0, _, _⟩ rfl rfl hsome rfl rfl
    · exact hkeep
  · exact hkeep

theorem started_drains (t : Shared) (id : Nat) (after : Option Claim) (rc : Int) :
    Drains t (.starting id after) (started t id after rc) := by
  unfold started
  split
  · next hrc =>
    have hother : (∀ r, t.drain.registration = some r → r.id ≠ id) →
        Drains t (.starting id after)
          (let x := reconcileLoop (if t.drain.timer = id then
              { t with drain := { t.drain with timer := 0 } } else t) after
          (x.1, .startReturned id rc :: x.2.1, x.2.2)) :=
      fun h => .loop (.failed id rc hrc h)
    have hregistration : (if t.drain.timer = id then
        { t with drain := { t.drain with timer := 0 } } else t).drain.registration =
          t.drain.registration := by
      split <;> rfl
    dsimp only
    split
    · next r hsome =>
      rw [hregistration] at hsome
      split
      · next hid =>
        have hdrains := Drains.failed id after rc r hrc hsome hid
        have heq : (if t.drain.timer = id then
            { t with drain := { t.drain with timer := 0 } } else t) =
            { t with drain := { t.drain with
              timer := if t.drain.timer = id then 0 else t.drain.timer } } := by
          split <;> rfl
        rw [heq]
        exact hdrains
      · next hne =>
        refine hother fun r' hr' => ?_
        cases hsome.symm.trans hr'
        exact hne
    · next hnone =>
      rw [hregistration] at hnone
      refine hother fun r' hr' => ?_
      cases hnone.symm.trans hr'
  · next hrc => exact .loop (.started id rc (Int.not_lt.mp hrc))

theorem resume_drains (t : Shared) (pc : Pc) (rc : Int) : Drains t pc (resume t pc rc) := by
  cases pc with
  | idle => exact .still .idle
  | pushResponse link line rc identity =>
    have h := (enqueued_enqueueResponse t (some link) (some line) rc identity).apart
    exact .apart h rfl rfl (by rintro ⟨_, hp, _⟩; cases hp)
  | pushFrame link buf rc identity =>
    have h := (enqueued_enqueueFrame t (some link) (some buf) rc identity).apart
    exact .apart h rfl rfl (by rintro ⟨_, hp, _⟩; cases hp)
  | enter => exact enter_drains t
  | loop p => exact pumpLoop_drains t p
  | asking p x =>
    unfold resume
    dsimp only
    split
    · exact .apart ⟨.refl _, rfl, rfl, rfl, rfl⟩ rfl rfl .inl
    · exact pumpResult_drains rfl _
  | handing p x => exact .apart ⟨.refl _, rfl, rfl, rfl, rfl⟩ rfl rfl .inl
  | sending p x => exact pumpResult_drains rfl rc
  | drained => exact drained_drains t
  | reconcile after =>
    unfold resume
    dsimp only
    rw [reconcileTimer]
    split
    · next hpumping => exact .busy after hpumping
    · next hfree => exact .loop (.reconcile (Bool.eq_false_iff.mpr hfree))
  | cancelling id after => exact .loop (.cancelled id)
  | starting id after => exact started_drains t id after rc
  | deliver c next => exact .callback c next
  | delivering next =>
    cases next with
    | done => exact .apart ⟨.refl _, rfl, rfl, rfl, rfl⟩ rfl rfl (by rintro ⟨_, hp, _⟩; cases hp)
    | reconcile => exact .apart ⟨.refl _, rfl, rfl, rfl, rfl⟩ rfl rfl fun _ => .inl trivial
    | again after => exact .loop .again

/-- One round of the reconciler's loop: it is done, or it cancels or starts a timer. -/
theorem reconcileLoop_cases (t : Shared) (after : Option Claim) :
    (t.drain.timer = t.drain.desired ∧ reconcileLoop t after =
      ({ t with drain := { t.drain with timerPumping := false } }, [], .callback after)) ∨
    (t.drain.timer ≠ t.drain.desired ∧ t.drain.timer ≠ 0 ∧ reconcileLoop t after =
      ({ t with drain := { t.drain with timer := 0 } },
        [.cancelCalled t.drain.timer t.drain.installedCancel t.drain.installedCtx],
        .cancelling t.drain.timer after)) ∨
    (t.drain.timer = 0 ∧ t.drain.desired ≠ 0 ∧ reconcileLoop t after =
      ({ t with drain := { t.drain with
          timer := t.drain.desired, installedCancel := t.drain.ops.cancel,
          installedCtx := t.drain.ops.ctx } },
        [.startCalled t.drain.desired t.drain.timeout t.drain.ops],
        .starting t.drain.desired after)) := by
  rw [reconcileLoop]
  split
  · next heq => exact .inl ⟨heq, rfl⟩
  next hne =>
  split
  · next htimer => exact .inr (.inl ⟨hne, htimer, rfl⟩)
  · next htimer =>
    rw [not_not] at htimer
    exact .inr (.inr ⟨htimer, fun h => hne (htimer.trans h.symm), rfl⟩)

/-- **Every section is one of these.** -/
theorem body_drains (t : Shared) (pc : Pc) (input : Input) : Drains t pc (body t pc input) := by
  cases input with
  | call c =>
    unfold body
    dsimp only
    split
    · exact call_drains t c
    · exact .still pc
  | resume rc => exact resume_drains t pc rc

end Brickwright.Btsensor.Tx
