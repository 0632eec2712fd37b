import Brickwright.Btsensor.Tx.Moves

/-!
# What the pump does

One lemma for each section of the pump says all it can do. No other section runs a pump behind it,
and only `btsensor_tx_init` and `btsensor_tx_deinit` touch what the pumps look at.
-/

namespace Brickwright.Btsensor.Tx

open List

variable {t : Shared} {pc : Pc} {p p' : Pump} {x : Pending} {rc : Int}

/-! ## What is taken up -/

section Next

variable {q : Queues} {blocked : Link → Bool}

theorem oldest_item {k : Kind} {i : Nat}
    (h : oldest (fun tag => !blocked tag.link) (q.slots k) = some i) :
    ∃ x, (q.slots k).getD i Slot.zero = x ∧ (q.contents.items k)[i]? = some (some x) ∧
      blocked x.tag.link = false ∧
      ∀ y, q.contents.Has k y → blocked y.tag.link = false → x.tag.ticket ≤ y.tag.ticket := by
  obtain ⟨x, hx, hu, hb, hmin⟩ := oldest_some h
  refine ⟨x, ?_, contents_get.mpr ⟨hx, hu⟩, by simpa using hb, fun y hy hfree => ?_⟩
  · rw [getD_eq_getElem?_getD, hx, Option.getD_some]
  · obtain ⟨hmem, hyu⟩ := contents_has.mp hy
    exact hmin y hmem hyu (by rw [hfree]; rfl)

/-- The pump takes up the oldest item of its array among the links that are not blocked. -/
theorem next_some (h : q.next blocked = some x) :
    (q.contents.items x.kind)[x.slot]? = some (some x.item) ∧ blocked x.item.tag.link = false ∧
      ∀ y, q.contents.Has x.kind y → blocked y.tag.link = false →
        x.item.tag.ticket ≤ y.tag.ticket := by
  rw [Queues.next] at h
  split at h
  · next i hi =>
    cases h
    obtain ⟨x, hget, hx⟩ := oldest_item hi
    rw [hget]
    exact hx
  · obtain ⟨i, hi, heq⟩ := Option.map_eq_some_iff.mp h
    cases heq
    obtain ⟨x, hget, hx⟩ := oldest_item hi
    rw [hget]
    exact hx

/-- It stops when every item is of a blocked link, but for one with the last ticket. -/
theorem next_none (h : q.next blocked = none) {k : Kind} {y : Slot} (hy : q.contents.Has k y) :
    blocked y.tag.link = true ∨ maxTicket ≤ y.tag.ticket := by
  by_cases hb : blocked y.tag.link = true
  · exact .inl hb
  · right
    obtain ⟨hmem, hu⟩ := contents_has.mp hy
    rw [Queues.next] at h
    split at h
    · cases h
    · next hresponse =>
      have hframe := Option.map_eq_none_iff.mp h
      have hfree : (!blocked y.tag.link) = true := by
        rw [Bool.eq_false_iff.mpr hb]
        rfl
      cases k with
      | response => exact oldest_none hresponse hmem hu hfree
      | frame => exact oldest_none hframe hmem hu hfree

end Next

/-! ## The sections of the pump -/

theorem enter_cases (t : Shared) :
    (t.queues.pumping = true ∧
      enter t = ({ t with queues := { t.queues with repoll := true } }, [.merged], .idle)) ∨
    (t.queues.pumping = false ∧
      enter t = ({ t with queues := { t.queues with pumping := true, repoll := false } },
        [.entered], .loop ⟨t.queues.lifetime, fun _ => false, true⟩)) := by
  rw [enter]
  split
  · next h => exact .inl ⟨h, rfl⟩
  · next h => exact .inr ⟨Bool.eq_false_iff.mpr h, rfl⟩

theorem pumpLoop_cases (t : Shared) (p : Pump) :
    (p.outlived t.queues ∧ pumpLoop t p = (t, [], .idle)) ∨
    ¬ p.outlived t.queues ∧
      ((∃ x, t.queues.next p.blocked = some x ∧
        pumpLoop t p = (t, [.selected x.kind x.item],
          if x.item.tag.link = .ble then .handing p x else .asking p x)) ∨
      (t.queues.next p.blocked = none ∧ t.queues.repoll = true ∧ p.retry = true ∧
        pumpLoop t p = ({ t with queues := { t.queues with repoll := false } }, [.retried],
          .loop { p with blocked := fun _ => false, retry := false })) ∨
      (t.queues.next p.blocked = none ∧ (t.queues.repoll = true → p.retry = false) ∧
        pumpLoop t p = ({ t with queues := { t.queues with pumping := false } }, [.finished],
          .drained))) := by
  rw [pumpLoop]
  split
  · next h => exact .inl ⟨h, rfl⟩
  next h =>
  refine .inr ⟨h, ?_⟩
  split
  · next x hx => exact .inl ⟨x, hx, rfl⟩
  next hnone =>
  split
  · next hagain =>
    rw [Bool.and_eq_true] at hagain
    exact .inr (.inl ⟨hnone, hagain.1, hagain.2, rfl⟩)
  · next hend =>
    refine .inr (.inr ⟨hnone, fun hrepoll => ?_, rfl⟩)
    rw [hrepoll, Bool.true_and] at hend
    exact Bool.eq_false_iff.mpr hend

def blockedBy (p : Pump) (x : Pending) (rc : Int) : Link → Bool :=
  if rc ≠ 0 ∧ staleBle x.item rc = false then Function.update p.blocked x.item.tag.link true
  else p.blocked

theorem pumpResult_cases (t : Shared) (p : Pump) (x : Pending) (rc : Int) :
    (p.outlived t.queues ∧ pumpResult t p x rc = (t, [.result x.kind x.item rc], .idle)) ∨
    ¬ p.outlived t.queues ∧
      (pumpResult t p x rc).2.2 = .loop { p with blocked := blockedBy p x rc } ∧
      (((rc = 0 ∨ staleBle x.item rc = true) ∧ t.queues.same x = true ∧
        pumpResult t p x rc =
          ({ t with queues := t.queues.setSlots x.kind ((t.queues.slots x.kind).set x.slot
              ((t.queues.slots x.kind).getD x.slot Slot.zero).clear) },
            [.result x.kind x.item rc, .removed x.kind
              ((t.queues.slots x.kind).getD x.slot Slot.zero) (if rc = 0 then .sent else .stale)],
            .loop { p with blocked := blockedBy p x rc })) ∨
      (¬ ((rc = 0 ∨ staleBle x.item rc = true) ∧ t.queues.same x = true) ∧
        pumpResult t p x rc =
          (t, [.result x.kind x.item rc], .loop { p with blocked := blockedBy p x rc }))) := by
  have hpump : (if rc ≠ 0 ∧ staleBle x.item rc = false then
      { p with blocked := Function.update p.blocked x.item.tag.link true } else p) =
      { p with blocked := blockedBy p x rc } := by
    rw [blockedBy]
    split <;> rfl
  rw [pumpResult]
  rw [hpump]
  split
  · next h => exact .inl ⟨h, rfl⟩
  next h =>
  refine .inr ⟨h, ?_⟩
  split
  · next hdrop => exact ⟨rfl, .inl ⟨hdrop.1, hdrop.2, rfl⟩⟩
  · next hkeep => exact ⟨rfl, .inr ⟨hkeep, rfl⟩⟩

/-! ## The other sections -/

/-- A call that is to queue an item is refused, or takes a ticket and stores the item in a slot,
where an older one may have to go. -/
inductive Enqueued (t : Shared) : Shared × List Note × Pc → Prop where
  | refused (e : Int) : Enqueued t (t, [.rc e], .idle)
  | taken (k : Kind) (slot : Option Nat) (x : Slot) (victim : List Slot) (e : Int) :
      Enqueued t
        ({ t with
            queues := ({ t.queues with ticket := t.queues.ticket + 1 } : Queues).store k slot x },
          victim.map (.removed k · .evicted) ++ [.admitted k x, .rc e], .enter)

theorem enqueued_enqueueResponse (t : Shared) (link : Option Link) (line : Option (List UInt8))
    (rc : Int) (identity : Nat) : Enqueued t (enqueueResponse t link line rc identity) := by
  unfold enqueueResponse
  split
  · dsimp only
    split
    · exact .refused _
    split
    · exact .refused _
    split
    · exact .refused _
    · next hadmission =>
      obtain ⟨rfl, -⟩ := admission_ok hadmission
      exact .taken .response _ _ [] 0
  · exact .refused _

theorem enqueued_enqueueFrame (t : Shared) (link : Option Link) (buf : Option (List UInt8))
    (rc : Int) (identity : Nat) : Enqueued t (enqueueFrame t link buf rc identity) := by
  unfold enqueueFrame
  split
  · exact .refused _
  split
  · exact .refused _
  split
  · exact .refused _
  split
  · exact .refused _
  next hadmission =>
  obtain ⟨rfl, -⟩ := admission_ok hadmission
  split
  · exact .taken .frame _ _ _ _
  · exact .taken .frame _ _ [] 0

theorem Queueing.enqueued {r : Shared × List Note × Pc} (h : Queueing t r) :
    Quiet t r ∨ Enqueued t r := by
  cases h with
  | quiet h => exact .inl h
  | response => exact .inr (enqueued_enqueueResponse ..)
  | frame => exact .inr (enqueued_enqueueFrame ..)

theorem Queueing.running {r : Shared × List Note × Pc} (h : Queueing t r) :
    r.2.2.running = none := by
  rcases h.enqueued with h | ⟨⟩ | ⟨⟩
  · exact h.aside
  · rfl
  · rfl

theorem setLink_running (t : Shared) (link : Link) (selected : Bool) :
    (setLink t link selected).2.2.running = none := by
  rw [setLink]
  split <;> rfl

theorem call_running (t : Shared) (c : Call) : (call t c).2.2.running = none := by
  rcases call_cases t c with h | rfl | rfl | ⟨link, selected, heq⟩ | ⟨_, _, _, rfl⟩
  · exact h.running
  · exact unlockAndReconcile_running _ _
  · exact unlockAndReconcile_running _ _
  · rw [heq]
    exact setLink_running t link selected
  · rfl

def Queues.flags (q : Queues) : Nat × Bool × Bool := (q.lifetime, q.pumping, q.repoll)

theorem store_flags (q : Queues) (k : Kind) (slot : Option Nat) (y : Slot) :
    (q.store k slot y).flags = q.flags := by
  cases slot <;> rfl

theorem Queueing.flags {r : Shared × List Note × Pc} (h : Queueing t r) :
    r.1.queues.flags = t.queues.flags := by
  rcases h.enqueued with h | ⟨⟩ | ⟨⟩
  · rw [h.queues]
  · rfl
  · exact store_flags ..

theorem linkState_flags (t : Shared) (link : Link) (connected : Bool) (generation : UInt32) :
    (linkState t link connected generation).1.queues.flags = t.queues.flags := by
  rw [linkState]
  split <;> rfl

theorem setLink_flags (t : Shared) (link : Link) (selected : Bool) :
    (setLink t link selected).1.queues.flags = t.queues.flags := by
  rw [setLink]
  split <;> rfl

/-- A call begins a new lifetime, with nothing queued, or leaves what the pumps look at. -/
theorem call_flags (t : Shared) (c : Call) :
    (call t c).1.queues.flags = t.queues.flags ∨
      ((c = .init ∨ c = .deinit) ∧ (call t c).1.queues.lifetime = t.queues.lifetime + 1 ∧
        ((call t c).1.queues.pumping = true → t.queues.pumping = true) ∧
        ∀ k y, ¬ (call t c).1.queues.contents.Has k y) := by
  rcases call_cases t c with h | rfl | rfl | ⟨link, selected, heq⟩ | ⟨_, _, _, rfl⟩
  · exact .inl h.flags
  · refine .inr ⟨.inl rfl, rfl, nofun, fun k y hy => ?_⟩
    obtain ⟨hmem, hu⟩ := contents_has.mp hy
    cases eq_of_mem_replicate hmem
    cases hu
  · refine .inr ⟨.inr rfl, rfl, id, fun k y hy => ?_⟩
    have hdrop : (t.queues.drop fun _ => true).contents.Has k y := hy
    rw [contents_drop, Contents.has_drop] at hdrop
    exact absurd hdrop.2 (by decide)
  · rw [heq]
    exact .inl (setLink_flags ..)
  · exact .inl (linkState_flags ..)

theorem running_of_flight (h : pc.flight = some (p, x)) : pc.running = some p := by
  cases pc <;> first | cases h; rfl | cases h

/-! ## Where a note comes from -/

/-- A note of what is queued, but for what the pump removes. -/
def Note.OfQueue : Note → Prop
  | .admitted _ _ => True
  | .removed _ _ why => why ≠ .sent ∧ why ≠ .stale
  | _ => False

def Note.OfPump : Note → Prop
  | .entered => True
  | .merged => True
  | .retried => True
  | .finished => True
  | .selected _ _ => True
  | .handed _ _ => True
  | .result _ _ _ => True
  | _ => False

variable {n : Note}

theorem removals_ofQueue {q : Queues} {p : Slot → Bool} {why : Reason}
    (h : n ∈ q.removals p why) (hwhy : why ≠ .sent ∧ why ≠ .stale) : n.OfQueue := by
  obtain ⟨k, -, hk⟩ := mem_flatMap.mp h
  obtain ⟨x, -, rfl⟩ := mem_map.mp hk
  exact hwhy

theorem Queueing.notes {r : Shared × List Note × Pc} (h : Queueing t r) (hn : n ∈ r.2.1) :
    n.OfDrain ∨ n.OfQueue := by
  rcases h.enqueued with h | ⟨⟩ | ⟨⟩
  · exact .inl (h.notes n hn)
  · cases mem_singleton.mp hn
    exact .inl trivial
  · rcases mem_append.mp hn with hn | hn
    · obtain ⟨y, -, rfl⟩ := mem_map.mp hn
      exact .inr ⟨by decide, by decide⟩
    · rcases mem_cons.mp hn with rfl | hn
      · exact .inr trivial
      · cases mem_singleton.mp hn
        exact .inl trivial

theorem setLink_notes {link : Link} {selected : Bool}
    (h : n ∈ (setLink t link selected).2.1) : n.OfQueue := by
  rw [setLink] at h
  split at h
  · exact absurd h not_mem_nil
  · exact removals_ofQueue h ⟨by decide, by decide⟩

theorem linkState_notes {link : Link} {connected : Bool} {generation : UInt32}
    (h : n ∈ (linkState t link connected generation).2.1) :
    n.OfQueue ∨ n = .announced link connected generation := by
  rcases mem_cons.mp h with rfl | h
  · exact .inr rfl
  · left
    split at h
    · exact removals_ofQueue h ⟨by decide, by decide⟩
    · exact absurd h not_mem_nil

theorem call_notes {c : Call} (h : n ∈ (call t c).2.1) :
    n.OfDrain ∨ n.OfQueue ∨ ∃ link connected generation,
      c = .linkState (some link) connected generation ∧
        n = .announced link connected generation := by
  rcases call_cases t c with hc | rfl | rfl | ⟨link, selected, heq⟩ |
    ⟨link, connected, generation, rfl⟩
  · exact (hc.notes h).imp_right .inl
  · rcases mem_append.mp h with h | h
    · exact .inr (.inl (removals_ofQueue h ⟨by decide, by decide⟩))
    · cases mem_singleton.mp h
      exact .inl trivial
  · exact .inr (.inl (removals_ofQueue h ⟨by decide, by decide⟩))
  · rw [heq] at h
    exact .inr (.inl (setLink_notes h))
  · rcases linkState_notes h with hq | rfl
    · exact .inr (.inl hq)
    · exact .inr (.inr ⟨link, connected, generation, rfl, rfl⟩)

/-! ## One turn of a thread -/

structure Note.Aside (n : Note) : Prop where
  pump : ¬ n.OfPump
  removed : ∀ k x why, n = .removed k x why → why ≠ .sent ∧ why ≠ .stale

theorem Note.OfDrain.aside (h : n.OfDrain) : n.Aside := by
  constructor
  · intro hp
    cases n <;> first | exact hp | exact h
  · rintro k x why rfl
    exact absurd h id

theorem Note.OfQueue.aside (h : n.OfQueue) : n.Aside := by
  constructor
  · intro hp
    cases n <;> first | exact hp | exact h
  · rintro k x why rfl
    exact h

/-- What one section does, as far as the pumps are concerned. -/
inductive Turn (t : Shared) (input : Input) : Pc → Shared × List Note × Pc → Prop where
  | still (pc : Pc) : Turn t input pc (t, [], pc)
  /-- A section of anything else. -/
  | aside {pc : Pc} {r : Shared × List Note × Pc} (hpc : pc.running = none) (henter : pc ≠ .enter)
      (hrunning : r.2.2.running = none) (hnotes : ∀ n ∈ r.2.1, n.Aside)
      (hflags : r.1.queues.flags = t.queues.flags ∨
        ((input = .call .init ∨ input = .call .deinit) ∧
          r.1.queues.lifetime = t.queues.lifetime + 1 ∧
          (r.1.queues.pumping = true → t.queues.pumping = true) ∧
          ∀ k y, ¬ r.1.queues.contents.Has k y))
      (hannounced : ∀ link connected generation,
        .announced link connected generation ∈ r.2.1 → r = linkState t link connected generation) :
      Turn t input pc r
  | enter : Turn t input .enter (enter t)
  | loop (p : Pump) : Turn t input (.loop p) (pumpLoop t p)
  | ask (p : Pump) (x : Pending) : Turn t input (.asking p x) (t, [], .handing p x)
  | hand (p : Pump) (x : Pending) :
      Turn t input (.handing p x) (t, [.handed x.kind x.item], .sending p x)
  | result {pc : Pc} {p : Pump} {x : Pending} (h : pc.flight = some (p, x)) (rc : Int) :
      Turn t input pc (pumpResult t p x rc)

/-- **Every section is one of these.** -/
theorem body_turn (t : Shared) (pc : Pc) (input : Input) : Turn t input pc (body t pc input) := by
  cases input with
  | call c =>
    unfold body
    dsimp only
    split
    · refine .aside rfl Pc.noConfusion (call_running t c) (fun n hn => ?_) ?_ ?_
      · rcases call_notes hn with hd | hq | ⟨link, connected, generation, -, rfl⟩
        · exact hd.aside
        · exact hq.aside
        · exact ⟨id, nofun⟩
      · rcases call_flags t c with hflags | ⟨hc, hreset⟩
        · exact .inl hflags
        · exact .inr ⟨hc.imp (congrArg _) (congrArg _), hreset⟩
      · intro link connected generation hn
        rcases call_notes hn with hd | hq | ⟨_, _, _, rfl, heq⟩
        · exact absurd hd id
        · exact absurd hq id
        · cases heq
          rfl
    · exact .still pc
  | resume rc =>
    show Turn t _ pc (resume t pc rc)
    have haside : pc.running = none → pc ≠ .enter → Turn t (.resume rc) pc (resume t pc rc) := by
      intro hpc henter
      have hr := resume_queueing t hpc henter rc
      refine .aside hpc henter hr.running (fun n hn => ?_) (.inl hr.flags) ?_
      · exact (hr.notes hn).elim Note.OfDrain.aside Note.OfQueue.aside
      · intro link connected generation hn
        exact ((hr.notes hn).elim id id).elim
    cases pc with
    | enter => exact .enter
    | loop p => exact .loop p
    | asking p x =>
      unfold resume
      dsimp only
      split
      · exact .ask p x
      · exact .result rfl _
    | handing p x => exact .hand p x
    | sending p x => exact .result rfl rc
    | _ => exact haside rfl Pc.noConfusion

theorem pumpResult_flight (t : Shared) (p : Pump) (x : Pending) (rc : Int) :
    (pumpResult t p x rc).2.2.flight = none := by
  rcases pumpResult_cases t p x rc with ⟨-, heq⟩ | ⟨-, heq, -⟩
  · rw [heq]
    rfl
  · rw [heq]
    rfl

variable {input : Input}

/-- **A copy in flight** was there before, and its thread did nothing, went on to hand it over, or
handed it over; or it has just been taken up. -/
theorem flight_cases (h : (body t pc input).2.2.flight = some (p, x)) :
    (body t pc input = (t, [], pc) ∧ pc.flight = some (p, x)) ∨
    (pc = .asking p x ∧ body t pc input = (t, [], .handing p x)) ∨
    (pc = .handing p x ∧ body t pc input = (t, [.handed x.kind x.item], .sending p x)) ∨
    (pc = .loop p ∧ ¬ p.outlived t.queues ∧ t.queues.next p.blocked = some x ∧
      body t pc input = (t, [.selected x.kind x.item],
        if x.item.tag.link = .ble then .handing p x else .asking p x)) := by
  have hrunning := running_of_flight h
  generalize hr : body t pc input = r at h hrunning ⊢
  have hturn := hr ▸ body_turn t pc input
  cases hturn with
  | still => exact .inl ⟨rfl, h⟩
  | aside _ _ hno => exact absurd (hno.symm.trans hrunning) nofun
  | enter =>
    rcases enter_cases t with ⟨-, heq⟩ | ⟨-, heq⟩
    · rw [heq] at h
      cases h
    · rw [heq] at h
      cases h
  | loop p₀ =>
    rcases pumpLoop_cases t p₀ with ⟨-, heq⟩ | ⟨hlive, ⟨y, hy, heq⟩ | ⟨-, -, -, heq⟩ | ⟨-, -, heq⟩⟩
    · rw [heq] at h
      cases h
    · have hpx : p₀ = p ∧ y = x := by
        rw [heq] at h
        split at h
        · cases h
          exact ⟨rfl, rfl⟩
        · cases h
          exact ⟨rfl, rfl⟩
      obtain ⟨rfl, rfl⟩ := hpx
      exact .inr (.inr (.inr ⟨rfl, hlive, hy, heq⟩))
    · rw [heq] at h
      cases h
    · rw [heq] at h
      cases h
  | ask p₀ y =>
    cases h
    exact .inr (.inl ⟨rfl, rfl⟩)
  | hand p₀ y =>
    cases h
    exact .inr (.inr (.inl ⟨rfl, rfl⟩))
  | result _ rc =>
    rw [pumpResult_flight] at h
    cases h

/-! ## Where a note of the pump comes from -/

/-- Where a note of a section comes from. -/
inductive Source (t : Shared) (pc : Pc) (r : Shared × List Note × Pc) : Note → Prop where
  | aside {n : Note} (h : n.Aside) (hannounced : ∀ link connected generation,
      n = .announced link connected generation → r = linkState t link connected generation) :
      Source t pc r n
  | merged (hpc : pc = .enter) (h : t.queues.pumping = true) (heq : r = enter t) :
      Source t pc r .merged
  | entered (hpc : pc = .enter) (h : t.queues.pumping = false) (heq : r = enter t) :
      Source t pc r .entered
  | selected (p : Pump) (x : Pending) (hpc : pc = .loop p) (hlive : ¬ p.outlived t.queues)
      (hx : t.queues.next p.blocked = some x)
      (heq : r = (t, [.selected x.kind x.item],
        if x.item.tag.link = .ble then .handing p x else .asking p x)) :
      Source t pc r (.selected x.kind x.item)
  | retried (p : Pump) (hpc : pc = .loop p) (heq : r = pumpLoop t p) : Source t pc r .retried
  | finished (p : Pump) (hpc : pc = .loop p) (heq : r = pumpLoop t p) : Source t pc r .finished
  | handed (p : Pump) (x : Pending) (hpc : pc = .handing p x)
      (heq : r = (t, [.handed x.kind x.item], .sending p x)) :
      Source t pc r (.handed x.kind x.item)
  | result (p : Pump) (x : Pending) (rc : Int) (hflight : pc.flight = some (p, x))
      (heq : r = pumpResult t p x rc) : Source t pc r (.result x.kind x.item rc)
  | removed (p : Pump) (x : Pending) (rc : Int) (hflight : pc.flight = some (p, x))
      (heq : r = pumpResult t p x rc) (hlive : ¬ p.outlived t.queues)
      (hrc : rc = 0 ∨ staleBle x.item rc = true) (hsame : t.queues.same x = true) :
      Source t pc r (.removed x.kind ((t.queues.slots x.kind).getD x.slot Slot.zero)
        (if rc = 0 then .sent else .stale))

theorem note_source (h : n ∈ (body t pc input).2.1) :
    Source t pc (body t pc input) n := by
  generalize hr : body t pc input = r at h ⊢
  have hturn := hr ▸ body_turn t pc input
  cases hturn with
  | still => exact absurd h not_mem_nil
  | aside _ _ _ hnotes _ hannounced =>
    exact .aside (hnotes n h) fun link connected generation hn => hannounced _ _ _ (hn ▸ h)
  | enter =>
    rcases enter_cases t with ⟨hpumping, heq⟩ | ⟨hpumping, heq⟩
    · rw [heq] at h
      cases mem_singleton.mp h
      exact .merged rfl hpumping rfl
    · rw [heq] at h
      cases mem_singleton.mp h
      exact .entered rfl hpumping rfl
  | loop p =>
    rcases pumpLoop_cases t p with ⟨-, heq⟩ | ⟨hlive, ⟨x, hx, heq⟩ | ⟨-, -, -, heq⟩ | ⟨-, -, heq⟩⟩
    · rw [heq] at h
      exact absurd h not_mem_nil
    · rw [heq] at h
      cases mem_singleton.mp h
      exact .selected p x rfl hlive hx heq
    · rw [heq] at h
      cases mem_singleton.mp h
      exact .retried p rfl rfl
    · rw [heq] at h
      cases mem_singleton.mp h
      exact .finished p rfl rfl
  | ask => exact absurd h not_mem_nil
  | hand p x =>
    cases mem_singleton.mp h
    exact .handed p x rfl rfl
  | @result _ p x hflight rc =>
    rcases pumpResult_cases t p x rc with ⟨-, heq⟩ | ⟨hlive, -, ⟨hrc, hsame, heq⟩ | ⟨-, heq⟩⟩
    · rw [heq] at h
      cases mem_singleton.mp h
      exact .result p x rc hflight rfl
    · rw [heq] at h
      rcases mem_cons.mp h with rfl | h
      · exact .result p x rc hflight rfl
      · cases mem_singleton.mp h
        exact .removed p x rc hflight rfl hlive hrc hsame
    · rw [heq] at h
      cases mem_singleton.mp h
      exact .result p x rc hflight rfl

theorem selected_cases {k : Kind} {y : Slot} (h : .selected k y ∈ (body t pc input).2.1) :
    ∃ p x, pc = .loop p ∧ ¬ p.outlived t.queues ∧ t.queues.next p.blocked = some x ∧
      x.kind = k ∧ x.item = y ∧ body t pc input = (t, [.selected k y],
        if y.tag.link = .ble then .handing p x else .asking p x) := by
  cases note_source h with
  | aside h => exact absurd trivial h.pump
  | selected p x hpc hlive hx heq => exact ⟨p, x, hpc, hlive, hx, rfl, rfl, heq⟩

theorem handed_cases {k : Kind} {y : Slot} (h : .handed k y ∈ (body t pc input).2.1) :
    ∃ p x, pc = .handing p x ∧ x.kind = k ∧ x.item = y ∧
      body t pc input = (t, [.handed k y], .sending p x) := by
  cases note_source h with
  | aside h => exact absurd trivial h.pump
  | handed p x hpc heq => exact ⟨p, x, hpc, rfl, rfl, heq⟩

theorem result_cases {k : Kind} {y : Slot} {rc : Int} (h : .result k y rc ∈ (body t pc input).2.1) :
    ∃ p x, pc.flight = some (p, x) ∧ x.kind = k ∧ x.item = y ∧
      body t pc input = pumpResult t p x rc := by
  cases note_source h with
  | aside h => exact absurd trivial h.pump
  | result p x rc hflight heq => exact ⟨p, x, hflight, rfl, rfl, heq⟩

/-- What is removed as sent was in flight in a live pump, and its slot still had it. -/
theorem sent_cases {k : Kind} {y : Slot} (h : .removed k y .sent ∈ (body t pc input).2.1) :
    ∃ p x, pc.flight = some (p, x) ∧ ¬ p.outlived t.queues ∧ t.queues.same x = true ∧
      x.kind = k ∧ (t.queues.slots x.kind).getD x.slot Slot.zero = y ∧
      body t pc input = pumpResult t p x 0 := by
  generalize hn : Note.removed k y .sent = n at h
  cases note_source h with
  | aside h => exact absurd rfl (h.removed k y .sent hn.symm).1
  | removed p x rc hflight heq hlive hrc hsame =>
    injection hn with hk hy hwhy
    have hzero : rc = 0 := by
      by_contra hne
      rw [if_neg hne] at hwhy
      cases hwhy
    subst hzero
    exact ⟨p, x, hflight, hlive, hsame, hk.symm, hy.symm, heq⟩
  | _ => cases hn

theorem announced_cases {link : Link} {connected : Bool} {generation : UInt32}
    (h : .announced link connected generation ∈ (body t pc input).2.1) :
    body t pc input = linkState t link connected generation := by
  cases note_source h with
  | aside _ hannounced => exact hannounced _ _ _ rfl

end Brickwright.Btsensor.Tx
