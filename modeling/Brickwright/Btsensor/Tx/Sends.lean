import Brickwright.Btsensor.Tx.Items

/-!
# Which pumps are live

A pump whose lifetime is not the current one gives up at its next section. Of the current lifetime
there is at most one, and while there is one `g_pumping` is set. `g_lifetime` has 32 bits: what is
said here is said of runs in which no pump call lasts through `2 ^ 32` calls of `btsensor_tx_init`
and `btsensor_tx_deinit` (`Fresh`).
-/

namespace Brickwright.Btsensor.Tx

/-- No pump is running through whose call `2 ^ 32` lifetimes have ended. -/
def Fresh (s : Threads.State Shared Pc) : Prop :=
  ∀ i p, (s.pc i).running = some p → s.shared.queues.lifetime < p.lifetime + 2 ^ 32

/-- The lifetime the pump of a thread began in. -/
def Pc.lifetime (pc : Pc) : Option Nat := pc.running.map Pump.lifetime

structure Pumps (s : Threads.State Shared Pc) : Prop where
  le : ∀ i n, (s.pc i).lifetime = some n → n ≤ s.shared.queues.lifetime
  pumping : ∀ i, (s.pc i).lifetime = some s.shared.queues.lifetime →
    s.shared.queues.pumping = true
  one : ∀ i j, (s.pc i).lifetime = some s.shared.queues.lifetime →
    (s.pc j).lifetime = some s.shared.queues.lifetime → i = j

variable {t : Shared} {pc : Pc} {s : Threads.State Shared Pc} {i : Nat} {p : Pump} {x : Pending}

theorem lifetime_of_running (h : pc.running = some p) : pc.lifetime = some p.lifetime := by
  rw [Pc.lifetime, h]
  rfl

/-- What a section does to the pumps: nothing but that one may give up, a new lifetime, a new pump,
or the end of one that has not been outlived. -/
theorem pumps_cases (t : Shared) (pc : Pc) (input : Input) :
    let r := body t pc input
    (r.1.queues.lifetime = t.queues.lifetime ∧ r.1.queues.pumping = t.queues.pumping ∧
      (r.2.2.lifetime = none ∨ r.2.2.lifetime = pc.lifetime)) ∨
    (r.1.queues.lifetime = t.queues.lifetime + 1 ∧ r.2.2.lifetime = none ∧
      ∀ k y, ¬ r.1.queues.contents.Has k y) ∨
    (r.1.queues.lifetime = t.queues.lifetime ∧ t.queues.pumping = false ∧
      r.1.queues.pumping = true ∧ r.2.2.lifetime = some t.queues.lifetime) ∨
    (∃ p, pc.running = some p ∧ ¬ p.outlived t.queues ∧
      r.1.queues.lifetime = t.queues.lifetime ∧ r.2.2.lifetime = none) := by
  generalize hr : body t pc input = r
  have hturn := hr ▸ body_turn t pc input
  cases hturn with
  | still => exact .inl ⟨rfl, rfl, .inr rfl⟩
  | aside hpc henter hrunning _ hflags =>
    have hnone : r.2.2.lifetime = none := by
      rw [Pc.lifetime, hrunning]
      rfl
    rcases hflags with hflags | ⟨-, hlifetime, -, hempty⟩
    · rw [Queues.flags, Queues.flags, Prod.mk.injEq, Prod.mk.injEq] at hflags
      exact .inl ⟨hflags.1, hflags.2.1, .inl hnone⟩
    · exact .inr (.inl ⟨hlifetime, hnone, hempty⟩)
  | enter =>
    rcases enter_cases t with ⟨-, heq⟩ | ⟨hpumping, heq⟩
    · rw [heq]
      exact .inl ⟨rfl, rfl, .inl rfl⟩
    · rw [heq]
      exact .inr (.inr (.inl ⟨rfl, hpumping, rfl, rfl⟩))
  | loop p =>
    rcases pumpLoop_cases t p with ⟨-, heq⟩ | ⟨hlive, ⟨x, -, heq⟩ | ⟨-, -, -, heq⟩ | ⟨-, -, heq⟩⟩
    · rw [heq]
      exact .inl ⟨rfl, rfl, .inl rfl⟩
    · rw [heq]
      refine .inl ⟨rfl, rfl, .inr ?_⟩
      split <;> rfl
    · rw [heq]
      exact .inl ⟨rfl, rfl, .inr rfl⟩
    · rw [heq]
      exact .inr (.inr (.inr ⟨p, rfl, hlive, rfl, rfl⟩))
  | ask => exact .inl ⟨rfl, rfl, .inr rfl⟩
  | hand => exact .inl ⟨rfl, rfl, .inr rfl⟩
  | @result _ p x hflight rc =>
    have hpc := lifetime_of_running (running_of_flight hflight)
    rcases pumpResult_cases t p x rc with ⟨-, heq⟩ | ⟨-, -, ⟨-, -, heq⟩ | ⟨-, heq⟩⟩
    · rw [heq]
      exact .inl ⟨rfl, rfl, .inl rfl⟩
    · rw [heq]
      exact .inl ⟨rfl, rfl, .inr hpc.symm⟩
    · rw [heq]
      exact .inl ⟨rfl, rfl, .inr hpc.symm⟩

theorem Pumps.live (hs : Pumps s) (hf : Fresh s) (h : (s.pc i).running = some p)
    (hlive : ¬ p.outlived s.shared.queues) : p.lifetime = s.shared.queues.lifetime := by
  have hle := hs.le i _ (lifetime_of_running h)
  have hlt := hf i p h
  rw [Pump.outlived, not_not] at hlive
  omega

theorem Pumps.not_outlived (h : p.lifetime = t.queues.lifetime) : ¬ p.outlived t.queues := by
  rw [Pump.outlived, h, not_not]

theorem Pumps.step (hs : Pumps s) (hf : Fresh s) (i : Nat) (input : Input) :
    Pumps (arbiter.step s i input) := by
  have hself : (arbiter.step s i input).pc i = (body s.shared (s.pc i) input).2.2 :=
    Threads.step_pc_self i input
  have hother : ∀ {j}, j ≠ i → (arbiter.step s i input).pc j = s.pc j :=
    fun hj => Threads.step_pc_of_ne hj input
  have hshared : (arbiter.step s i input).shared = (body s.shared (s.pc i) input).1 := rfl
  rcases pumps_cases s.shared (s.pc i) input with
    ⟨hlifetime, hpumping, hpc⟩ | ⟨hlifetime, hpc, -⟩ | ⟨hlifetime, hidle, hpumping, hpc⟩ |
      ⟨p, hp, hlive, hlifetime, hpc⟩
  · have hsub : ∀ j n, ((arbiter.step s i input).pc j).lifetime = some n →
        (s.pc j).lifetime = some n := by
      intro j n hj
      by_cases hij : j = i
      · subst hij
        rw [hself] at hj
        rcases hpc with hnone | hsame
        · rw [hnone] at hj
          cases hj
        · rwa [hsame] at hj
      · rwa [hother hij] at hj
    refine ⟨fun j n hj => ?_, fun j hj => ?_, fun j k hj hk => ?_⟩
    · rw [hshared, hlifetime]
      exact hs.le j n (hsub j n hj)
    · rw [hshared, hlifetime] at hj
      rw [hshared, hpumping]
      exact hs.pumping j (hsub j _ hj)
    · rw [hshared, hlifetime] at hj hk
      exact hs.one j k (hsub j _ hj) (hsub k _ hk)
  · have hle : ∀ j n, ((arbiter.step s i input).pc j).lifetime = some n →
        n ≤ s.shared.queues.lifetime := by
      intro j n hj
      by_cases hij : j = i
      · subst hij
        rw [hself, hpc] at hj
        cases hj
      · rw [hother hij] at hj
        exact hs.le j n hj
    have hnone : ∀ j, ((arbiter.step s i input).pc j).lifetime ≠
        some (arbiter.step s i input).shared.queues.lifetime := by
      intro j hj
      have := hle j _ hj
      rw [hshared, hlifetime] at this
      omega
    refine ⟨fun j n hj => ?_, fun j hj => absurd hj (hnone j), fun j k hj => absurd hj (hnone j)⟩
    rw [hshared, hlifetime]
    exact Nat.le_succ_of_le (hle j n hj)
  · -- There was no live pump, so the new one is alone.
    have hself' : ∀ j, ((arbiter.step s i input).pc j).lifetime =
        some s.shared.queues.lifetime → j = i := by
      intro j hj
      by_contra hij
      rw [hother hij] at hj
      exact absurd (hs.pumping j hj) (by rw [hidle]; decide)
    refine ⟨fun j n hj => ?_, fun _ _ => hpumping, fun j k hj hk => ?_⟩
    · rw [hshared, hlifetime]
      by_cases hij : j = i
      · subst hij
        rw [hself, hpc] at hj
        cases hj
        exact Nat.le_refl _
      · rw [hother hij] at hj
        exact hs.le j n hj
    · rw [hshared, hlifetime] at hj hk
      exact (hself' j hj).trans (hself' k hk).symm
  · -- The live pump ends: no other is left.
    have hcurrent := lifetime_of_running hp
    rw [hs.live hf hp hlive] at hcurrent
    have hnone : ∀ j, ((arbiter.step s i input).pc j).lifetime ≠
        some (arbiter.step s i input).shared.queues.lifetime := by
      intro j hj
      rw [hshared, hlifetime] at hj
      by_cases hij : j = i
      · subst hij
        rw [hself, hpc] at hj
        cases hj
      · rw [hother hij] at hj
        exact hij (hs.one j i hj hcurrent)
    refine ⟨fun j n hj => ?_, fun j hj => absurd hj (hnone j), fun j k hj => absurd hj (hnone j)⟩
    rw [hshared, hlifetime]
    by_cases hij : j = i
    · subst hij
      rw [hself, hpc] at hj
      cases hj
    · rw [hother hij] at hj
      exact hs.le j n hj

theorem start_pumps (depth : Nat) : Pumps (start depth) :=
  ⟨nofun, nofun, nofun⟩

/-!
## What is sent

While no pump outlives `2 ^ 32` lifetimes, an item has at most one successful result, and it has
none while it is queued or in flight: two pumps never hold a copy of the same item, and what a pump
of a lifetime before holds is no longer queued.
-/

open List

/-- Whether a note is a successful result of the item with a ticket. -/
def Note.succeeds (n : Nat) : Note → Bool
  | .result _ x code => decide (code = 0 ∧ x.tag.ticket = n)
  | _ => false

def successes (h : History) (n : Nat) : Nat := (plain h).countP (Note.succeeds n)

structure Sends (h : History) (s : Threads.State Shared Pc) : Prop where
  once : ∀ n, successes h n ≤ 1
  new : ∀ n, s.shared.queues.ticket < n → successes h n = 0
  queued : ∀ k x, s.shared.queues.contents.Has k x → successes h x.tag.ticket = 0
  flight : ∀ i p x, (s.pc i).flight = some (p, x) → successes h x.item.tag.ticket = 0
  alone : ∀ i j p p' x y, (s.pc i).flight = some (p, x) → (s.pc j).flight = some (p', y) →
    x.item.tag.ticket = y.item.tag.ticket → i = j
  outlived : ∀ i p x, (s.pc i).flight = some (p, x) → p.lifetime < s.shared.queues.lifetime →
    ∀ k y, s.shared.queues.contents.Has k y → y.tag.ticket ≠ x.item.tag.ticket
  sent : ∀ k x, .removed k x .sent ∈ plain h → successes h x.tag.ticket = 1

variable {t : Shared} {pc : Pc} {depth : Nat} {h : History} {s : Threads.State Shared Pc} {i : Nat}
  {p : Pump} {x : Pending} {input : Input}

/-! ### A successful result -/

theorem pumpResult_succeeds (t : Shared) (p : Pump) (x : Pending) (n : Nat) :
    (pumpResult t p x 0).2.1.countP (Note.succeeds n) =
      if x.item.tag.ticket = n then 1 else 0 := by
  rcases pumpResult_cases t p x 0 with ⟨-, heq⟩ | ⟨-, -, ⟨-, -, heq⟩ | ⟨-, heq⟩⟩
  all_goals
    rw [heq]
    simp [countP_cons, Note.succeeds]

/-- A section has a successful result only where it is the section behind the send. -/
theorem succeeds_cases (t : Shared) (pc : Pc) (input : Input) :
    (∀ n, (body t pc input).2.1.countP (Note.succeeds n) = 0) ∨
      ∃ p x, pc.flight = some (p, x) ∧ body t pc input = pumpResult t p x 0 := by
  by_cases hno : ∀ n, (body t pc input).2.1.countP (Note.succeeds n) = 0
  · exact .inl hno
  · right
    obtain ⟨n, hn⟩ := not_forall.mp hno
    obtain ⟨note, hmem, hsucceeds⟩ := countP_pos_iff.mp (Nat.pos_of_ne_zero hn)
    cases note with
    | result k y rc =>
      obtain ⟨rfl, -⟩ := of_decide_eq_true hsucceeds
      obtain ⟨p, x, hflight, -, -, heq⟩ := result_cases hmem
      exact ⟨p, x, hflight, heq⟩
    | _ => cases hsucceeds

theorem pumpResult_gone (ht : t.queues.Wf depth) (hx : x.Copied t.queues.contents)
    (hover : p.outlived t.queues →
      ∀ k y, t.queues.contents.Has k y → y.tag.ticket ≠ x.item.tag.ticket)
    {k : Kind} {y : Slot} (hy : (pumpResult t p x 0).1.queues.contents.Has k y) :
    y.tag.ticket ≠ x.item.tag.ticket := by
  rcases pumpResult_cases t p x 0 with ⟨hdead, heq⟩ | ⟨-, -, ⟨-, hsame, heq⟩ | ⟨hno, heq⟩⟩
  · rw [heq] at hy
    exact hover hdead k y hy
  · obtain ⟨hget, hused⟩ := get_of_same hx hsame
    rw [heq] at hy
    rw [contents_set, Slot.content, Slot.clear, if_neg Bool.false_ne_true] at hy
    obtain ⟨j, hj⟩ := Contents.has_iff.mp hy
    rw [Contents.setItem_get (lt_of_get (contents_get.mpr ⟨hget, hused⟩))] at hj
    intro hticket
    split at hj
    · cases hj
    · next hne =>
      obtain ⟨hk, hslot, -⟩ := hx.place k j y hj hticket
      exact hne ⟨hk, hslot⟩
  · rw [heq] at hy
    intro hticket
    obtain ⟨j, hj⟩ := Contents.has_iff.mp hy
    obtain ⟨rfl, rfl, rfl⟩ := hx.place k j y hj hticket
    obtain ⟨hget, hused⟩ := contents_get.mp hj
    obtain ⟨honline, hsession⟩ := ht.ok.link _ _ hy
    refine hno ⟨.inl rfl, ?_⟩
    change t.queues.online x.item.tag.link = true at honline
    change t.queues.sessions x.item.tag.link = x.item.tag.session at hsession
    rw [Queues.same, getD_eq_getElem?_getD, hget, Option.getD_some, hused, honline, hsession]
    simp

/-! ### Copies in flight -/

/-- Where a copy that is in flight behind a section was: there already, or still queued, with a pump
at the head of its loop. -/
theorem flight_before {j : Nat} {input : Input}
    (h : ((arbiter.step s i input).pc j).flight = some (p, x)) :
    (s.pc j).flight = some (p, x) ∨
      (j = i ∧ (s.pc j).running = some p ∧ ¬ p.outlived s.shared.queues ∧
        s.shared.queues.contents.Has x.kind x.item ∧
        (arbiter.step s i input).shared = s.shared) := by
  by_cases hij : j = i
  · subst hij
    rw [Threads.step_pc_self] at h
    rcases flight_cases h with ⟨-, hx⟩ | ⟨hpc, -⟩ | ⟨hpc, -⟩ | ⟨hpc, hlive, hnext, heq⟩
    · exact .inl hx
    · exact .inl (by rw [hpc]; rfl)
    · exact .inl (by rw [hpc]; rfl)
    · refine .inr ⟨rfl, by rw [hpc]; rfl, hlive, ?_, congrArg Prod.fst heq⟩
      exact Contents.has_iff.mpr ⟨_, (next_some hnext).1⟩
  · rw [Threads.step_pc_of_ne hij] at h
    exact .inl h

theorem plain_step (h : History) (s : Threads.State Shared Pc) (i : Nat) (input : Input) :
    plain (h ++ arbiter.notes s i input) = plain h ++ (body s.shared (s.pc i) input).2.1 := by
  rw [plain, map_append, ← plain_notes]

theorem successes_step (h : History) (s : Threads.State Shared Pc) (i : Nat) (input : Input)
    (n : Nat) :
    successes (h ++ arbiter.notes s i input) n =
      successes h n + (body s.shared (s.pc i) input).2.1.countP (Note.succeeds n) := by
  rw [successes, plain_step, countP_append]
  rfl

namespace Sends

/-- Two pumps never hold a copy of the same item. -/
theorem alone_step (hs : Sends h s) (hpumps : Pumps s) (hf : Fresh s) {j k : Nat} {p' : Pump}
    {y : Pending} (hj : ((arbiter.step s i input).pc j).flight = some (p, x))
    (hk : ((arbiter.step s i input).pc k).flight = some (p', y))
    (hticket : x.item.tag.ticket = y.item.tag.ticket) : j = k := by
  -- A copy that has just been taken up is of a queued item, and no other live pump is running.
  have hnew : ∀ {k : Nat} {p' : Pump} {y : Pending}, (s.pc k).flight = some (p', y) →
      ∀ {p : Pump} {x : Pending}, (s.pc i).running = some p →
      ¬ p.outlived s.shared.queues → s.shared.queues.contents.Has x.kind x.item →
      x.item.tag.ticket = y.item.tag.ticket → i = k := by
    intro k p' y hk p x hp hlive hx hticket
    have hi := lifetime_of_running hp
    rw [hpumps.live hf hp hlive] at hi
    have hle := hpumps.le k _ (lifetime_of_running (running_of_flight hk))
    rcases Nat.lt_or_eq_of_le hle with hlt | heq
    · exact absurd hticket (hs.outlived k p' y hk hlt _ _ hx)
    · refine hpumps.one i k hi ?_
      rw [lifetime_of_running (running_of_flight hk), heq]
  rcases flight_before hj with hxs | ⟨hji, hp, hlive, hx, -⟩
  · rcases flight_before hk with hys | ⟨hki, hp, hlive, hy, -⟩
    · exact hs.alone j k p p' x y hxs hys hticket
    · exact ((hnew hxs (hki ▸ hp) hlive hy hticket.symm).symm).trans hki.symm
  · rcases flight_before hk with hys | ⟨hki, -⟩
    · exact hji.trans (hnew hys (hji ▸ hp) hlive hx hticket)
    · exact hji.trans hki.symm

theorem over_step (hi : Items depth h s) (hs : Sends h s) (hpumps : Pumps s) (hf : Fresh s)
    {j : Nat} (hj : ((arbiter.step s i input).pc j).flight = some (p, x))
    (hlt : p.lifetime < (arbiter.step s i input).shared.queues.lifetime) {k : Kind} {y : Slot}
    (hy : (arbiter.step s i input).shared.queues.contents.Has k y) :
    y.tag.ticket ≠ x.item.tag.ticket := by
  rcases flight_before hj with hbefore | ⟨rfl, hp, hlive, -, hshared⟩
  · have hkeep : p.lifetime < s.shared.queues.lifetime → y.tag.ticket ≠ x.item.tag.ticket := by
      intro hlt
      rcases (hi.moves i input).has hy with hold | hnew
      · exact hs.outlived j p x hbefore hlt k y hold
      · have hle := (hi.copied j p x hbefore).1.old
        exact Nat.ne_of_gt (Nat.lt_of_le_of_lt hle hnew)
    rcases pumps_cases s.shared (s.pc i) input with
      ⟨heq, -⟩ | ⟨-, -, hempty⟩ | ⟨heq, -⟩ | ⟨_, -, -, heq, -⟩
    · exact hkeep (heq ▸ hlt)
    · exact absurd hy (hempty k y)
    · exact hkeep (heq ▸ hlt)
    · exact hkeep (heq ▸ hlt)
  · rw [hshared, hpumps.live hf hp hlive] at hlt
    exact absurd hlt (Nat.lt_irrefl _)

theorem step_quiet (hi : Items depth h s) (hs : Sends h s) (hpumps : Pumps s) (hf : Fresh s)
    (hno : ∀ n, (body s.shared (s.pc i) input).2.1.countP (Note.succeeds n) = 0) :
    Sends (h ++ arbiter.notes s i input) (arbiter.step s i input) := by
  have hmoves := hi.moves i input
  have hcount : ∀ n, successes (h ++ arbiter.notes s i input) n = successes h n := fun n => by
    rw [successes_step, hno n, Nat.add_zero]
  refine ⟨fun n => ?_, fun n hn => ?_, fun k y hy => ?_, fun j p x hj => ?_,
    fun j k p p' x y hj hk => hs.alone_step hpumps hf hj hk,
    fun j p x hj hlt k y hy => over_step hi hs hpumps hf hj hlt hy, fun k y hy => ?_⟩
  · rw [hcount]
    exact hs.once n
  · rw [hcount]
    exact hs.new n (Nat.lt_of_le_of_lt hmoves.ticket_le hn)
  · rw [hcount]
    rcases hmoves.has hy with hold | hnew
    · exact hs.queued k y hold
    · exact hs.new _ hnew
  · rw [hcount]
    rcases flight_before hj with hbefore | ⟨-, -, -, hx, -⟩
    · exact hs.flight j p x hbefore
    · exact hs.queued _ _ hx
  · rw [plain_step] at hy
    rw [hcount]
    rcases mem_append.mp hy with hy | hy
    · exact hs.sent k y hy
    · -- A removal as sent comes with a successful result.
      obtain ⟨p, x, -, -, -, -, -, heq⟩ := sent_cases hy
      have hone := hno x.item.tag.ticket
      rw [heq, pumpResult_succeeds, if_pos rfl] at hone
      cases hone

/-- A send that succeeds is the first of its ticket, and the item leaves the queue with it. -/
theorem step_success (hi : Items depth h s) (hs : Sends h s) (hpumps : Pumps s) (hf : Fresh s)
    (hflight : (s.pc i).flight = some (p, x))
    (heq : body s.shared (s.pc i) input = pumpResult s.shared p x 0) :
    Sends (h ++ arbiter.notes s i input) (arbiter.step s i input) := by
  have hmoves := hi.moves i input
  have hcopied := (hi.copied i p x hflight).1
  have hcount : ∀ n, successes (h ++ arbiter.notes s i input) n =
      successes h n + if x.item.tag.ticket = n then 1 else 0 := fun n => by
    rw [successes_step, heq, pumpResult_succeeds]
  have hsame : ∀ {n}, x.item.tag.ticket ≠ n →
      successes (h ++ arbiter.notes s i input) n = successes h n := fun hne => by
    rw [hcount, if_neg hne, Nat.add_zero]
  have hzero := hs.flight i p x hflight
  -- a pump that the session has outlived finds nothing of its ticket in the queue
  have hover : p.outlived s.shared.queues → ∀ k y, s.shared.queues.contents.Has k y →
      y.tag.ticket ≠ x.item.tag.ticket := by
    intro hdead
    refine hs.outlived i p x hflight ?_
    have hle := hpumps.le i _ (lifetime_of_running (running_of_flight hflight))
    refine Nat.lt_of_le_of_ne hle fun heq => ?_
    exact Pumps.not_outlived heq hdead
  refine ⟨fun n => ?_, fun n hn => ?_, fun k y hy => ?_, fun j p' y hj => ?_,
    fun j k p p' x y hj hk => hs.alone_step hpumps hf hj hk,
    fun j p x hj hlt k y hy => over_step hi hs hpumps hf hj hlt hy, fun k y hy => ?_⟩
  · by_cases hn : x.item.tag.ticket = n
    · subst hn
      exact Nat.le_of_eq (by rw [hcount, hzero, if_pos rfl])
    · rw [hsame hn]
      exact hs.once n
  · have hold := Nat.lt_of_le_of_lt hmoves.ticket_le hn
    have hle : x.item.tag.ticket ≤ s.shared.queues.ticket := hcopied.old
    rw [hsame (Nat.ne_of_lt (Nat.lt_of_le_of_lt hle hold))]
    exact hs.new n hold
  · have hne : y.tag.ticket ≠ x.item.tag.ticket := by
      refine pumpResult_gone hi.wf hcopied hover (k := k) ?_
      rw [← heq]
      exact hy
    rw [hsame hne.symm]
    rcases hmoves.has hy with hold | hnew
    · exact hs.queued k y hold
    · exact hs.new _ hnew
  · rcases flight_before hj with hbefore | ⟨rfl, -⟩
    · by_cases hij : j = i
      · subst hij
        rw [Threads.step_pc_self] at hj
        change (body s.shared (s.pc j) input).2.2.flight = _ at hj
        rw [heq, pumpResult_flight] at hj
        cases hj
      · have hne : x.item.tag.ticket ≠ y.item.tag.ticket := fun hticket =>
          hij (hs.alone i j p p' x y hflight hbefore hticket).symm
        rw [hsame hne]
        exact hs.flight j p' y hbefore
    · rw [Threads.step_pc_self] at hj
      change (body s.shared (s.pc j) input).2.2.flight = _ at hj
      rw [heq, pumpResult_flight] at hj
      cases hj
  · rw [plain_step] at hy
    rcases mem_append.mp hy with hy | hy
    · have hone := hs.sent k y hy
      have hne : x.item.tag.ticket ≠ y.tag.ticket := by
        intro hticket
        rw [← hticket, hzero] at hone
        cases hone
      rw [hsame hne, hone]
    · have hticket : y.tag.ticket = x.item.tag.ticket := by
        obtain ⟨p', x', hflight', -, hmatch, -, rfl, -⟩ := sent_cases hy
        cases hflight.symm.trans hflight'
        obtain ⟨hget, -⟩ := get_of_same hcopied hmatch
        rw [getD_eq_getElem?_getD, hget, Option.getD_some]
      rw [hticket, hcount, hzero, if_pos rfl]

theorem step (hi : Items depth h s) (hs : Sends h s) (hpumps : Pumps s) (hf : Fresh s)
    (input : Input) : Sends (h ++ arbiter.notes s i input) (arbiter.step s i input) := by
  rcases succeeds_cases s.shared (s.pc i) input with hno | ⟨p, x, hflight, heq⟩
  · exact step_quiet hi hs hpumps hf hno
  · exact step_success hi hs hpumps hf hflight heq

end Sends

/-- **The run**: from the start, while no pump outlives `2 ^ 32` lifetimes. -/
theorem sends_run (d : Depth) (events : List (Nat × Input))
    (hall : arbiter.machine.Throughout (fun s _ => Fresh s) (start d.slots) events) :
    Sends (arbiter.history (start d.slots) events)
      (arbiter.machine.run (start d.slots) events) := by
  let Inv (h : History) (s : Threads.State Shared Pc) : Prop :=
    Items d.slots h s ∧ Pumps s ∧ Sends h s
  have hstep : ∀ h s i input, Inv h s → Fresh s →
      Inv (h ++ arbiter.notes s i input) (arbiter.step s i input) := by
    rintro h s i input ⟨hi, hpumps, hs⟩ hf
    exact ⟨hi.step i input, hpumps.step hf i input, Sends.step hi hs hpumps hf input⟩
  have h0 : Inv [] (start d.slots) :=
    ⟨start_items d, start_pumps d.slots, fun _ => Nat.zero_le _, fun _ _ => rfl, fun _ _ _ => rfl,
      fun _ _ _ _ => rfl, nofun, nofun, fun _ _ hn => absurd hn not_mem_nil⟩
  exact (Threads.history_invariant_of hstep h0 events hall).2.2

end Brickwright.Btsensor.Tx
