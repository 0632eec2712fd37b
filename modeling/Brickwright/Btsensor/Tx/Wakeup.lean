import Brickwright.Btsensor.Tx.Delivery

/-!
# Wakeups

A pump runs in rounds: a notification that finds no pump begins the first, and the pump itself
begins a second one if another notification was merged into the first. When no pump is left, every
link with items has had a refused send in the last round; a notification that was merged since is
lost only if that round was the second (`no_lost_wakeup`).
-/

namespace Brickwright.Btsensor.Tx

open List

def Enters (e : Nat × Note) : Prop := e.2 = .entered

def Retries (e : Nat × Note) : Prop := e.2 = .retried

def Merges (e : Nat × Note) : Prop := e.2 = .merged

def Begins (e : Nat × Note) : Prop := Enters e ∨ Retries e

/-- A send of the link was refused; `mid` is what is noted since the pump took the item up. -/
def Refused (link : Link) (h pre mid : History) : Prop :=
  ∃ i k x code, h = pre ++ (i, .selected k x) :: mid ∧ x.tag.link = link ∧
    (i, .result k x code) ∈ mid ∧ code ≠ 0 ∧ staleBle x code = false

/-- A send of the link was refused in the last round; and no notification has been merged since the
pump took the item up, or it was the second round. -/
def LeftFor (link : Link) (h : History) : Prop :=
  ∃ pre mid, Refused link h pre mid ∧ (∀ e ∈ mid, ¬ Begins e) ∧
    ((∀ e ∈ mid, ¬ Merges e) ∨ Outstanding Retries Enters pre)

/-- `btsensor_tx_init` and `btsensor_tx_deinit` are not called while a pump is running. -/
def NoReset (s : Threads.State Shared Pc) (e : Nat × Input) : Prop :=
  e.2 = .call .init ∨ e.2 = .call .deinit → ∀ i, (s.pc i).running = none

structure Round (h : History) (q : Queues) (i : Nat) (pc : Pc) (p : Pump) : Prop where
  current : p.lifetime = q.lifetime
  flight : ∀ x, pc.flight = some (p, x) →
    Outstanding (· = (i, .selected x.kind x.item)) Begins h
  blocked : ∀ link, p.blocked link = true →
    ∃ pre mid, Refused link h pre mid ∧ ∀ e ∈ mid, ¬ Begins e
  repoll : q.repoll = false → Outstanding Begins Merges h
  retry : p.retry = false → Outstanding Retries Enters h

structure Wake (h : History) (s : Threads.State Shared Pc) : Prop where
  one : ∀ i j p p', (s.pc i).running = some p → (s.pc j).running = some p' → i = j
  pumping : s.shared.queues.pumping = true ↔ ∃ i p, (s.pc i).running = some p
  round : ∀ i p, (s.pc i).running = some p → Round h s.shared.queues i (s.pc i) p
  rest : s.shared.queues.pumping = false → (∀ i, s.pc i ≠ .enter) →
    ∀ k x, s.shared.queues.contents.Has k x → x.tag.ticket ≠ maxTicket → LeftFor x.tag.link h

variable {d : Depth} {depth : Nat} {h l : History} {s : Threads.State Shared Pc} {t : Shared}
  {pc : Pc} {i : Nat} {p : Pump} {x : Pending} {input : Input} {link : Link} {q q' : Queues}

/-! ## The history goes on -/

theorem Refused.append {pre mid : History} (hr : Refused link h pre mid) (l : History) :
    Refused link (h ++ l) pre (mid ++ l) := by
  obtain ⟨i, k, x, code, rfl, hlink, hresult, hcode⟩ := hr
  refine ⟨i, k, x, code, ?_, hlink, mem_append_left _ hresult, hcode⟩
  rw [append_assoc, cons_append]

theorem not_mem_append {P : Nat × Note → Prop} {mid : History} (h : ∀ e ∈ mid, ¬ P e)
    (hl : ∀ e ∈ l, ¬ P e) : ∀ e ∈ mid ++ l, ¬ P e :=
  fun e he => (mem_append.mp he).elim (h e) (hl e)

theorem LeftFor.append (hleft : LeftFor link h) (hbegins : ∀ e ∈ l, ¬ Begins e)
    (hmerges : ∀ e ∈ l, ¬ Merges e) : LeftFor link (h ++ l) := by
  obtain ⟨pre, mid, hrefused, hround, hlast⟩ := hleft
  refine ⟨pre, mid ++ l, hrefused.append l, not_mem_append hround hbegins, ?_⟩
  exact hlast.imp_left fun hno => not_mem_append hno hmerges

theorem Round.append (hr : Round h q i pc p) (hlifetime : q'.lifetime = q.lifetime)
    (hbegins : ∀ e ∈ l, ¬ Begins e)
    (hrepoll : q'.repoll = false → q.repoll = false ∧ ∀ e ∈ l, ¬ Merges e) :
    Round (h ++ l) q' i pc p where
  current := hr.current.trans hlifetime.symm
  flight x hx := (hr.flight x hx).append_left hbegins
  blocked link hlink := by
    obtain ⟨pre, mid, hrefused, hround⟩ := hr.blocked link hlink
    exact ⟨pre, mid ++ l, hrefused.append l, not_mem_append hround hbegins⟩
  repoll hq := (hr.repoll (hrepoll hq).1).append_left (hrepoll hq).2
  retry hp := (hr.retry hp).append_left fun e he henters => hbegins e he (.inl henters)

/-! ## The notes of a section -/

theorem not_begins (h : ∀ n ∈ (body s.shared (s.pc i) input).2.1, n ≠ .entered ∧ n ≠ .retried) :
    ∀ e ∈ arbiter.notes s i input, ¬ Begins e := by
  rintro ⟨j, n⟩ he hbegins
  obtain ⟨hentered, hretried⟩ := h n (Threads.mem_notes.mp he).2
  exact hbegins.elim hentered hretried

theorem not_merges (h : ∀ n ∈ (body s.shared (s.pc i) input).2.1, n ≠ .merged) :
    ∀ e ∈ arbiter.notes s i input, ¬ Merges e := by
  rintro ⟨j, n⟩ he hmerges
  exact h n (Threads.mem_notes.mp he).2 hmerges

theorem Note.Aside.plain {n : Note} (h : n.Aside) :
    n ≠ .entered ∧ n ≠ .retried ∧ n ≠ .merged := by
  refine ⟨?_, ?_, ?_⟩
  all_goals
    rintro rfl
    exact h.pump trivial

/-! ## The next ticket -/

theorem Queueing.ticket {r : Shared × List Note × Pc} (h : Queueing t r) :
    r.1.queues.ticket = t.queues.ticket ∨ r.2.2 = .enter := by
  rcases h.enqueued with h | ⟨⟩ | ⟨⟩
  · exact .inl (congrArg Queues.ticket h.queues)
  · exact .inl rfl
  · exact .inr rfl

theorem ticket_cases (t : Shared) (input : Input) (hpc : pc.running = none) (henter : pc ≠ .enter) :
    (body t pc input).1.queues.ticket = t.queues.ticket ∨ (body t pc input).2.2 = .enter := by
  cases input with
  | call c =>
    unfold body
    dsimp only
    split
    · rcases call_cases t c with h | rfl | rfl | ⟨link, selected, heq⟩ | ⟨_, _, _, rfl⟩
      · exact h.ticket
      · exact .inl rfl
      · exact .inl rfl
      · rw [heq, setLink]
        split
        · exact .inr rfl
        · exact .inl rfl
      · exact .inr rfl
    · exact .inl rfl
  | resume rc => exact (resume_queueing t hpc henter rc).ticket

/-! ## The step -/

namespace Wake

theorem beside (hw : Wake h s) (hbefore : (s.pc i).running = none)
    (hafter : (body s.shared (s.pc i) input).2.2.running = none)
    (hlifetime : (body s.shared (s.pc i) input).1.queues.lifetime = s.shared.queues.lifetime)
    (hpumping : (body s.shared (s.pc i) input).1.queues.pumping = s.shared.queues.pumping)
    (hbegins : ∀ e ∈ arbiter.notes s i input, ¬ Begins e)
    (hrepoll : (body s.shared (s.pc i) input).1.queues.repoll = false →
      s.shared.queues.repoll = false ∧ ∀ e ∈ arbiter.notes s i input, ¬ Merges e)
    (hrest : s.shared.queues.pumping = false → (∀ j, (arbiter.step s i input).pc j ≠ .enter) →
      ∀ k x, (arbiter.step s i input).shared.queues.contents.Has k x →
        x.tag.ticket ≠ maxTicket → LeftFor x.tag.link (h ++ arbiter.notes s i input)) :
    Wake (h ++ arbiter.notes s i input) (arbiter.step s i input) := by
  have hsame : ∀ j, ((arbiter.step s i input).pc j).running = (s.pc j).running := by
    intro j
    by_cases hij : j = i
    · subst hij
      rw [Threads.step_pc_self, hbefore]
      exact hafter
    · rw [Threads.step_pc_of_ne hij]
  have hne : ∀ {j p}, (s.pc j).running = some p → j ≠ i := by
    rintro j p hj rfl
    rw [hbefore] at hj
    cases hj
  refine ⟨?_, ?_, ?_, ?_⟩
  · intro j k p p' hj hk
    rw [hsame] at hj hk
    exact hw.one j k p p' hj hk
  · show (body s.shared (s.pc i) input).1.queues.pumping = true ↔ _
    rw [hpumping, hw.pumping]
    exact exists_congr fun j => exists_congr fun p => by rw [hsame]
  · intro j p hj
    rw [hsame] at hj
    rw [Threads.step_pc_of_ne (hne hj)]
    exact (hw.round j p hj).append hlifetime hbegins hrepoll
  · intro hidle henter
    exact hrest (hpumping ▸ hidle) henter

theorem going (hw : Wake h s) (hrun : (s.pc i).running = some p) (p' : Pump)
    (hafter : (body s.shared (s.pc i) input).2.2.running = some p')
    (hpumping : (body s.shared (s.pc i) input).1.queues.pumping = s.shared.queues.pumping)
    (hround : Round (h ++ arbiter.notes s i input) (body s.shared (s.pc i) input).1.queues i
      (body s.shared (s.pc i) input).2.2 p') :
    Wake (h ++ arbiter.notes s i input) (arbiter.step s i input) := by
  have hself : (arbiter.step s i input).pc i = (body s.shared (s.pc i) input).2.2 :=
    Threads.step_pc_self i input
  have hsolo : ∀ {j p'}, ((arbiter.step s i input).pc j).running = some p' → j = i := by
    intro j p' hj
    by_contra hij
    rw [Threads.step_pc_of_ne hij] at hj
    exact hij (hw.one j i p' p hj hrun)
  have hset : (arbiter.step s i input).shared.queues.pumping = true :=
    hpumping.trans (hw.pumping.mpr ⟨i, p, hrun⟩)
  refine ⟨fun j k _ _ hj hk => (hsolo hj).trans (hsolo hk).symm, ?_, ?_, ?_⟩
  · exact iff_of_true hset ⟨i, p', by rw [hself]; exact hafter⟩
  · intro j p₁ hj
    obtain rfl := hsolo hj
    rw [hself] at hj ⊢
    cases hafter.symm.trans hj
    exact hround
  · intro hidle
    rw [hset] at hidle
    cases hidle

/-- Behind the last section of the pump the links are left for the next notification. -/
theorem left_behind (hw : Wake h s) (hrun : (s.pc i).running = some p)
    (hnext : s.shared.queues.next p.blocked = none)
    (hretry : s.shared.queues.repoll = true → p.retry = false)
    (hold : s.shared.queues.contents.Ok) {k : Kind} {y : Slot}
    (hy : s.shared.queues.contents.Has k y) (hlast : y.tag.ticket ≠ maxTicket) :
    LeftFor y.tag.link h := by
  have hround := hw.round i p hrun
  have hblocked : p.blocked y.tag.link = true := by
    rcases next_none hnext hy with hblocked | hmax
    · exact hblocked
    · have hle := Nat.le_trans (hold.old k y hy) hold.ticket
      exact absurd (Nat.le_antisymm hle hmax) hlast
  obtain ⟨pre, mid, hrefused, hmid⟩ := hround.blocked _ hblocked
  refine ⟨pre, mid, hrefused, hmid, ?_⟩
  obtain ⟨i', k', x, code, hh, -⟩ := hrefused
  -- The round began before the item was taken up.
  have hsplit : ∀ {opens closes : Nat × Note → Prop}, Outstanding opens closes h →
      (∀ e, opens e → Begins e) → ∃ a e b, pre = a ++ e :: b ∧ opens e ∧
        (∀ e' ∈ b, ¬ closes e') ∧ ∀ e' ∈ mid, ¬ closes e' := by
    rintro opens closes ⟨a, e, b, heq, he, hno⟩ hopens
    rw [hh] at heq
    have hout : e ∉ (i', .selected k' x) :: mid := by
      intro hmem
      rcases mem_cons.mp hmem with rfl | hmem
      · rcases hopens _ he with hb | hb <;> cases hb
      · exact hmid e hmem (hopens e he)
    obtain ⟨b', rfl, rfl⟩ := Outstanding.split_left heq hout
    refine ⟨a, e, b', rfl, he, fun e' he' => hno e' (mem_append_left _ he'), ?_⟩
    exact fun e' he' => hno e' (mem_append_right _ (mem_cons_of_mem _ he'))
  cases hrepoll : s.shared.queues.repoll with
  | false =>
    obtain ⟨-, -, -, -, -, -, hno⟩ := hsplit (hround.repoll hrepoll) fun _ => id
    exact .inl hno
  | true =>
    obtain ⟨a, e, b, rfl, he, hno, -⟩ := hsplit (hround.retry (hretry hrepoll)) fun _ => .inr
    exact .inr ⟨a, e, b, rfl, he, hno⟩

theorem aside_step (hi : Items depth h s) (hw : Wake h s) (hpc : (s.pc i).running = none)
    (henter : s.pc i ≠ .enter) (hafter : (body s.shared (s.pc i) input).2.2.running = none)
    (hnotes : ∀ n ∈ (body s.shared (s.pc i) input).2.1, n.Aside)
    (hflags : (body s.shared (s.pc i) input).1.queues.flags = s.shared.queues.flags) :
    Wake (h ++ arbiter.notes s i input) (arbiter.step s i input) := by
  rw [Queues.flags, Queues.flags, Prod.mk.injEq, Prod.mk.injEq] at hflags
  obtain ⟨hlifetime, hpumping, hrepoll⟩ := hflags
  have hbegins : ∀ e ∈ arbiter.notes s i input, ¬ Begins e :=
    not_begins fun n hn => ⟨(hnotes n hn).plain.1, (hnotes n hn).plain.2.1⟩
  have hmerges : ∀ e ∈ arbiter.notes s i input, ¬ Merges e :=
    not_merges fun n hn => (hnotes n hn).plain.2.2
  refine hw.beside hpc hafter hlifetime hpumping hbegins (fun hq => ⟨hrepoll ▸ hq, hmerges⟩) ?_
  intro hidle hno k y hy hlast
  have hbefore : ∀ j, s.pc j ≠ .enter := by
    intro j
    by_cases hij : j = i
    · rw [hij]
      exact henter
    · have := hno j
      rwa [Threads.step_pc_of_ne hij] at this
  refine LeftFor.append ?_ hbegins hmerges
  rcases (hi.moves i input).has hy with hold | hnew
  · exact hw.rest hidle hbefore k y hold hlast
  · -- Whoever has put a new item in stands before its notification.
    rcases ticket_cases s.shared input hpc henter with hticket | hgoes
    · have hle := (hi.step i input).wf.ok.old k y hy
      change y.tag.ticket ≤ (body s.shared (s.pc i) input).1.queues.ticket at hle
      rw [hticket] at hle
      exact absurd hnew (Nat.not_lt.mpr hle)
    · refine absurd ?_ (hno i)
      rw [Threads.step_pc_self]
      exact hgoes

theorem reset_step (hw : Wake h s) (hnone : ∀ j, (s.pc j).running = none)
    (hafter : (body s.shared (s.pc i) input).2.2.running = none)
    (hpumping : (body s.shared (s.pc i) input).1.queues.pumping = true →
      s.shared.queues.pumping = true)
    (hempty : ∀ k y, ¬ (body s.shared (s.pc i) input).1.queues.contents.Has k y) :
    Wake (h ++ arbiter.notes s i input) (arbiter.step s i input) := by
  have hstill : ∀ j p, ((arbiter.step s i input).pc j).running ≠ some p := by
    intro j p hj
    by_cases hij : j = i
    · subst hij
      rw [Threads.step_pc_self] at hj
      cases hafter.symm.trans hj
    · rw [Threads.step_pc_of_ne hij, hnone] at hj
      cases hj
  refine ⟨fun j _ p _ hj => absurd hj (hstill j p), ?_, fun j p hj => absurd hj (hstill j p),
    fun _ _ k y hy => absurd hy (hempty k y)⟩
  constructor
  · intro hset
    obtain ⟨j, p, hj⟩ := hw.pumping.mp (hpumping hset)
    rw [hnone] at hj
    cases hj
  · rintro ⟨j, p, hj⟩
    exact absurd hj (hstill j p)

/-- Who enters is the pump, or leaves a wish to poll again to the one there is. -/
theorem enter_step (hw : Wake h s) (hpc : s.pc i = .enter)
    (hbody : body s.shared (s.pc i) input = enter s.shared) :
    Wake (h ++ arbiter.notes s i input) (arbiter.step s i input) := by
  have hnone : (s.pc i).running = none := by
    rw [hpc]
    rfl
  rcases enter_cases s.shared with ⟨hpumping, heq⟩ | ⟨hpumping, heq⟩
  · have hbody := hbody.trans heq
    refine hw.beside hnone (by rw [hbody]; rfl) (by rw [hbody]) (by rw [hbody]) ?_
      (fun hq => ?_) (fun hidle => ?_)
    · refine not_begins ?_
      rw [hbody]
      simp
    · rw [hbody] at hq
      cases hq
    · rw [hpumping] at hidle
      cases hidle
  · have hbody := hbody.trans heq
    have hidle : ∀ j p, (s.pc j).running ≠ some p := by
      intro j p hj
      have hset := hw.pumping.mpr ⟨j, p, hj⟩
      rw [hpumping] at hset
      cases hset
    have hself : (arbiter.step s i input).pc i =
        .loop ⟨s.shared.queues.lifetime, fun _ => false, true⟩ :=
      (Threads.step_pc_self i input).trans (congrArg (fun r => r.2.2) hbody)
    have hsolo : ∀ {j p'}, ((arbiter.step s i input).pc j).running = some p' → j = i := by
      intro j p' hj
      by_contra hij
      rw [Threads.step_pc_of_ne hij] at hj
      exact hidle j p' hj
    have hset : (arbiter.step s i input).shared.queues.pumping = true :=
      congrArg (fun r => r.1.queues.pumping) hbody
    have hnotes : arbiter.notes s i input = [(i, .entered)] :=
      congrArg (fun r => r.2.1.map (Prod.mk i)) hbody
    refine ⟨fun j k _ _ hj hk => (hsolo hj).trans (hsolo hk).symm, ?_, ?_, ?_⟩
    · exact iff_of_true hset ⟨i, _, congrArg Pc.running hself⟩
    · intro j p hj
      obtain rfl := hsolo hj
      rw [hself] at hj ⊢
      cases hj
      refine ⟨(congrArg (fun r => r.1.queues.lifetime) hbody).symm, nofun, nofun, ?_, nofun⟩
      rw [hnotes]
      exact fun _ => Outstanding.concat.mpr (.inl (.inl rfl))
    · intro hoff
      rw [hset] at hoff
      cases hoff

/-- The loop of the pump: it selects, retries, or has an account of what it leaves behind. -/
theorem loop_step (hi : Items depth h s) (hw : Wake h s) (hpc : s.pc i = .loop p)
    (hbody : body s.shared (s.pc i) input = pumpLoop s.shared p) :
    Wake (h ++ arbiter.notes s i input) (arbiter.step s i input) := by
  have hrun : (s.pc i).running = some p := by
    rw [hpc]
    rfl
  have hround := hw.round i p hrun
  rcases pumpLoop_cases s.shared p with
    ⟨hdead, -⟩ | ⟨-, ⟨x, -, heq⟩ | ⟨-, -, -, heq⟩ | ⟨hnext, hretry, heq⟩⟩
  · exact absurd hdead (Pumps.not_outlived hround.current)
  · have hbody := hbody.trans heq
    have hnotes : arbiter.notes s i input = [(i, .selected x.kind x.item)] :=
      congrArg (fun r => r.2.1.map (Prod.mk i)) hbody
    have hkeep : Round (h ++ arbiter.notes s i input) (body s.shared (s.pc i) input).1.queues i
        (s.pc i) p := by
      refine hround.append (by rw [hbody]) ?_ (fun hq => ⟨?_, ?_⟩)
      · rw [hnotes]
        rintro e he
        cases mem_singleton.mp he
        exact fun hb => hb.elim Note.noConfusion Note.noConfusion
      · rwa [hbody] at hq
      · rw [hnotes]
        rintro e he
        cases mem_singleton.mp he
        exact Note.noConfusion
    refine hw.going hrun p ?_ (by rw [hbody]) ⟨hkeep.current, ?_, hkeep.blocked,
      hkeep.repoll, hkeep.retry⟩
    · rw [hbody]
      split <;> rfl
    · intro x' hx'
      have heqx : x' = x := by
        rw [hbody] at hx'
        split at hx' <;> cases hx' <;> rfl
      rw [hnotes, heqx]
      exact Outstanding.concat.mpr (.inl rfl)
  · have hbody := hbody.trans heq
    have hnotes : arbiter.notes s i input = [(i, .retried)] :=
      congrArg (fun r => r.2.1.map (Prod.mk i)) hbody
    refine hw.going hrun _ (by rw [hbody]; rfl) (by rw [hbody]) ?_
    rw [hnotes, hbody]
    refine ⟨hround.current, nofun, nofun, fun _ => ?_, fun _ => ?_⟩
    · exact Outstanding.concat.mpr (.inl (.inr rfl))
    · exact Outstanding.concat.mpr (.inl rfl)
  · have hbody := hbody.trans heq
    have hnotes : arbiter.notes s i input = [(i, .finished)] :=
      congrArg (fun r => r.2.1.map (Prod.mk i)) hbody
    -- there was one pump, and its round is over
    have hnone : ∀ j p', ((arbiter.step s i input).pc j).running ≠ some p' := by
      intro j p' hj
      by_cases hij : j = i
      · subst hij
        rw [Threads.step_pc_self] at hj
        change (body s.shared (s.pc j) input).2.2.running = _ at hj
        rw [hbody] at hj
        cases hj
      · rw [Threads.step_pc_of_ne hij] at hj
        exact hij (hw.one j i p' p hj hrun)
    have hoff : (arbiter.step s i input).shared.queues.pumping = false :=
      congrArg (fun r => r.1.queues.pumping) hbody
    refine ⟨fun j _ p' _ hj => absurd hj (hnone j p'), ?_, fun j p' hj => absurd hj (hnone j p'),
      ?_⟩
    · refine iff_of_false (by rw [hoff]; decide) ?_
      rintro ⟨j, p', hj⟩
      exact hnone j p' hj
    · intro _ _ k y hy hlast
      change (body s.shared (s.pc i) input).1.queues.contents.Has k y at hy
      rw [hbody] at hy
      rw [hnotes]
      refine (hw.left_behind hrun hnext hretry hi.wf.ok hy hlast).append ?_ ?_
      · intro e he
        cases mem_singleton.mp he
        exact fun hb => hb.elim Note.noConfusion Note.noConfusion
      · intro e he
        cases mem_singleton.mp he
        exact Note.noConfusion

/-- A section of the pump that notes nothing of rounds and leaves the copy it has. -/
theorem flight_step (hw : Wake h s) (hrun : (s.pc i).running = some p) {notes : List Note}
    {pc' : Pc} (hbody : body s.shared (s.pc i) input = (s.shared, notes, pc'))
    (hafter : pc'.running = some p) (hflight : pc'.flight = (s.pc i).flight)
    (hnotes : ∀ n ∈ notes, n ≠ .entered ∧ n ≠ .retried ∧ n ≠ .merged) :
    Wake (h ++ arbiter.notes s i input) (arbiter.step s i input) := by
  have hkeep : Round (h ++ arbiter.notes s i input) (body s.shared (s.pc i) input).1.queues i
      (s.pc i) p := by
    refine (hw.round i p hrun).append (by rw [hbody]) ?_ (fun hq => ⟨by rwa [hbody] at hq, ?_⟩)
    · refine not_begins fun n hn => ?_
      rw [hbody] at hn
      exact ⟨(hnotes n hn).1, (hnotes n hn).2.1⟩
    · refine not_merges fun n hn => ?_
      rw [hbody] at hn
      exact (hnotes n hn).2.2
  refine hw.going hrun p (by rw [hbody]; exact hafter) (by rw [hbody])
    ⟨hkeep.current, fun x hx => hkeep.flight x ?_, hkeep.blocked, hkeep.repoll, hkeep.retry⟩
  rw [hbody] at hx
  exact hflight ▸ hx

theorem result_step (hw : Wake h s) (hflight : (s.pc i).flight = some (p, x)) {code : Int}
    (hbody : body s.shared (s.pc i) input = pumpResult s.shared p x code) :
    Wake (h ++ arbiter.notes s i input) (arbiter.step s i input) := by
  have hrun := running_of_flight hflight
  have hround := hw.round i p hrun
  have hspec : (body s.shared (s.pc i) input).1.queues.flags = s.shared.queues.flags ∧
      (body s.shared (s.pc i) input).2.2 = .loop { p with blocked := blockedBy p x code } ∧
      .result x.kind x.item code ∈ (body s.shared (s.pc i) input).2.1 ∧
      ∀ n ∈ (body s.shared (s.pc i) input).2.1, n ≠ .entered ∧ n ≠ .retried ∧ n ≠ .merged := by
    rw [hbody]
    rcases pumpResult_cases s.shared p x code with
      ⟨hdead, -⟩ | ⟨-, -, ⟨-, -, heq⟩ | ⟨-, heq⟩⟩
    · exact absurd hdead (Pumps.not_outlived hround.current)
    · rw [heq]
      exact ⟨rfl, rfl, by simp, by simp⟩
    · rw [heq]
      exact ⟨rfl, rfl, by simp, by simp⟩
  obtain ⟨hflags, hpc, hresult, hnotes⟩ := hspec
  rw [Queues.flags, Queues.flags, Prod.mk.injEq, Prod.mk.injEq] at hflags
  obtain ⟨hlifetime, hpumping, hrepoll⟩ := hflags
  have hbegins : ∀ e ∈ arbiter.notes s i input, ¬ Begins e :=
    not_begins fun n hn => ⟨(hnotes n hn).1, (hnotes n hn).2.1⟩
  have hkeep : Round (h ++ arbiter.notes s i input) (body s.shared (s.pc i) input).1.queues i
      (s.pc i) p :=
    hround.append hlifetime hbegins
      fun hq => ⟨hrepoll ▸ hq, not_merges fun n hn => (hnotes n hn).2.2⟩
  refine hw.going hrun { p with blocked := blockedBy p x code } (by rw [hpc]; rfl) hpumping
    ⟨hkeep.current, ?_, fun link hlink => ?_, hkeep.repoll, hkeep.retry⟩
  · rw [hpc]
    rintro _ ⟨⟩
  · by_cases hold : p.blocked link = true
    · exact hkeep.blocked link hold
    · -- The link of the item is blocked for its refused send.
      have hnew : (code ≠ 0 ∧ staleBle x.item code = false) ∧ x.item.tag.link = link := by
        change blockedBy p x code link = true at hlink
        rw [blockedBy] at hlink
        split at hlink
        · next hrefused =>
          refine ⟨hrefused, ?_⟩
          by_contra hne
          rw [Function.update_of_ne (Ne.symm hne)] at hlink
          exact hold hlink
        · exact absurd hlink hold
      obtain ⟨⟨hcode, hstale⟩, rfl⟩ := hnew
      obtain ⟨pre, e, mid, rfl, rfl, hno⟩ := hround.flight x hflight
      refine ⟨pre, mid ++ arbiter.notes s i input, ⟨i, x.kind, x.item, code, ?_, rfl, ?_, hcode,
        hstale⟩, not_mem_append hno hbegins⟩
      · rw [append_assoc, cons_append]
      · exact mem_append_right _ (Threads.mem_notes.mpr ⟨rfl, hresult⟩)

theorem step (hi : Items depth h s) (hw : Wake h s) (hallowed : NoReset s (i, input)) :
    Wake (h ++ arbiter.notes s i input) (arbiter.step s i input) := by
  generalize hpc : s.pc i = pc
  generalize hr : body s.shared (s.pc i) input = r
  have hturn : Turn s.shared input pc r := hpc ▸ hr ▸ body_turn s.shared (s.pc i) input
  cases hturn with
  | still =>
    subst hpc
    obtain ⟨hstep, hnotes⟩ := Threads.step_of_still (m := arbiter) hr
    rw [hstep, hnotes, append_nil]
    exact hw
  | aside hnone henter hafter hnotes hflags =>
    subst hpc hr
    rcases hflags with hflags | ⟨hreset, -, hpumping, hempty⟩
    · exact aside_step hi hw hnone henter hafter hnotes hflags
    · exact reset_step hw (hallowed hreset) hafter hpumping hempty
  | enter => exact hw.enter_step hpc hr
  | loop p => exact loop_step hi hw hpc hr
  | ask p x => exact hw.flight_step (by rw [hpc]; rfl) hr rfl (by rw [hpc]; rfl) (by simp)
  | hand p x => exact hw.flight_step (by rw [hpc]; rfl) hr rfl (by rw [hpc]; rfl) (by simp)
  | result hflight code => exact hw.result_step (hpc ▸ hflight) hr

end Wake

/-! ## The run -/

theorem start_wake (d : Depth) : Wake [] (start d.slots) := by
  have hempty : ∀ k x, ¬ (start d.slots).shared.queues.contents.Has k x := fun k x hx =>
    absurd ((start_items d).ledger.admitted k x hx) not_mem_nil
  refine ⟨nofun, ?_, nofun, fun _ _ k x hx => absurd hx (hempty k x)⟩
  refine iff_of_false Bool.false_ne_true ?_
  rintro ⟨i, p, h⟩
  cases h

/-- **No wakeup is lost before the second round.** While no lifetime begins or ends in a pump: when
no pump is left and nobody is about to notify one, every link with an item had a refused send in the
last round, and a notification merged since came in the second round. The item with the last ticket
is apart: the search does not find it. -/
theorem no_lost_wakeup (d : Depth) (events : List (Nat × Input))
    (hall : arbiter.machine.Throughout NoReset (start d.slots) events)
    (hidle : ∀ i, ((reached d events).pc i).running = none)
    (henter : ∀ i, (reached d events).pc i ≠ .enter) :
    ∀ k x, (reached d events).shared.queues.contents.Has k x → x.tag.ticket ≠ maxTicket →
      LeftFor x.tag.link (noted d events) := by
  let Inv (h : History) (s : Threads.State Shared Pc) : Prop := Items d.slots h s ∧ Wake h s
  have hstep : ∀ h s i input, Inv h s → NoReset s (i, input) →
      Inv (h ++ arbiter.notes s i input) (arbiter.step s i input) := by
    rintro h s i input ⟨hi, hw⟩ hallowed
    exact ⟨hi.step i input, Wake.step hi hw hallowed⟩
  have hw := (Threads.history_invariant_of hstep ⟨start_items d, start_wake d⟩ events hall).2
  refine hw.rest ?_ henter
  by_contra hne
  obtain ⟨i, p, hp⟩ := hw.pumping.mp (Bool.not_eq_false _ ▸ hne)
  exact absurd ((hidle i).symm.trans hp) nofun

/-- A BLE link comes up, a response is queued and its send refused. -/
def refusedOnce : List (Nat × Input) :=
  [(0, .call (.linkState (some .ble) true 1)), (0, .resume 0), (0, .resume 0), (0, .resume 0),
    (1, .call (.enqueueResponseForLink (some .ble) (some [79, 75, 10]) 0 7)), (1, .resume 0),
    (1, .resume 0), (1, .resume 0), (1, .resume (-11)), (1, .resume 0), (1, .resume 0)]

theorem no_lost_wakeup_refused : LeftFor .ble (noted ⟨8, by decide⟩ refusedOnce) := by
  have hidle : ∀ i, (reached ⟨8, by decide⟩ refusedOnce).pc i = .idle := by
    refine reached_idle (n := 2) (by decide) fun i hi => ?_
    match i, hi with
    | 0, _ => rfl
    | 1, _ => rfl
  let x : Slot := ⟨[79, 75, 10], ⟨1, 7, 1, .ble, true⟩⟩
  have hitems : (reached ⟨8, by decide⟩ refusedOnce).shared.queues.contents.items .response =
      [none, none, none, some x] := rfl
  refine no_lost_wakeup ⟨8, by decide⟩ refusedOnce ?_ (fun i => by rw [hidle]; rfl)
    (fun i => by rw [hidle]; exact Pc.noConfusion) .response x ?_ (by decide)
  · refine Machine.throughout_of_forall _ (fun e he t hreset => ?_) _
    rcases hreset with hreset | hreset
    all_goals
      rw [refusedOnce] at he
      simp only [mem_cons, not_mem_nil, or_false] at he
      rcases he with rfl | rfl | rfl | rfl | rfl | rfl | rfl | rfl | rfl | rfl | rfl <;>
        cases hreset
  · rw [Contents.Has, hitems]
    simp

/-- The send is refused, a notification was merged meanwhile, the send of the second round is
refused, and a notification was merged meanwhile again. -/
def absorbed : List (Nat × Input) :=
  [(0, .call (.linkState (some .ble) true 1)), (0, .resume 0), (0, .resume 0), (0, .resume 0),
    (1, .call (.enqueueResponseForLink (some .ble) (some [79, 75, 10]) 0 7)), (1, .resume 0),
    (1, .resume 0), (1, .resume 0), (2, .call .onCanSendNow), (2, .resume 0), (1, .resume (-11)),
    (1, .resume 0), (1, .resume 0), (1, .resume 0), (3, .call .onCanSendNow), (3, .resume 0),
    (1, .resume (-11)), (1, .resume 0), (1, .resume 0)]

/-- The pump grants itself one more round and no third: the second notification is absorbed. -/
theorem notification_absorbed :
    ¬ ∀ (d : Depth) (events : List (Nat × Input)),
      (∀ e ∈ events, e.2 ≠ .call .init ∧ e.2 ≠ .call .deinit) →
      (∀ i, ((reached d events).pc i).running = none) →
      (∀ i, (reached d events).pc i ≠ .enter) →
      ∀ k x, (reached d events).shared.queues.contents.Has k x →
        ∃ pre mid, Refused x.tag.link (noted d events) pre mid ∧
          ∀ e ∈ mid, ¬ Enters e ∧ ¬ Merges e := by
  intro hclaim
  have hidle : ∀ i, (reached ⟨8, by decide⟩ absorbed).pc i = .idle := by
    refine reached_idle (n := 4) (by decide) fun i hi => ?_
    match i, hi with
    | 0, _ => rfl
    | 1, _ => rfl
    | 2, _ => rfl
    | 3, _ => rfl
  let x : Slot := ⟨[79, 75, 10], ⟨1, 7, 1, .ble, true⟩⟩
  have hitems : (reached ⟨8, by decide⟩ absorbed).shared.queues.contents.items .response =
      [none, none, none, some x] := rfl
  have hhistory : noted ⟨8, by decide⟩ absorbed =
      [(0, .announced .ble true 1), (0, .entered), (0, .finished), (1, .admitted .response x),
        (1, .rc 0), (1, .entered), (1, .selected .response x), (1, .handed .response x),
        (2, .merged), (1, .result .response x (-11)), (1, .retried), (1, .selected .response x),
        (1, .handed .response x)] ++ (3, .merged) ::
        [(1, .result .response x (-11)), (1, .finished)] := rfl
  have hevents : ∀ e ∈ absorbed, e.2 ≠ .call .init ∧ e.2 ≠ .call .deinit := by
    rw [absorbed]
    simp
  obtain ⟨pre, mid, ⟨i, k, y, code, hh, -⟩, hno⟩ := hclaim ⟨8, by decide⟩ absorbed hevents
    (fun i => by rw [hidle]; rfl) (fun i => by rw [hidle]; exact Pc.noConfusion) .response x
    (by rw [Contents.Has, hitems]; simp)
  -- Nothing is taken up behind the last notification.
  have hopen : Outstanding (· = (i, .selected k y)) Merges (noted ⟨8, by decide⟩ absorbed) :=
    ⟨pre, _, mid, hh, rfl, fun e he => (hno e he).2⟩
  rw [hhistory] at hopen
  have hlast := (hopen.of_closing rfl (by simp)).1
  cases hlast

end Brickwright.Btsensor.Tx
