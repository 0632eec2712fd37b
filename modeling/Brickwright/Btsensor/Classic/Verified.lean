import Brickwright.Btsensor.Classic.Replies
import Brickwright.Btsensor.Classic.Runs

/-!
# Runs and replies over whole histories

`Inv` puts the invariants of a step together and reads them against the notes so far.

* `classic_contract` — every request is answered once, one run at most is active on a port, a timer
  is armed for every run, and the end of a run stops nobody else's motor.
* `overdue_armed_late` — the timer for a run that was overdue when it was armed ends behind the
  deadline.
-/

namespace Brickwright.Btsensor.Classic

open Backend Decimal Machine
open List

variable {σ : Type*} {env : IoCall → σ → IoResult × σ} {s : System σ}

/-! ## Counting -/

def Note.IsReply (line : Nat) : Note → Bool
  | .reply l _ _ => l = line
  | _ => false

def Note.Discards (line : Nat) : Note → Bool
  | .discarded _ asked => asked.line = line ∧ asked.id.isSome
  | _ => false

def replies (line : Nat) (h : List Note) : Nat := h.countP (Note.IsReply line)

/-- One for each note about the line, and one for each about the line with the identifier. -/
def ofLine (line : Nat) : Nat → List UInt8 → Nat := fun l _ => if l = line then 1 else 0

def ofRequest (line : Nat) (id : List UInt8) : Nat → List UInt8 → Nat :=
  fun l i => if l = line ∧ i = id then 1 else 0

theorem owed_ofLine (line : Nat) (asked : Asked) :
    asked.owed (ofLine line) = if asked.line = line ∧ asked.id.isSome then 1 else 0 := by
  obtain ⟨l, id⟩ := asked
  cases id <;> simp [Asked.owed, ofLine]

theorem tally_settles_ofLine (line : Nat) (h : List Note) :
    tally (Note.settles (ofLine line)) h = replies line h + h.countP (Note.Discards line) := by
  induction h with
  | nil => rfl
  | cons n h ih =>
    have hn : n.settles (ofLine line) =
        (if n.IsReply line then 1 else 0) + if n.Discards line then 1 else 0 := by
      cases n with
      | reply l id result => simp [Note.settles, Note.IsReply, Note.Discards, ofLine]
      | discarded port asked =>
        simp [Note.settles, Note.IsReply, Note.Discards, owed_ofLine]
      | _ => rfl
    rw [tally_cons, ih, hn, replies, replies, countP_cons, countP_cons]
    omega

/-! ## The invariant -/

structure Inv (h : List Note) (s : System σ) : Prop where
  sound : s.Sound
  balanced : ∀ f, Machine.Balanced (System.owed f) (Note.incurs f) (Note.settles f) h s
  /-- Lines are numbered. -/
  lines : ∀ line, tally (Note.incurs (ofLine line)) h ≤ if line < s.received then 1 else 0
  active : ∀ port line, Active h port line ↔ HasLine (s.pending port) line
  owners : Backend.Inv (entries h) s.backend.owners
  tokens : ∀ port line token, Holds s port line token → ∃ h₁ c h₂,
    h = h₁ ++ .command port line c :: h₂ ∧ c.2.1.token.getD 0 = token

theorem inv_boot (context : σ) : Inv [] (boot context) where
  sound := System.sound_boot context
  balanced f := rfl
  lines line := Nat.zero_le _
  active port line :=
    ⟨fun h => absurd h Outstanding.nil, fun h => absurd h (not_hasLine_none line)⟩
  owners := Backend.inv_boot
  tokens port line token := by
    rintro ⟨run, -, -, h | h | h⟩
    · cases h
    · exact absurd h not_mem_nil
    · exact absurd h not_mem_nil

theorem lines_step {h : List Note} (hlines : ∀ line, tally (Note.incurs (ofLine line)) h ≤
      if line < s.received then 1 else 0) (event : Event) (line : Nat) :
    tally (Note.incurs (ofLine line)) (h ++ (s.step env event).2) ≤
      if line < (s.step env event).1.received then 1 else 0 := by
  have hline := hlines line
  rw [tally_append]
  rcases older_or env s event with ⟨hreceived, hlater⟩ | ⟨asked, hnotes, hasked,
    hreceived⟩ | ⟨-, hreceived, hdiscards⟩
  · have hzero : tally (Note.incurs (ofLine line)) (s.step env event).2 = 0 := by
      rw [tally_eq_zero]
      intro n hn
      have := hlater n hn
      cases n <;> first | rfl | exact absurd this id
    rw [hreceived, hzero]
    exact hline
  · rw [hnotes, hreceived, tally_incurs_note, owed_ofLine, hasked]
    by_cases heq : s.received = line
    · subst heq
      rw [if_neg (Nat.lt_irrefl _)] at hline
      rw [if_pos (Nat.lt_succ_self _)]
      split <;> omega
    · rw [if_neg (fun h => heq h.1)]
      refine Nat.le_trans hline ?_
      by_cases hlt : line < s.received
      · rw [if_pos hlt, if_pos (Nat.lt_succ_of_lt hlt)]
      · rw [if_neg hlt]
        exact Nat.zero_le _
  · have hzero : tally (Note.incurs (ofLine line)) (s.step env event).2 = 0 := by
      rw [tally_eq_zero]
      intro n hn
      obtain ⟨port, asked, rfl⟩ := hdiscards n hn
      rfl
    rw [hreceived, hzero]
    exact hline

theorem owners_step {h : List Note} (howners : Backend.Inv (entries h) s.backend.owners)
    {r : System σ × List Note} (heffect : Effect env s r) :
    Backend.Inv (entries (h ++ r.2)) r.1.backend.owners := by
  rw [entries_append]
  rcases heffect.asks with ⟨hentries, hsame⟩ | ⟨t, ht, request, hentries, hsame⟩
  · rw [hentries, append_nil, hsame]
    exact howners
  · rw [hentries, hsame]
    rw [← ht] at howners
    have hmoves := (serve_moves howners.sound request).exec env t.context
    exact Backend.inv_step howners hmoves

theorem tokens_step {h : List Note} (htokens : ∀ port line token, Holds s port line token →
      ∃ h₁ c h₂, h = h₁ ++ .command port line c :: h₂ ∧ c.2.1.token.getD 0 = token)
    {r : System σ × List Note} (heffect : Effect env s r) (port : Port) (line : Nat)
    (token : UInt32) (hholds : Holds r.1 port line token) : ∃ h₁ c h₂,
      h ++ r.2 = h₁ ++ .command port line c :: h₂ ∧ c.2.1.token.getD 0 = token := by
  rcases heffect.holds port line token hholds with hbefore | ⟨c, hmem, hc⟩
  · obtain ⟨h₁, c, h₂, rfl, hc⟩ := htokens port line token hbefore
    exact ⟨h₁, c, h₂ ++ r.2, by rw [append_assoc, cons_append], hc⟩
  · obtain ⟨l, l', hsplit⟩ := append_of_mem hmem
    exact ⟨h ++ l, c, l', by rw [hsplit, append_assoc], hc⟩

theorem inv_run (env : IoCall → σ → IoResult × σ) (context : σ) (events : List Event) :
    Inv ((machine env).history (boot context) events)
      ((machine env).run (boot context) events) := by
  have hstep (h : List Note) (s : System σ) (event : Event) (hinv : Inv h s) :
      Inv (h ++ (s.step env event).2) (s.step env event).1 := by
    have heffect := Effect.step env hinv.sound event
    exact {
      sound := hinv.sound.step event
      balanced := fun f => (hinv.balanced f).concat (balances_step hinv.sound event)
      lines := lines_step hinv.lines event
      active := fun port => active_concat (heffect.tells port) (hinv.active port)
      owners := owners_step hinv.owners heffect
      tokens := tokens_step hinv.tokens heffect }
  have hrun := history_invariant (m := machine env) hstep (inv_boot context) events
  rwa [nil_append] at hrun

/-! ## The contract -/

def System.Rests (s : System σ) : Prop := s.host = .idle ∧ s.timer = .idle

structure Contract (h : List Note) (s : System σ) : Prop where
  /-- A reply is to a request, and names its identifier. -/
  answers : ∀ line id result, .reply line id result ∈ h → .request line id ∈ h
  once : ∀ line, replies line h ≤ 1
  /-- A run that a disconnect has discarded gets none. -/
  discarded : ∀ port line id, .discarded port ⟨line, some id⟩ ∈ h → replies line h = 0
  /-- With no call in progress a request has its reply, or its run is active or discarded. -/
  settled : s.Rests → ∀ line id, .request line id ∈ h → replies line h = 1 ∨
    replies line h = 0 ∧ ((∃ port, Active h port line) ∨
      ∃ port id', .discarded port ⟨line, some id'⟩ ∈ h)
  /-- A port has one active run at most. -/
  alone : ∀ port line line', Active h port line → Active h port line' → line = line'
  /-- With no call in progress a timer is armed for every active run, and so for the first to end;
  the deadline below the last value of the clock. -/
  armed : s.Rests → ∀ port line, Active h port line → ∃ run, s.pending port = some run ∧
    run.asked.line = line ∧ (run.deadlineMs ≠ maxClock →
      ∃ arming, s.armed = some arming ∧ arming.Reaches run.deadlineMs)
  /-- A run is ended with the token of its operation; if the port has been commanded since, fewer
  than `tokenCount` tokens ago, that does nothing. -/
  ends : ∀ h₁ (port : Port) line e h₂, h = h₁ ++ .ending port line e :: h₂ → ∃ h₀ c h',
    h₁ = h₀ ++ .command port line c :: h' ∧
      (Superseded (entries h') port → issued (entries h') < tokenCount → e.2.2 = [])

theorem Inv.answers {h : List Note} (hinv : Inv h s) {line : Nat} {id : List UInt8} {result : Int}
    (hmem : .reply line id result ∈ h) : .request line id ∈ h := by
  have hbalanced := hinv.balanced (ofRequest line id)
  have hreply := le_tally (f := Note.settles (ofRequest line id)) hmem
  have hone : Note.settles (ofRequest line id) (.reply line id result) = 1 := if_pos ⟨rfl, rfl⟩
  rw [Machine.Balanced] at hbalanced
  obtain ⟨n, hn, hpos⟩ := tally_pos.mp (show 0 < tally (Note.incurs (ofRequest line id)) h by omega)
  cases n with
  | request l i =>
    obtain ⟨rfl, rfl⟩ : l = line ∧ i = id := by
      by_contra hne
      rw [Note.incurs, ofRequest, if_neg hne] at hpos
      exact Nat.lt_irrefl 0 hpos
    exact hn
  | _ => exact absurd hpos (Nat.lt_irrefl 0)

/-- What is owed for a line, was replied to it or discarded, was incurred by one request at most. -/
theorem Inv.line {h : List Note} (hinv : Inv h s) (line : Nat) :
    s.owed (ofLine line) + (replies line h + h.countP (Note.Discards line)) =
      tally (Note.incurs (ofLine line)) h ∧ tally (Note.incurs (ofLine line)) h ≤ 1 := by
  have hbalanced := hinv.balanced (ofLine line)
  rw [Machine.Balanced, tally_settles_ofLine] at hbalanced
  refine ⟨hbalanced, Nat.le_trans (hinv.lines line) ?_⟩
  split <;> omega

theorem discards_of_mem {h : List Note} {port : Port} {line : Nat} {id : List UInt8}
    (hmem : .discarded port ⟨line, some id⟩ ∈ h) : 0 < h.countP (Note.Discards line) :=
  countP_pos_iff.mpr ⟨_, hmem, by simp [Note.Discards]⟩

theorem exists_discarded {h : List Note} {line : Nat} (hpos : 0 < h.countP (Note.Discards line)) :
    ∃ port id, .discarded port ⟨line, some id⟩ ∈ h := by
  obtain ⟨n, hn, hdiscards⟩ := countP_pos_iff.mp hpos
  cases n with
  | discarded port asked =>
    obtain ⟨l, id⟩ := asked
    obtain ⟨rfl, hsome⟩ := of_decide_eq_true hdiscards
    cases id with
    | none => cases hsome
    | some id => exact ⟨port, id, hn⟩
  | _ => cases hdiscards

theorem exists_of_owed {pending : Table} {line : Nat} (h : 0 < pending.owed (ofLine line)) :
    ∃ port run, pending port = some run ∧ run.asked.line = line := by
  by_contra hno
  have hzero : tally (fun port => owedAt (ofLine line) (pending port)) (List.finRange 6) = 0 := by
    rw [tally_eq_zero]
    intro port _
    cases hrun : pending port with
    | none => rfl
    | some run =>
      show run.asked.owed (ofLine line) = 0
      rw [owed_ofLine, if_neg fun h => hno ⟨port, run, hrun, h.1⟩]
  exact Nat.lt_irrefl 0 (hzero ▸ h)

theorem Inv.settled {h : List Note} (hinv : Inv h s) (hrests : s.Rests) {line : Nat}
    {id : List UInt8} (hmem : .request line id ∈ h) : replies line h = 1 ∨
      replies line h = 0 ∧ ((∃ port, Active h port line) ∨
        ∃ port id', .discarded port ⟨line, some id'⟩ ∈ h) := by
  obtain ⟨hbalanced, hle⟩ := hinv.line line
  have hrequest := le_tally (f := Note.incurs (ofLine line)) hmem
  have hone : Note.incurs (ofLine line) (.request line id) = 1 := if_pos rfl
  have howed : s.owed (ofLine line) = s.pending.owed (ofLine line) := by
    rw [System.owed, hrests.1, hrests.2]
    exact Nat.zero_add _
  rcases Nat.eq_zero_or_pos (s.pending.owed (ofLine line)) with hzero | hpos
  · rcases Nat.eq_zero_or_pos (h.countP (Note.Discards line)) with hnone | hsome
    · exact .inl (by omega)
    · exact .inr ⟨by omega, .inr (exists_discarded hsome)⟩
  · obtain ⟨port, run, hrun, hline⟩ := exists_of_owed hpos
    exact .inr ⟨by omega, .inl ⟨port, (hinv.active port line).mpr ⟨run, hrun, hline⟩⟩⟩

theorem Inv.armed {h : List Note} (hinv : Inv h s) (hrests : s.Rests) {port : Port} {line : Nat}
    (hactive : Active h port line) : ∃ run, s.pending port = some run ∧ run.asked.line = line ∧
      (run.deadlineMs ≠ maxClock →
        ∃ arming, s.armed = some arming ∧ arming.Reaches run.deadlineMs) := by
  obtain ⟨run, hrun, hline⟩ := (hinv.active port line).mp hactive
  refine ⟨run, hrun, hline, fun hmax => ?_⟩
  have hsound := hinv.sound
  rw [System.Sound, hrests.1, hrests.2] at hsound
  rcases hsound.covered_of Phase.noConfusion Phase.noConfusion with hfires | hcovered
  · exact absurd hfires id
  · exact hcovered port run hrun hmax

theorem Inv.ends {h : List Note} (hinv : Inv h s) {port : Port} {line : Nat} {token : UInt32}
    (hholds : Holds s port line token) (endState : UInt8) : ∃ h₀ c h',
      h = h₀ ++ .command port line c :: h' ∧
        (Superseded (entries h') port → issued (entries h') < tokenCount →
          (s.call env (.endMotorIfOwned linkClassic port token endState)).1.2.2 = []) := by
  obtain ⟨h₀, c, h', hsplit, hc⟩ := hinv.tokens port line token hholds
  refine ⟨h₀, c, h', hsplit, fun hsuperseded hissued => ?_⟩
  by_cases hzero : token = 0
  · subst hzero
    show
      ((State.endMotorIfOwned s.backend linkClassic port 0 endState).exec env s.context).calls = []
    rw [State.endMotorIfOwned, if_pos (.inr (.inr rfl))]
    rfl
  · have htoken : c.2.1.token = some token := by
      cases hsome : c.2.1.token with
      | none =>
        rw [hsome] at hc
        exact absurd hc.symm hzero
      | some t =>
        rw [hsome] at hc
        exact congrArg some hc
    have hentries : entries h = entries h₀ ++ c :: entries h' := by
      rw [hsplit, entries_append]
      rfl
    exact endMotorIfOwned_stale endState
      (hinv.owners.token_ne hentries htoken hzero hissued hsuperseded) s.context

/-- **Runs and replies of the Classic adapter.** -/
theorem classic_contract (env : IoCall → σ → IoResult × σ) (context : σ) (events : List Event) :
    Contract ((machine env).history (boot context) events)
      ((machine env).run (boot context) events) ∧
    ∀ port asked, .discarded port asked ∈ (machine env).history (boot context) events →
      .linkState linkClassic false ∈ events := by
  have hinv := inv_run env context events
  refine ⟨⟨?_, ?_, ?_, ?_, ?_, ?_, ?_⟩, ?_⟩
  · exact fun line id result hmem => hinv.answers hmem
  · intro line
    obtain ⟨hbalanced, hle⟩ := hinv.line line
    omega
  · intro port line id hmem
    obtain ⟨hbalanced, hle⟩ := hinv.line line
    have hpos := discards_of_mem hmem
    omega
  · exact fun hrests line id hmem => hinv.settled hrests hmem
  · intro port line line' hactive hactive'
    obtain ⟨run, hrun, rfl⟩ := (hinv.active port line).mp hactive
    obtain ⟨run', hrun', rfl⟩ := (hinv.active port line').mp hactive'
    rw [hrun] at hrun'
    cases hrun'
    rfl
  · exact fun hrests port line hactive => hinv.armed hrests hactive
  · intro h₁ port line e h₂ hsplit
    obtain ⟨before, event, after, l, r, -, hnotes, rfl, -⟩ := exists_step_of_history hsplit
    have hbefore := inv_run env context before
    have heffect := Effect.step env hbefore.sound event
    have hmem : .ending port line e ∈
        (((machine env).run (boot context) before).step env event).2 := by
      change (System.step env _ event).2 = _ at hnotes
      rw [hnotes]
      exact mem_append_right _ mem_cons_self
    obtain ⟨halone, token, endState, hholds, rfl⟩ := heffect.ends port line e hmem
    -- the note of an end is alone in its step
    have hnil : l = [] := by
      change (System.step env _ event).2 = _ at hnotes
      rw [halone] at hnotes
      cases l with
      | nil => rfl
      | cons n l =>
        exact absurd (List.cons.inj hnotes).2 (by simp)
    rw [hnil, append_nil]
    exact hbefore.ends hholds endState
  · intro port asked hmem
    obtain ⟨pre, post, hsplit⟩ := append_of_mem hmem
    obtain ⟨before, event, after, l, r, rfl, hnotes, -, -⟩ := exists_step_of_history hsplit
    have hmem : .discarded port asked ∈
        (((machine env).run (boot context) before).step env event).2 := by
      change (System.step env _ event).2 = _ at hnotes
      rw [hnotes]
      exact mem_append_right _ mem_cons_self
    rcases older_or env ((machine env).run (boot context) before) event with
      ⟨-, hlater⟩ | ⟨asked', hnotes', -, -⟩ | ⟨rfl, -, -⟩
    · exact absurd (hlater _ hmem) id
    · rw [hnotes', Asked.note] at hmem
      split at hmem
      · exact absurd hmem not_mem_nil
      · cases mem_singleton.mp hmem
    · simp

/-! ## A timer that is late -/

/-- Runs of 105 ms on port A and of 100 ms on port B. -/
def twoRuns : List Event :=
  [.receive linkClassic (text "\x7b\"i\":\"aaaa\",\"m\":\"scratch.motor_run_timed\"," ++
      text "\"p\":\x7b\"port\":\"A\",\"speed\":50,\"time\":105,\"stop\":0,\"stall\":false\x7d\x7d"),
    .host {}, .host {},
    .receive linkClassic (text "\x7b\"i\":\"bbbb\",\"m\":\"scratch.motor_run_timed\"," ++
      text "\"p\":\x7b\"port\":\"B\",\"speed\":50,\"time\":100,\"stop\":0,\"stall\":false\x7d\x7d"),
    .host {}, .host {}]

/-- The timer fires after 100 ms; when it has ended the second run, the first is overdue. -/
def overdue : List Event :=
  twoRuns ++ .fire :: List.replicate 9 (.timer { now := 100 }) ++ [.timer { now := 110 }]

/-- What is left of a port then: its deadline, and what is armed. -/
def System.rest? (s : System σ) (port : Port) : Option (UInt64 × Arming) :=
  match s.host, s.timer, s.pending port, s.armed with
  | .idle, .idle, some run, some arming => some (run.deadlineMs, arming)
  | _, _, _, _ => none

theorem run_receive (s : System σ) {line : List UInt8} (request : Request) (todo : Todo)
    (hidle : s.host = .idle) (hsound : parseLegacySound line = none)
    (hrequest : parseRequest line = some request) (htodo : request.todo = todo)
    (events : List Event) :
    (machine env).run s (.receive linkClassic line :: events) = (machine env).run { s with
      received := s.received + 1
      host := System.begin ⟨s.received, request.id⟩ todo } events :=
  congrArg (fun s => (machine env).run s events)
    (s.step_receive env request todo hidle hsound hrequest htodo)

theorem rest_overdue : ((machine favourable).run (boot ()) overdue).rest? 0 =
    some (105, ⟨110, 1⟩) := by
  have hevents : overdue = .receive linkClassic _ :: ([.host {}, .host {}] ++
      .receive linkClassic _ :: ([.host {}, .host {}] ++ .fire ::
        List.replicate 9 (.timer { now := 100 }) ++ [.timer { now := 110 }])) := rfl
  -- the lines are parsed once, and the runs start from what they ask for
  rw [hevents, run_receive _ ⟨text "scratch.motor_run_timed",
      text "\x7b\"port\":\"A\",\"speed\":50,\"time\":105,\"stop\":0,\"stall\":false\x7d",
      some (text "aaaa")⟩ (.start 0 { kind := .motor, port := 0, speed := 50 } (.timed 105) 0) rfl,
    run_append, run_receive _ ⟨text "scratch.motor_run_timed",
      text "\x7b\"port\":\"B\",\"speed\":50,\"time\":100,\"stop\":0,\"stall\":false\x7d",
      some (text "bbbb")⟩ (.start 1 { kind := .motor, port := 1, speed := 50 } (.timed 100) 0) rfl]
  · decide +kernel
  all_goals repeat rw [text_ofList]
  all_goals first | decide +kernel | skip
  · rfl
  · rfl

theorem late_of_rest {s : System σ} {port : Port} (h : s.rest? port = some (105, ⟨110, 1⟩)) :
    ¬ (s.Rests → ∀ port run, s.pending port = some run → ∃ arming, s.armed = some arming ∧
      arming.reading.toNat + arming.delay.toNat ≤ run.deadlineMs.toNat) := by
  intro hlate
  unfold System.rest? at h
  split at h
  · next run arming hhost htimer hrun harmed =>
    obtain ⟨hdeadline, rfl⟩ := Prod.mk.inj (Option.some.inj h)
    obtain ⟨arming, harming, hle⟩ := hlate ⟨hhost, htimer⟩ port run hrun
    cases harmed.symm.trans harming
    rw [hdeadline] at hle
    exact absurd hle (by decide)
  · cases h

/-- **A timer that ends behind a deadline**, with no call in progress. -/
theorem overdue_armed_late : ¬ ∀ events : List Event,
    let s := (machine favourable).run (boot ()) events
    s.Rests → ∀ port run, s.pending port = some run → ∃ arming, s.armed = some arming ∧
      arming.reading.toNat + arming.delay.toNat ≤ run.deadlineMs.toNat := by
  intro h
  exact late_of_rest rest_overdue (h overdue)

end Brickwright.Btsensor.Classic
