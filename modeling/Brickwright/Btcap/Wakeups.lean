import Brickwright.Btcap.Acts

/-!
# The wakeups of the channel

A change posts each semaphore once, unless that has a token. Whoever is woken looks at his condition
again; if it is over he goes on and posts for the others, but if his call has been cancelled he
returns and posts for no one.

So a wakeup is lost where one post has to do for two calls that are cancelled. `wakeups` says that
nothing else loses one.
-/

namespace Brickwright.Btcap

open Chardev

namespace Chardev

variable (s : Chardev)

def MustWait : Side → UInt32 → Prop
  | .writable, generation => s.mustWaitWritable generation
  | .readable, generation => s.mustWaitReadable generation

def look : Side → UInt32 → Option Int
  | .writable, generation => s.waitWritable generation
  | .readable, generation => s.waitReadable generation

/-- Whoever has been woken goes on, so he posts again. -/
def Passes (side : Side) (generation : UInt32) : Prop :=
  s.afterWait generation 0 = none ∧ s.look side generation = some 0

/-- Whoever has been woken returns, so he does not. -/
def Canceled : Side → UInt32 → Prop
  | .writable, generation =>
    s.sessionGeneration ≠ generation ∨ s.state ≠ .ready ∨ s.writerDone = true
  | .readable, generation => s.sessionGeneration ≠ generation ∨ s.state = .aborted

instance : (side : Side) → (generation : UInt32) → Decidable (s.MustWait side generation)
  | .writable, generation => inferInstanceAs (Decidable (s.mustWaitWritable generation))
  | .readable, generation => inferInstanceAs (Decidable (s.mustWaitReadable generation))

instance : (side : Side) → (generation : UInt32) → Decidable (s.Canceled side generation)
  | .writable, generation =>
    inferInstanceAs (Decidable (s.sessionGeneration ≠ generation ∨ s.state ≠ .ready ∨
      s.writerDone = true))
  | .readable, generation =>
    inferInstanceAs (Decidable (s.sessionGeneration ≠ generation ∨ s.state = .aborted))

end Chardev

section Looks

variable {s s' : Chardev} {side : Side} {generation generation' : UInt32}

theorem mustWait_of_core (hcore : s'.core = s.core) :
    s'.MustWait side generation = s.MustWait side generation :=
  eq_of_core (fun s => s.MustWait side generation) (fun _ => by cases side <;> rfl) hcore

theorem canceled_of_core (hcore : s'.core = s.core) :
    s'.Canceled side generation = s.Canceled side generation :=
  eq_of_core (fun s => s.Canceled side generation) (fun _ => by cases side <;> rfl) hcore

theorem passes_of_core (hcore : s'.core = s.core) :
    s'.Passes side generation = s.Passes side generation :=
  eq_of_core (fun s => s.Passes side generation) (fun _ => by cases side <;> rfl) hcore

/-- **Whose condition is over and whose call is not cancelled, he goes on.** -/
theorem passes_iff : s.Passes side generation ↔
    ¬s.MustWait side generation ∧ ¬s.Canceled side generation := by
  have hcanceled : some (-ECANCELED) ≠ some (0 : Int) := by decide
  cases side with
  | writable =>
    simp only [Passes, look, MustWait, Canceled, afterWait, waitWritable, mustWaitWritable]
    grind [EINTR]
  | readable =>
    simp only [Passes, look, MustWait, Canceled, afterWait, waitReadable, mustWaitReadable]
    grind [EINTR]

theorem eq_of_not_canceled (h : ¬s.Canceled side generation) :
    s.sessionGeneration = generation := by
  cases side <;> exact not_not.mp (not_or.mp h).1

theorem passes_of_not_canceled (hover : ¬s.MustWait side generation')
    (h' : ¬s.Canceled side generation') (h : ¬s.Canceled side generation) :
    s.Passes side generation := by
  have heq : generation = generation' := (eq_of_not_canceled h).symm.trans (eq_of_not_canceled h')
  subst heq
  exact passes_iff.mpr ⟨hover, h⟩

end Looks

/-! ## What cancels a call -/

/-- The step gets through and cancels the calls of a side: the session is aborted, by the ioctl or
by a close; the writer is done; or a session begins while readers wait for the last one. -/
def Cancels (s : Chardev) (point : Point) (input : Input) (side : Side) : Prop :=
  match point, input with
  | .ready, .ioctl fd .abortSession _ =>
    s.locked = false ∧ s.isOpen fd = true ∧ s.state = .ready
  | .ready, .closeFile fd _ =>
    s.locked = false ∧ s.isOpen fd = true ∧ s.state = .ready ∧ s.writerDone = false
  | .ready, .ioctl .writer .finalizeSession _ =>
    s.locked = false ∧ s.writerOpen = true ∧ s.state = .ready ∧ s.writerDone = false ∧
      side = .writable
  | .ready, .ioctl .writer (.registerSession _) _ =>
    s.locked = false ∧ s.writerOpen = true ∧ s.state = .idle ∧ side = .readable
  | _, _ => False

section Cancelling

variable {s : Chardev} {point : Point} {input : Input} {side : Side} {generation : UInt32} {a : Act}

theorem closed_generation (fd : Descriptor) :
    (s.closed fd).sessionGeneration = s.sessionGeneration := by
  cases fd with
  | writer =>
    unfold closed closeSide closeWriter
    grind [reset]
  | reader =>
    unfold closed closeSide closeReader
    grind [reset]

theorem closed_state (fd : Descriptor) :
    (s.closed fd).state = .idle ∨ (s.closed fd).state = s.state ∨
      s.state = .ready ∧ s.writerDone = false ∧ (s.closed fd).state = .aborted := by
  cases fd with
  | writer =>
    unfold closed closeSide closeWriter
    cases s.writerDone <;> grind [reset]
  | reader =>
    unfold closed closeSide closeReader
    cases s.writerDone <;> grind [reset]

theorem done_of_closed_ready (fd : Descriptor) (h : (s.closed fd).state = .ready) :
    s.writerDone = true := by
  revert h
  cases fd with
  | writer =>
    unfold closed closeSide closeWriter
    cases s.writerDone <;> grind [reset]
  | reader =>
    unfold closed closeSide closeReader
    cases s.writerDone <;> grind [reset]

theorem finalised_state : s.finalised.sessionGeneration = s.sessionGeneration ∧
    (s.finalised.state = .idle ∨ s.finalised.state = s.state ∧ s.finalised.writerDone = true) := by
  unfold finalised
  dsimp only
  split
  · exact ⟨rfl, .inl rfl⟩
  · exact ⟨rfl, .inr ⟨rfl, rfl⟩⟩

/-- **Only these steps cancel a call.** -/
theorem cancels_of_act (henabled : a.Enabled s point input) (h : ¬s.Canceled side generation)
    (hcanceled : (s.act a).Canceled side generation) : Cancels s point input side := by
  cases a with
  | stay => exact absurd hcanceled h
  | opens fd => cases fd <;> exact absurd hcanceled h
  | accepts bytes => cases side <;> exact absurd hcanceled h
  | delivers count => cases side <;> exact absurd hcanceled h
  | closes fd =>
    obtain ⟨hfree, hopen, rfl, picks, rfl⟩ := henabled
    cases side with
    | writable =>
      obtain ⟨-, hgoing⟩ := not_or.mp h
      obtain ⟨hready, hdone⟩ := not_or.mp hgoing
      exact ⟨hfree, hopen, not_not.mp hready, Bool.eq_false_of_not_eq_true hdone⟩
    | readable =>
      obtain ⟨hgeneration, hstate⟩ := not_or.mp h
      rcases hcanceled with hother | haborted
      · exact absurd ((closed_generation fd).trans (not_not.mp hgeneration)) hother
      · rcases closed_state (s := s) fd with hidle | hsame | ⟨hready, hdone, -⟩
        · exact absurd (hidle.symm.trans haborted) (by decide)
        · exact absurd (hsame.symm.trans haborted) hstate
        · exact ⟨hfree, hopen, hready, hdone⟩
  | registers m =>
    obtain ⟨hidle, hfree, hopen, rfl, picks, rfl⟩ := henabled
    cases side with
    | writable =>
      refine absurd (.inr (.inl ?_)) h
      rw [hidle]
      decide
    | readable => exact ⟨hfree, hopen, hidle, rfl⟩
  | finalises =>
    obtain ⟨hready, hdone, hfree, hopen, rfl, picks, rfl⟩ := henabled
    cases side with
    | writable => exact ⟨hfree, hopen, hready, hdone, rfl⟩
    | readable =>
      obtain ⟨hgeneration, hstate⟩ := not_or.mp h
      obtain ⟨hsame, hnext⟩ := finalised_state (s := s)
      rcases hcanceled with hother | haborted
      · exact absurd (hsame.trans (not_not.mp hgeneration)) hother
      · rcases hnext with hidle | ⟨hnext, -⟩
        · exact absurd (hidle.symm.trans haborted) (by decide)
        · exact absurd (hnext.symm.trans haborted) hstate
  | aborts =>
    obtain ⟨hready, fd, hfree, hopen, rfl, picks, rfl⟩ := henabled
    exact ⟨hfree, hopen, hready⟩

/-- **A step that cancels a call leaves none that could go on.** -/
theorem mustWait_of_cancels (henabled : a.Enabled s point input) (h : ¬s.Canceled side generation)
    (hcanceled : (s.act a).Canceled side generation) {generation' : UInt32}
    (h' : ¬(s.act a).Canceled side generation') : (s.act a).MustWait side generation' := by
  have hcancels := cancels_of_act henabled h hcanceled
  cases a with
  | stay => exact absurd hcanceled h
  | opens fd => cases fd <;> exact absurd hcanceled h
  | accepts bytes => cases side <;> exact absurd hcanceled h
  | delivers count => cases side <;> exact absurd hcanceled h
  | closes fd =>
    obtain ⟨-, -, rfl, picks, rfl⟩ := henabled
    have hdone : s.writerDone = false := hcancels.2.2.2
    refine absurd ?_ h'
    cases side with
    | writable =>
      refine .inr (.inl fun hready => ?_)
      exact Bool.false_ne_true (hdone.symm.trans (done_of_closed_ready fd hready))
    | readable =>
      obtain ⟨hgeneration, -⟩ := not_or.mp h
      refine .inr (hcanceled.resolve_left fun hother => hother ?_)
      exact (closed_generation fd).trans (not_not.mp hgeneration)
  | registers m =>
    obtain ⟨-, -, -, rfl, picks, rfl⟩ := henabled
    obtain ⟨-, -, -, rfl⟩ := hcancels
    exact ⟨rfl, not_not.mp (not_or.mp h').1, rfl, Bool.false_ne_true⟩
  | finalises =>
    obtain ⟨-, -, -, -, rfl, picks, rfl⟩ := henabled
    obtain ⟨-, -, -, -, rfl⟩ := hcancels
    refine absurd ?_ h'
    rcases (finalised_state (s := s)).2 with hidle | ⟨-, hdone⟩
    · refine .inr (.inl ?_)
      rw [show (s.act .finalises).state = .idle from hidle]
      decide
    · exact .inr (.inr hdone)
  | aborts =>
    refine absurd ?_ h'
    cases side with
    | writable => exact .inr (.inl nofun)
    | readable => exact .inr rfl

end Cancelling

/-! ## Where a section leaves its thread -/

/-- The thread runs on, or its condition holds and it is about to wait. -/
def Goes (r : Chardev × List Note × Point) : Prop :=
  match r.2.2 with
  | .ready | .looping .. => True
  | .waiting call generation => r.1.MustWait call.side generation
  | _ => False

section Sections

variable {s : Chardev} {data got : List UInt8} {written buflen : Nat} {nonblock : Bool}
  {generation : UInt32} {ret : Int} {picks : Picks}

theorem mustWait_of_look {side : Side} (h : s.look side generation = none) :
    s.MustWait side generation := by
  cases side with
  | writable =>
    simp only [look, waitWritable] at h
    split at h
    · next hwait => exact hwait
    · split at h <;> cases h
  | readable =>
    simp only [look, waitReadable] at h
    split at h
    · next hwait => exact hwait
    · split at h <;> cases h

theorem goes_writeWait : Goes (s.writeWait data written generation picks) := by
  unfold writeWait
  split
  · next hwait =>
    have hmust : s.MustWait .writable generation := mustWait_of_look hwait
    exact hmust
  · split <;> trivial

theorem goes_writeLoop : Goes (s.writeLoop data written nonblock generation picks) := by
  unfold writeLoop
  split
  · split
    · split
      · trivial
      · exact goes_writeWait
    · trivial
  · trivial

theorem goes_readWait : Goes (s.readWait buflen got generation picks) := by
  unfold readWait
  split
  · next hwait =>
    have hmust : s.MustWait .readable generation := mustWait_of_look hwait
    exact hmust
  · split <;> trivial

theorem goes_readLoop : Goes (s.readLoop buflen got nonblock generation picks) := by
  unfold readLoop
  split
  · split
    · split
      · trivial
      · split
        · trivial
        · exact goes_readWait
    · trivial
  · trivial

theorem goes_resume {call : Call} : Goes (s.resume call generation ret picks) := by
  unfold resume
  split
  · trivial
  · exact goes_writeWait
  · trivial
  · exact goes_readWait

/-- **Whoever goes on posts again.** -/
theorem notified_of_passes {call : Call} (h : s.Passes call.side generation) :
    s.Notified (s.resume call generation 0 picks).1 := by
  obtain ⟨hafter, hlook⟩ := h
  unfold resume
  rw [hafter]
  cases call with
  | write data written =>
    have hwait : s.lock.waitWritable generation = some 0 := hlook
    unfold writeWait
    rw [hwait]
    exact ⟨picks, rfl, rfl⟩
  | read buflen got =>
    have hwait : s.lock.waitReadable generation = some 0 := hlook
    unfold readWait
    rw [hwait]
    exact ⟨picks, rfl, rfl⟩

theorem woken_cases (call : Call) (input : Input) :
    body s (.woken call generation ret) input = (s, [], .woken call generation ret) ∨
      ∃ picks, body s (.woken call generation ret) input = s.resume call generation ret picks := by
  cases input with
  | go picks =>
    by_cases hlocked : s.locked = true
    · exact .inl (if_pos hlocked)
    · exact .inr ⟨picks, if_neg hlocked⟩
  | _ => exact .inl rfl

theorem goes_body (s : Chardev) {point : Point} (input : Input) (hruns : point.Runs) :
    body s point input = (s, [], point) ∨ Goes (body s point input) := by
  revert hruns
  fun_cases body s point input with
  | case2 | case4 | case6 | case8 | case12 => exact fun _ => .inr trivial
  | case10 data nonblock =>
    refine fun _ => .inr ?_
    unfold write
    split <;> trivial
  | case14 buflen nonblock =>
    refine fun _ => .inr ?_
    unfold Chardev.read
    split
    · trivial
    · split <;> trivial
  | case15 call nonblock generation picks =>
    refine fun _ => .inr ?_
    cases call with
    | write data written => exact goes_writeLoop
    | read buflen got => exact goes_readLoop
  | case16 | case18 | case19 => exact fun hruns => absurd hruns id
  | case22 => exact fun _ => .inr goes_resume
  | _ => exact fun _ => .inl rfl

end Sections

/-! ## Who waits -/

/-- The ticket that a thread waits with. -/
def Point.ticket (side : Side) : Point → Option Nat
  | .blocked call _ ticket => if call.side = side then some ticket else none
  | _ => none

abbrev Channel := Threads.State Chardev Point

def held (s : Channel) (side : Side) (i : Nat) : Option Nat := (s.pc i).ticket side

def Asleep (s : Channel) (side : Side) (i : Nat) : Prop :=
  (s.shared.sem side).Blocked (held s side) i

/-- A thread has seen that it must wait, and has not been woken since. -/
def Past (s : Channel) (side : Side) (i : Nat) (generation : UInt32) : Prop :=
  ∃ call : Call, call.side = side ∧ (s.pc i = .waiting call generation ∨
    (∃ ticket, s.pc i = .blocked call generation ticket) ∧ Asleep s side i)

/-- The semaphore has woken a thread, and that has yet to look at its condition again. -/
def Called (s : Channel) (side : Side) (i : Nat) (generation : UInt32) : Prop :=
  ∃ call : Call, call.side = side ∧ (s.pc i = .woken call generation 0 ∨
    (∃ ticket, s.pc i = .blocked call generation ticket) ∧ ¬Asleep s side i)

/-- A thread is blocked although its condition is over; there is no token, and whoever has been
woken will not post. -/
def Lost (s : Channel) (side : Side) : Prop :=
  (s.shared.sem side).tokens = 0 ∧
    (∃ i call generation ticket, s.pc i = .blocked call generation ticket ∧ call.side = side ∧
      ticket ∈ (s.shared.sem side).waiting ∧ ¬s.shared.MustWait side generation) ∧
    ∀ i generation, Called s side i generation → ¬s.shared.Passes side generation

/-- When a step cancels the calls of a side, one thread at most is blocked there; and a thread whose
call has been cancelled waits only for a token that is there and that no one else could use. -/
def InOrder (s : Channel) (e : Nat × Input) : Prop :=
  (∀ side, Cancels s.shared (s.pc e.1) e.2 side →
    ∀ i j, Asleep s side i → Asleep s side j → i = j) ∧
  match s.pc e.1, e.2 with
  | .waiting call generation, .go _ =>
    s.shared.Canceled call.side generation →
      0 < (s.shared.sem call.side).tokens ∧ ∀ j generation', j ≠ e.1 →
        Past s call.side j generation' → ¬s.shared.Passes call.side generation'
  | _, _ => True

/-- What holds of a side in every run that is in order. -/
structure Wakeful (s : Channel) (side : Side) : Prop where
  tickets : (s.shared.sem side).Tickets (held s side)
  live : ∀ i generation, Past s side i generation → Asleep s side i →
    ¬s.shared.Canceled side generation
  woken : ∀ i generation, Past s side i generation → s.shared.Passes side generation →
    0 < (s.shared.sem side).tokens ∨
      ∃ j generation', Called s side j generation' ∧ s.shared.Passes side generation'

section States

variable {s s' : Channel} {side : Side} {i : Nat} {generation : UInt32}

theorem asleep_iff : Asleep s side i ↔ ∃ call generation ticket,
    s.pc i = .blocked call generation ticket ∧ call.side = side ∧
      ticket ∈ (s.shared.sem side).waiting := by
  constructor
  · rintro ⟨t, ht, hheld⟩
    unfold held at hheld
    cases hpc : s.pc i with
    | blocked call generation ticket =>
      rw [hpc] at hheld
      dsimp only [Point.ticket] at hheld
      split at hheld
      · next hside =>
        cases hheld
        exact ⟨call, generation, t, rfl, hside, ht⟩
      · cases hheld
    | _ =>
      rw [hpc] at hheld
      cases hheld
  · rintro ⟨call, generation, ticket, hpc, hside, ht⟩
    refine ⟨ticket, ht, ?_⟩
    unfold held
    rw [hpc]
    exact if_pos hside

/-- **What is wakeful has lost no wakeup.** -/
theorem Wakeful.not_lost (hw : Wakeful s side) : ¬Lost s side := by
  rintro ⟨hzero, ⟨i, call, generation, ticket, hpc, hside, ht, hover⟩, hcalled⟩
  have hasleep : Asleep s side i := asleep_iff.mpr ⟨call, generation, ticket, hpc, hside, ht⟩
  have hpast : Past s side i generation := ⟨call, hside, .inr ⟨⟨ticket, hpc⟩, hasleep⟩⟩
  have hpasses : s.shared.Passes side generation :=
    passes_iff.mpr ⟨hover, hw.live i generation hpast hasleep⟩
  rcases hw.woken i generation hpast hpasses with hpos | ⟨j, generation', hj, hj'⟩
  · exact absurd hzero (Nat.ne_of_gt hpos)
  · exact hcalled j generation' hj hj'

theorem not_runs_blocked {call : Call} {ticket : Nat} :
    ¬(Point.blocked call generation ticket).Runs := id

/-- The thread is in a wait of this side. -/
def Point.On (side : Side) : Point → Prop
  | .waiting call _ | .blocked call _ _ | .woken call _ _ => call.side = side
  | _ => False

theorem Past.on (h : Past s side i generation) : (s.pc i).On side := by
  obtain ⟨call, hside, hpc | ⟨⟨ticket, hpc⟩, -⟩⟩ := h
  · rw [hpc]
    exact hside
  · rw [hpc]
    exact hside

theorem Called.on (h : Called s side i generation) : (s.pc i).On side := by
  obtain ⟨call, hside, hpc | ⟨⟨ticket, hpc⟩, -⟩⟩ := h
  · rw [hpc]
    exact hside
  · rw [hpc]
    exact hside

theorem past_of_pc (hpc : s'.pc i = s.pc i) (hasleep : Asleep s' side i → Asleep s side i)
    (h : Past s' side i generation) : Past s side i generation := by
  obtain ⟨call, hside, hpoint⟩ := h
  rw [hpc] at hpoint
  exact ⟨call, hside, hpoint.imp id fun h => ⟨h.1, hasleep h.2⟩⟩

theorem called_of_pc (hpc : s'.pc i = s.pc i) (hasleep : Asleep s' side i → Asleep s side i)
    (h : Called s side i generation) : Called s' side i generation := by
  obtain ⟨call, hside, hpoint⟩ := h
  rw [← hpc] at hpoint
  exact ⟨call, hside, hpoint.imp id fun h => ⟨h.1, fun h' => h.2 (hasleep h')⟩⟩

theorem not_past_woken {call : Call} {generation' : UInt32} {ret : Int}
    (hpc : s.pc i = .woken call generation' ret) : ¬Past s side i generation := by
  rintro ⟨call', -, hpoint⟩
  rw [hpc] at hpoint
  rcases hpoint with h | ⟨⟨_, h⟩, -⟩ <;> cases h

/-- Whoever is past the look has been so before, or has seen just now that he must wait. -/
theorem past_or (hothers : ∀ j, j ≠ i → s'.pc j = s.pc j)
    (hasleep : ∀ j, Asleep s' side j → Asleep s side j)
    (hself : ∀ g, Past s' side i g → s'.shared.MustWait side g ∧ ¬Asleep s' side i) {j : Nat}
    (h : Past s' side j generation) :
    Past s side j generation ∨ s'.shared.MustWait side generation ∧ ¬Asleep s' side j := by
  by_cases hji : j = i
  · subst hji
    exact .inr (hself generation h)
  · exact .inl (past_of_pc (hothers j hji) (hasleep j) h)

theorem Wakeful.silent (hw : Wakeful s side) (hothers : ∀ j, j ≠ i → s'.pc j = s.pc j)
    (htickets : (s'.shared.sem side).Tickets (held s' side))
    (htokens : 0 < (s.shared.sem side).tokens → 0 < (s'.shared.sem side).tokens)
    (hasleep : ∀ j, Asleep s' side j → Asleep s side j)
    (hsame : ∀ g, s'.shared.Passes side g = s.shared.Passes side g ∧
      s'.shared.Canceled side g = s.shared.Canceled side g)
    (hself : ∀ g, Past s' side i g → s'.shared.MustWait side g ∧ ¬Asleep s' side i)
    (hcalled : ∀ g, Called s side i g → s.shared.Passes side g → Called s' side i g) :
    Wakeful s' side where
  tickets := htickets
  live j g hj hj' hcancel := by
    rcases past_or hothers hasleep hself hj with hold | ⟨-, hawake⟩
    · exact hw.live j g hold (hasleep j hj') ((hsame g).2 ▸ hcancel)
    · exact hawake hj'
  woken j g hj hpass := by
    rcases past_or hothers hasleep hself hj with hold | ⟨hmust, -⟩
    · rcases hw.woken j g hold ((hsame g).1 ▸ hpass) with hpos | ⟨k, g', hk, hk'⟩
      · exact .inl (htokens hpos)
      · refine .inr ⟨k, g', ?_, (hsame g').1 ▸ hk'⟩
        by_cases hki : k = i
        · subst hki
          exact hcalled g' hk hk'
        · exact called_of_pc (hothers k hki) (hasleep k) hk
    · exact absurd hmust (passes_iff.mp hpass).1

theorem Wakeful.notified (hw : Wakeful s side) {pick : Nat}
    (hothers : ∀ j, j ≠ i → s'.pc j = s.pc j)
    (hsem : s'.shared.sem side = notify (s.shared.sem side) pick)
    (hheld : held s' side = held s side)
    (hcancels : ∀ g, ¬s.shared.Canceled side g → s'.shared.Canceled side g →
      (∀ j k, Asleep s side j → Asleep s side k → j = k) ∧
        ∀ g', ¬s'.shared.Canceled side g' → s'.shared.MustWait side g')
    (hself : ∀ g, Past s' side i g → s'.shared.MustWait side g ∧ ¬Asleep s' side i)
    (hcalled : ∀ j g, Past s side j g → Asleep s side j → ¬Asleep s' side j → Called s' side j g) :
    Wakeful s' side := by
  unfold notify at hsem
  split at hsem
  · have htickets : (s'.shared.sem side).Tickets (held s' side) := by
      rw [hsem, hheld]
      exact hw.tickets.post pick
    rcases Semaphore.blocked_post hw.tickets pick with
      ⟨-, htokens, hnone⟩ | ⟨k, hk, -, hblocked⟩
    · -- there is a token now
      have hpos : 0 < (s'.shared.sem side).tokens := by
        rw [hsem, htokens]
        exact Nat.succ_pos _
      exact ⟨htickets, fun j _ _ hj => absurd hj (Semaphore.not_blocked_of_pos hpos j),
        fun _ _ _ _ => .inl hpos⟩
    · -- one of the blocked threads has been called
      have hasleep : ∀ j, Asleep s' side j ↔ Asleep s side j ∧ j ≠ k := by
        intro j
        rw [Asleep, hsem, hheld]
        exact hblocked j
      obtain ⟨call, g, ticket, hpc, hside, -⟩ := asleep_iff.mp hk
      have hkpast : Past s side k g := ⟨call, hside, .inr ⟨⟨ticket, hpc⟩, hk⟩⟩
      have hklive := hw.live k g hkpast hk
      have hkcalled := hcalled k g hkpast hk fun h => ((hasleep k).mp h).2 rfl
      refine ⟨htickets, fun j g' hj hj' hcancel => ?_, fun j g' hj hpass => ?_⟩
      · obtain ⟨hold, hne⟩ := (hasleep j).mp hj'
        rcases past_or hothers (fun j h => ((hasleep j).mp h).1) hself hj with
          hjpast | ⟨-, hawake⟩
        · exact hne ((hcancels g' (hw.live j g' hjpast hold) hcancel).1 j k hold hk)
        · exact hawake hj'
      · obtain ⟨hover, hlive⟩ := passes_iff.mp hpass
        refine .inr ⟨k, g, hkcalled, passes_of_not_canceled hover hlive fun hcancel => ?_⟩
        exact hover ((hcancels g hklive hcancel).2 g' hlive)
  · next hvalue =>
    have hpos : 0 < (s'.shared.sem side).tokens := by
      rw [hsem]
      exact Semaphore.value_pos.mp (Int.not_le.mp hvalue)
    have htickets : (s'.shared.sem side).Tickets (held s' side) := by
      rw [hsem, hheld]
      exact hw.tickets
    exact ⟨htickets, fun j _ _ hj => absurd hj (Semaphore.not_blocked_of_pos hpos j),
      fun _ _ _ _ => .inl hpos⟩

/-! ### The steps -/

variable {input : Input}

theorem held_step : held (threads.step s i input) side =
    Function.update (held s side) i ((body s.shared (s.pc i) input).2.2.ticket side) :=
  Function.comp_update (Point.ticket side) s.pc i _

/-- Who returns from a wait leaves the queue, and was woken unless it gives up. -/
theorem Wakeful.returns (hw : Wakeful s side) {call : Call} {ticket : Nat} {ret : Int}
    (hpc : s.pc i = .blocked call generation ticket)
    (hret : ticket ∉ (s.shared.sem call.side).waiting → ret = 0)
    (hbody : body s.shared (s.pc i) input =
      (s.shared.setSem call.side ((s.shared.sem call.side).leave ticket), [],
        .woken call generation ret)) :
    Wakeful (threads.step s i input) side := by
  have hshared : (threads.step s i input).shared =
      s.shared.setSem call.side ((s.shared.sem call.side).leave ticket) := congrArg Prod.fst hbody
  have hcore : (threads.step s i input).shared.core = s.shared.core := by rw [hshared, core_setSem]
  have hnext : (threads.step s i input).pc i = .woken call generation ret :=
    (Threads.step_pc_self i input).trans (congrArg (fun r => r.2.2) hbody)
  have hheld : held (threads.step s i input) side = Function.update (held s side) i none := by
    rw [held_step, hbody]
    rfl
  have hsem : (threads.step s i input).shared.sem side =
      if call.side = side then (s.shared.sem side).leave ticket else s.shared.sem side := by
    rw [hshared]
    split
    · next hside =>
      subst hside
      exact sem_setSem ..
    · next hside => exact sem_setSem_of_ne (Ne.symm hside) _
  have hasleep : ∀ j, Asleep (threads.step s i input) side j → Asleep s side j := by
    intro j hj
    rw [Asleep, hheld, Semaphore.blocked_drop] at hj
    refine hj.1.mono (fun t ht => ?_) fun _ h => h
    rw [hsem] at ht
    split at ht
    · exact Semaphore.mem_of_mem_leave ht
    · exact ht
  refine hw.silent (fun j hji => Threads.step_pc_of_ne hji _) ?_ ?_ hasleep
    (fun g => ⟨passes_of_core hcore, canceled_of_core hcore⟩)
    (fun g hj => absurd hj (not_past_woken hnext)) fun g hi hpass => ?_
  · rw [hsem, hheld]
    split
    · next hside =>
      refine hw.tickets.drop ?_
      unfold held
      rw [hpc]
      exact if_pos hside
    · next hside =>
      refine hw.tickets.clear fun hasleep => ?_
      obtain ⟨call', generation', ticket', hpc', hside', -⟩ := asleep_iff.mp hasleep
      cases hpc.symm.trans hpc'
      exact hside hside'
  · rw [hsem]
    split <;> exact id
  · obtain ⟨call', hside, hpoint⟩ := hi
    rw [hpc] at hpoint
    rcases hpoint with h | ⟨⟨_, h⟩, hawake⟩
    · cases h
    · cases h
      refine ⟨call, hside, .inl (hnext.trans (congrArg _ (hret fun hwaits => hawake ?_)))⟩
      exact asleep_iff.mpr ⟨call, generation, ticket, hpc, hside, hside ▸ hwaits⟩

section Waits

variable {call : Call} {picks : Picks} (hpc : s.pc i = .waiting call generation)
  (hbody : body s.shared (s.pc i) (.go picks) =
    (s.shared.setSem call.side (s.shared.sem call.side).wait.1, [],
      match (s.shared.sem call.side).wait.2 with
      | none => .woken call generation 0
      | some ticket => .blocked call generation ticket))

include hpc hbody

theorem wait_step : (threads.step s i (.go picks)).shared =
      s.shared.setSem call.side (s.shared.sem call.side).wait.1 ∧
    (threads.step s i (.go picks)).shared.core = s.shared.core ∧
    (threads.step s i (.go picks)).pc i = (match (s.shared.sem call.side).wait.2 with
      | none => .woken call generation 0
      | some ticket => .blocked call generation ticket) ∧
    ∀ side, held s side i = none := by
  have hshared : (threads.step s i (.go picks)).shared =
      s.shared.setSem call.side (s.shared.sem call.side).wait.1 := congrArg Prod.fst hbody
  refine ⟨hshared, by rw [hshared, core_setSem],
    (Threads.step_pc_self i _).trans (congrArg (fun r => r.2.2) hbody), fun side => ?_⟩
  unfold held
  rw [hpc]
  rfl

theorem Wakeful.waitsElsewhere (hw : Wakeful s side) (hside : call.side ≠ side) :
    Wakeful (threads.step s i (.go picks)) side := by
  obtain ⟨hshared, hcore, hnext, hnone⟩ := wait_step hpc hbody
  have hsem : (threads.step s i (.go picks)).shared.sem side = s.shared.sem side := by
    rw [hshared]
    exact sem_setSem_of_ne (Ne.symm hside) _
  have hheld : held (threads.step s i (.go picks)) side = held s side := by
    rw [held_step, hbody, Function.update_eq_self_iff, hnone]
    cases (s.shared.sem call.side).wait.2 with
    | none => rfl
    | some ticket => exact if_neg hside
  have hasleep : ∀ j, Asleep (threads.step s i (.go picks)) side j → Asleep s side j := by
    intro j hj
    rwa [Asleep, hsem, hheld] at hj
  have hafter : ¬((threads.step s i (.go picks)).pc i).On side := by
    rw [hnext]
    cases (s.shared.sem call.side).wait.2 <;> exact hside
  refine hw.silent (fun j hji => Threads.step_pc_of_ne hji _) ?_ (by rw [hsem]; exact id) hasleep
    (fun g => ⟨passes_of_core hcore, canceled_of_core hcore⟩)
    (fun g hj => absurd hj.on hafter) fun g hi _ => ?_
  · rw [hsem, hheld]
    exact hw.tickets
  · have hon := hi.on
    rw [hpc] at hon
    exact absurd hon hside

theorem Wakeful.waits (hw : Wakeful s side) (horder : InOrder s (i, .go picks))
    (hside : call.side = side) :
    Wakeful (threads.step s i (.go picks)) side := by
  subst hside
  have hcanceled : s.shared.Canceled call.side generation →
      0 < (s.shared.sem call.side).tokens ∧ ∀ j generation', j ≠ i →
        Past s call.side j generation' → ¬s.shared.Passes call.side generation' := by
    have h := horder.2
    rw [hpc] at h
    exact h
  obtain ⟨hshared, hcore, hnext, hnone⟩ := wait_step hpc hbody
  have hsem : (threads.step s i (.go picks)).shared.sem call.side =
      (s.shared.sem call.side).wait.1 := by rw [hshared, sem_setSem]
  have hheld : held (threads.step s i (.go picks)) call.side =
      Function.update (held s call.side) i (s.shared.sem call.side).wait.2 := by
    rw [held_step, hbody]
    congr 1
    cases (s.shared.sem call.side).wait.2 with
    | none => rfl
    | some ticket => exact if_pos rfl
  have htickets : ((threads.step s i (.go picks)).shared.sem call.side).Tickets
      (held (threads.step s i (.go picks)) call.side) := by
    rw [hsem, hheld]
    exact hw.tickets.wait (hnone _)
  have hasleep : ∀ j, Asleep (threads.step s i (.go picks)) call.side j ↔
      Asleep s call.side j ∨ j = i ∧ (s.shared.sem call.side).tokens = 0 := by
    intro j
    rw [Asleep, hsem, hheld]
    exact Semaphore.blocked_wait hw.tickets (hnone _) j
  have hpast : ∀ {j g}, j ≠ i → Past (threads.step s i (.go picks)) call.side j g →
      Past s call.side j g := by
    intro j g hji
    refine past_of_pc (Threads.step_pc_of_ne hji _) fun hj => ?_
    exact ((hasleep j).mp hj).resolve_right fun h => hji h.1
  have hself : Past s call.side i generation := ⟨call, rfl, .inl hpc⟩
  have hpasses : ∀ {g}, (threads.step s i (.go picks)).shared.Passes call.side g →
      s.shared.Passes call.side g := by
    intro g
    rw [passes_of_core hcore]
    exact id
  rcases (s.shared.sem call.side).wait_cases with ⟨hpos, htoken, -⟩ | ⟨hzero, hticket, -⟩
  · -- the thread takes a token
    rw [htoken] at hnext
    refine ⟨htickets, fun j g _ hj => ?_, fun j g hj hpass => .inr ?_⟩
    · rcases (hasleep j).mp hj with hold | ⟨-, hzero⟩
      · exact absurd hold (Semaphore.not_blocked_of_pos hpos j)
      · omega
    · by_cases hji : j = i
      · subst hji
        exact absurd hj (not_past_woken hnext)
      · obtain ⟨hover, hlive⟩ := passes_iff.mp (hpasses hpass)
        refine ⟨i, generation, ⟨call, rfl, .inl hnext⟩, ?_⟩
        rw [passes_of_core hcore]
        refine passes_of_not_canceled hover hlive fun hcancel => ?_
        exact (hcanceled hcancel).2 j g hji (hpast hji hj) (hpasses hpass)
  · -- it is blocked
    rw [hticket] at hnext
    have hgeneration : ∀ {g}, Past (threads.step s i (.go picks)) call.side i g →
        g = generation := by
      rintro g ⟨call', -, hpoint⟩
      rw [hnext] at hpoint
      rcases hpoint with h | ⟨⟨_, h⟩, -⟩ <;> cases h
      rfl
    refine ⟨htickets, fun j g hj hj' hcancel => ?_, fun j g hj hpass => ?_⟩
    · rw [canceled_of_core hcore] at hcancel
      by_cases hji : j = i
      · subst hji
        rw [hgeneration hj] at hcancel
        exact absurd hzero (Nat.ne_of_gt (hcanceled hcancel).1)
      · have hold : Asleep s call.side j := ((hasleep j).mp hj').resolve_right fun h => hji h.1
        exact hw.live j g (hpast hji hj) hold hcancel
    · have hold : Past s call.side j g := by
        by_cases hji : j = i
        · subst hji
          rw [hgeneration hj]
          exact hself
        · exact hpast hji hj
      rcases hw.woken j g hold (hpasses hpass) with hpos | ⟨k, g', hk, hk'⟩
      · omega
      · have hki : k ≠ i := by
          rintro rfl
          obtain ⟨call', -, hpoint⟩ := hk
          rw [hpc] at hpoint
          rcases hpoint with h | ⟨⟨_, h⟩, -⟩ <;> cases h
        refine .inr ⟨k, g', called_of_pc (Threads.step_pc_of_ne hki _) (fun h => ?_) hk, ?_⟩
        · exact ((hasleep k).mp h).resolve_right fun h => hki h.1
        · rwa [passes_of_core hcore]

end Waits

theorem Wakeful.runs (hw : Wakeful s side) (horder : InOrder s (i, input)) (hruns : (s.pc i).Runs)
    (hdoes : s.shared.Does (s.pc i) input (body s.shared (s.pc i) input).1
      (body s.shared (s.pc i) input).2.1)
    (hgoes : Goes (body s.shared (s.pc i) input))
    (hpasses : ∀ call g, s.pc i = .woken call g 0 → s.shared.Passes call.side g →
      s.shared.Notified (body s.shared (s.pc i) input).1) :
    Wakeful (threads.step s i input) side := by
  obtain ⟨a, henabled, hcore, -, hsems⟩ := hdoes
  have hcore : (threads.step s i input).shared.core = (s.shared.act a).core := hcore
  have hnone : held s side i = none := by
    unfold held
    cases hpc : s.pc i with
    | blocked => exact (not_runs_blocked (hpc ▸ hruns)).elim
    | _ => rfl
  have hheld : held (threads.step s i input) side = held s side := by
    rw [held_step, Function.update_eq_self_iff, hnone]
    unfold Goes at hgoes
    split at hgoes
    · next hpoint => rw [hpoint]; rfl
    · next hpoint => rw [hpoint]; rfl
    · next hpoint => rw [hpoint]; rfl
    · exact absurd hgoes id
  have hself : ∀ g, Past (threads.step s i input) side i g →
      (threads.step s i input).shared.MustWait side g ∧
        ¬Asleep (threads.step s i input) side i := by
    rintro g ⟨call, rfl, hpoint⟩
    refine ⟨?_, fun h => ?_⟩
    · rw [Threads.step_pc_self] at hpoint
      unfold Goes at hgoes
      rcases hpoint with hpoint | ⟨⟨ticket, hpoint⟩, -⟩
      · rw [show (body s.shared (s.pc i) input).2.2 = .waiting call g from hpoint] at hgoes
        exact hgoes
      · rw [show (body s.shared (s.pc i) input).2.2 = .blocked call g ticket from hpoint] at hgoes
        exact absurd hgoes id
    · obtain ⟨t, -, ht⟩ := h
      rw [hheld, hnone] at ht
      cases ht
  by_cases hnotified : s.shared.Notified (body s.shared (s.pc i) input).1
  · obtain ⟨pick, hsem⟩ : ∃ pick, (threads.step s i input).shared.sem side =
        notify (s.shared.sem side) pick := by
      obtain ⟨picks, hwritable, hreadable⟩ := hnotified
      cases side with
      | writable => exact ⟨picks.1, hwritable⟩
      | readable => exact ⟨picks.2, hreadable⟩
    refine hw.notified (fun j hji => Threads.step_pc_of_ne hji _) hsem hheld
      (fun g hlive hcancel => ?_) hself fun j g hj hj' hawake => ?_
    · rw [canceled_of_core hcore] at hcancel
      refine ⟨horder.1 side (cancels_of_act henabled hlive hcancel), fun g' hg' => ?_⟩
      rw [canceled_of_core hcore] at hg'
      rw [mustWait_of_core hcore]
      exact mustWait_of_cancels henabled hlive hcancel hg'
    · obtain ⟨call, g', ticket, hpc, hside, -⟩ := asleep_iff.mp hj'
      have hji : j ≠ i := by
        rintro rfl
        exact (not_runs_blocked (hpc ▸ hruns)).elim
      obtain ⟨call', hside', hpoint⟩ := hj
      refine ⟨call', hside', .inr ⟨?_, hawake⟩⟩
      rw [Threads.step_pc_of_ne hji]
      rcases hpoint with h | ⟨h, -⟩
      · cases hpc.symm.trans h
      · exact h
  · -- no one is waiting for what happens
    obtain ⟨hsilent, hwritable, hreadable⟩ := hsems.resolve_left hnotified
    have hsem : (threads.step s i input).shared.sem side = s.shared.sem side := by
      cases side with
      | writable => exact hwritable
      | readable => exact hreadable
    have hsame : ∀ g, (threads.step s i input).shared.Passes side g = s.shared.Passes side g ∧
        (threads.step s i input).shared.Canceled side g = s.shared.Canceled side g := by
      intro g
      rw [passes_of_core hcore, canceled_of_core hcore]
      cases a with
      | stay => exact ⟨rfl, rfl⟩
      | opens fd => cases fd <;> exact ⟨rfl, rfl⟩
      | _ => exact absurd hsilent id
    have hasleep : ∀ j, Asleep (threads.step s i input) side j → Asleep s side j := by
      intro j hj
      rwa [Asleep, hsem, hheld] at hj
    refine hw.silent (fun j hji => Threads.step_pc_of_ne hji _) ?_ (by rw [hsem]; exact id) hasleep
      hsame hself fun g hi hpass => ?_
    · rw [hsem, hheld]
      exact hw.tickets
    · obtain ⟨call, rfl, hpc | ⟨⟨ticket, hpc⟩, -⟩⟩ := hi
      · exact absurd (hpasses call g hpc hpass) hnotified
      · exact (not_runs_blocked (hpc ▸ hruns)).elim

/-- **A step that is in order keeps a side wakeful.** -/
theorem Wakeful.step (hw : Wakeful s side) (horder : InOrder s (i, input)) :
    Wakeful (threads.step s i input) side := by
  have hstill : body s.shared (s.pc i) input = (s.shared, [], s.pc i) →
      Wakeful (threads.step s i input) side := by
    intro hbody
    rwa [(Threads.step_of_still (m := threads) hbody).1]
  rcases body_cases s.shared (s.pc i) input with hbody |
    ⟨call, generation, ticket, ret, hpc, hret, hbody⟩ |
    ⟨call, generation, picks, hpc, hinput, hbody⟩ | ⟨hruns, hdoes⟩
  · exact hstill hbody
  · exact hw.returns hpc hret hbody
  · subst hinput
    by_cases hside : call.side = side
    · exact hw.waits hpc hbody horder hside
    · exact hw.waitsElsewhere hpc hbody hside
  · rcases goes_body s.shared input hruns with hbody | hgoes
    · exact hstill hbody
    · by_cases hbody : body s.shared (s.pc i) input = (s.shared, [], s.pc i)
      · exact hstill hbody
      · refine hw.runs horder hruns hdoes hgoes fun call g hpc hpass => ?_
        rw [hpc] at hbody ⊢
        obtain ⟨picks, hresume⟩ := (woken_cases call input).resolve_left hbody
        rw [hresume]
        exact notified_of_passes hpass

end States

/-! ## Whole runs -/

theorem wakeful_boot (size : Nat) (side : Side) : Wakeful (boot size) side where
  tickets := by cases side <;> exact Semaphore.tickets_empty
  live i g hpast := by
    obtain ⟨call, -, h | ⟨⟨_, h⟩, -⟩⟩ := hpast <;> cases h
  woken i g hpast := by
    obtain ⟨call, -, h | ⟨⟨_, h⟩, -⟩⟩ := hpast <;> cases h

/-- **No lost wakeup.** In every run whose steps are in order, whoever is blocked on a semaphore of
the channel although his condition is over will be woken: there is a token, or someone has been
woken who will look at his own condition and post again. -/
theorem wakeups (size : Nat) {events : List (Nat × Input)}
    (h : threads.machine.Throughout InOrder (boot size) events) (side : Side) :
    ¬Lost (threads.machine.run (boot size) events) side := by
  have hstep : ∀ s i input, Wakeful s side → InOrder s (i, input) →
      Wakeful (threads.step s i input) side := fun _ _ _ hw horder => hw.step horder
  exact (Threads.run_invariant_of (fun s => Wakeful s side) hstep (wakeful_boot size side)
    h).not_lost

/-- A reader is blocked on an empty ring, and a writer puts a byte in. -/
def oneReader : List (Nat × Input) :=
  [(0, .openFile true false), (1, .openFile false true),
    (0, .ioctl .writer (.registerSession {}) (0, 0)), (1, .read 1 false), (1, .go (0, 0)),
    (1, .go (0, 0)), (1, .go (0, 0)), (1, .go (0, 0)), (0, .write [7] false), (0, .go (0, 0))]

theorem wakeups_oneReader :
    (threads.machine.run (boot 3) (oneReader.take 8)).pc 1 = .blocked (.read 1 []) 1 0 ∧
      ¬Lost (threads.machine.run (boot 3) oneReader) .readable := by
  refine ⟨by decide +kernel, wakeups 3 ?_ .readable⟩
  refine ⟨⟨fun _ h => absurd h id, trivial⟩, ⟨fun _ h => absurd h id, trivial⟩,
    ⟨fun side _ i j hi => ?_, trivial⟩, ⟨fun _ h => absurd h id, trivial⟩,
    ⟨fun _ h => absurd h id, trivial⟩, ⟨fun _ h => absurd h id, fun h => absurd h (by decide)⟩,
    ⟨fun _ h => absurd h id, trivial⟩, ⟨fun _ h => absurd h id, fun h => absurd h (by decide)⟩,
    ⟨fun _ h => absurd h id, trivial⟩, ⟨fun _ h => absurd h id, trivial⟩, trivial⟩
  -- no one waits when the session is registered
  obtain ⟨call, generation, ticket, hpc, -⟩ := asleep_iff.mp hi
  have hready : (threads.machine.run (boot 3) (oneReader.take 2)).pc i = .ready := by
    by_cases hi0 : i = 0
    · rw [hi0]
      decide +kernel
    · by_cases hi1 : i = 1
      · rw [hi1]
        decide +kernel
      · exact Threads.run_pc_of_ne (by simp [oneReader, Ne.symm hi0, Ne.symm hi1])
  cases hready.symm.trans hpc

/-- Two readers are blocked when the session is aborted. -/
def twoReaders : List (Nat × Input) :=
  [(0, .openFile true false), (1, .openFile false true),
    (0, .ioctl .writer (.registerSession {}) (0, 0)), (1, .read 1 false), (1, .go (0, 0)),
    (1, .go (0, 0)), (1, .go (0, 0)), (1, .go (0, 0)), (2, .read 1 false), (2, .go (0, 0)),
    (2, .go (0, 0)), (0, .ioctl .writer .abortSession (0, 0))]

theorem not_wakeups : Lost (threads.machine.run (boot 3) twoReaders) .readable := by
  refine ⟨by decide +kernel, ⟨2, .read 1 [], 1, 1, by decide +kernel, rfl, by decide +kernel,
    by decide +kernel⟩, fun i generation _ hpasses => ?_⟩
  exact (passes_iff.mp hpasses).2 (.inr (by decide +kernel))

end Brickwright.Btcap
