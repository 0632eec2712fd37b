import Brickwright.HubProgram.Device.Basic

/-!
# Explicit reads and sessions

A session of a port is counted by the synchronizations that have begun. What is queued was pushed in
the latest of them (`Queued`), and an explicit read gives out no value of another session than the
first (`Inv.bound`): it is refused for good as soon as it has taken such a frame (`Inv.stale`).
-/

namespace Brickwright.HubProgram.Device

open Lump (DataFrame DataQueue DeviceInfo Refines SessionFifo SessionFrame)
open List

/-! ## The queue of a port -/

def Note.begins (p : Nat) : Note → Bool
  | .begun i => decide (i = p)
  | _ => false

/-- How many sessions of a port have begun. -/
def begins (p : Nat) (h : List Note) : Nat := h.countP (Note.begins p)

/-- The frame was queued in a session of the port. -/
def PushedIn (h : List Note) (p session : Nat) (frame : DataFrame) : Prop :=
  ∃ pre post, h = pre ++ .pushed p frame :: post ∧ begins p pre = session

/-- What is queued was pushed in the latest session. -/
def Queued (h : List Note) (p : Nat) (q : DataQueue) : Prop :=
  ∃ s, Refines q s ∧ s.begun = begins p h ∧ ∀ e ∈ s.pushed.map Prod.fst, PushedIn h p e.1 e.2

section Queue

variable {h l : List Note} {p n : Nat} {frame : DataFrame} {q q' : DataQueue}

theorem begins_append (h l : List Note) (p : Nat) :
    begins p (h ++ l) = begins p h + begins p l := countP_append

theorem begins_eq_zero (hno : ∀ x ∈ l, x ≠ .begun p) : begins p l = 0 := by
  rw [begins, countP_eq_zero]
  intro x hx hbegins
  cases x with
  | begun i =>
    obtain rfl : i = p := of_decide_eq_true hbegins
    exact hno _ hx rfl
  | _ => cases hbegins

theorem begins_pos (hmem : .begun p ∈ l) : 0 < begins p l :=
  countP_pos_iff.mpr ⟨_, hmem, decide_eq_true rfl⟩

theorem PushedIn.append (hf : PushedIn h p n frame) (l : List Note) :
    PushedIn (h ++ l) p n frame := by
  obtain ⟨pre, post, rfl, hn⟩ := hf
  exact ⟨pre, post ++ l, by rw [append_assoc, cons_append], hn⟩

theorem Queued.append (hq : Queued h p q) (hno : ∀ x ∈ l, x ≠ .begun p) :
    Queued (h ++ l) p q := by
  obtain ⟨s, hr, hbegun, hpushed⟩ := hq
  refine ⟨s, hr, ?_, fun e he => (hpushed e he).append l⟩
  rw [begins_append, begins_eq_zero hno, Nat.add_zero]
  exact hbegun

theorem Queued.begin (hq : Queued h p q) :
    Queued (h ++ if q.begin.1 = 0 then [.begun p] else []) p q.begin.2 := by
  obtain ⟨s, hr, hbegun, hpushed⟩ := hq
  obtain ⟨hrc, hnext⟩ := hr.begin
  rw [hrc]
  rw [SessionFifo.begin] at hnext ⊢
  split
  · next hmax =>
    have hrefused : ¬ -Lump.EOVERFLOW = 0 := by decide
    rw [if_pos hmax] at hnext
    rw [if_neg hrefused, append_nil]
    exact ⟨_, hnext, hbegun, fun _ he => absurd he not_mem_nil⟩
  · next hmax =>
    rw [if_neg hmax] at hnext
    rw [if_pos rfl]
    refine ⟨_, hnext, ?_, fun _ he => absurd he not_mem_nil⟩
    have hone : begins p [.begun p] = 1 := by
      rw [begins, countP_singleton]
      exact if_pos (decide_eq_true rfl)
    rw [begins_append, hone, ← hbegun]

theorem Queued.push (hq : Queued h p q) (frame : DataFrame) :
    Queued (h ++ if (q.push frame).1 = 0 then [.pushed p frame] else []) p (q.push frame).2 := by
  obtain ⟨s, hr, hbegun, hpushed⟩ := hq
  obtain ⟨hrc, hnext⟩ := Lump.refines_push hr (some frame)
  change (q.push frame).1 = _ at hrc
  rw [hrc]
  rw [SessionFifo.push] at hnext ⊢
  split
  · next hvalid =>
    rw [if_pos hvalid] at hnext
    rw [if_neg (Int.ne_of_lt Lump.einval_neg), append_nil]
    exact ⟨_, hnext, hbegun, hpushed⟩
  next hvalid =>
  rw [if_neg hvalid] at hnext
  split
  · next hlive =>
    rw [if_pos hlive] at hnext
    rw [if_neg (Int.ne_of_lt Lump.eagain_neg), append_nil]
    exact ⟨_, hnext, hbegun, hpushed⟩
  · next hlive =>
    rw [if_neg hlive] at hnext
    refine ⟨_, hnext, ?_, fun e he => ?_⟩
    · rw [begins_append]
      exact hbegun
    · rw [DropOldest.push, map_append, mem_append] at he
      rcases he with he | he
      · exact (hpushed e he).append _
      · rw [map_singleton, mem_singleton] at he
        rw [he]
        exact ⟨h, [], rfl, hbegun.symm⟩

theorem Queued.invalidate (hq : Queued h p q) : Queued h p q.invalidate := by
  obtain ⟨s, hr, hbegun, hpushed⟩ := hq
  exact ⟨_, hr.invalidate, hbegun, hpushed⟩

theorem Queued.reset (hq : Queued h p q) : Queued h p { q.invalidate with dropped := 0 } := by
  obtain ⟨s, hr, hbegun, -⟩ := hq
  refine ⟨⟨s.begun, false, []⟩, ?_, hbegun, fun _ he => absurd he not_mem_nil⟩
  exact hr.emptied rfl hr.begun rfl DropOldest.ordered_nil (fun _ he => absurd he not_mem_nil)
    rfl

/-- **A frame that is popped was pushed in the session it is stamped with**, the latest one. -/
theorem Queued.pop (hq : Queued h p q) {session : UInt64}
    (hpop : q.pop = (some (session, frame), q')) :
    session.toNat = begins p h ∧ PushedIn h p (begins p h) frame ∧ Queued h p q' := by
  obtain ⟨s, hr, hbegun, hpushed⟩ := hq
  cases hheld : s.held with
  | nil =>
    rw [hr.pop_none hheld] at hpop
    cases hpop
  | cons e rest =>
    obtain ⟨hout, hnext⟩ := hr.pop_some hheld
    rw [hpop] at hout hnext
    cases hout
    have hlive := Refines.live_of_held hheld
    have hmem : e ∈ s.pushed.map Prod.fst := by
      rw [Refines.held_live s hlive] at hheld
      exact DropOldest.mem_of_mem_held (hheld ▸ mem_cons_self)
    refine ⟨hr.begun.trans hbegun, ?_, _, hnext, hbegun, fun e' he' => ?_⟩
    · rw [← hbegun, ← hr.stamps e hmem]
      exact hpushed e hmem
    · rw [DropOldest.map_fst_pop] at he'
      exact hpushed e' he'

theorem Queued.zero (p : Nat) : Queued [] p DataQueue.boot :=
  ⟨_, Refines.zero, rfl, fun _ he => absurd he not_mem_nil⟩

end Queue

/-! ## What a step can do -/

/-- The port of the explicit read that is in progress. -/
def Access.reader (a : Access) : Option Nat := if a.explicit then some a.port else none

def Pc.reader : Pc → Option Nat
  | .idle => none
  | .opening a => a.reader
  | .asking a => a.reader
  | .selecting a _ => a.reader
  | .posting a _ _ => a.reader
  | .polling _ _ _ => none
  | .reading a => some a.port

def Resets (n : Note) : Prop := n = .initialised ∨ n = .released

/-- A note of no session: an explicit read that returns has taken no frame, and it is refused as
stale if its reader is. -/
def Note.Aside (s : State) : Note → Prop
  | .called _ => True
  | .returned p rc _ x => x = none ∧ rc < 0 ∧ (s.stale p = true → rc = -ESTALE)
  | .sensed _ _ _ => True
  | .refused _ => True
  | _ => False

theorem Note.Aside.quiet {s : State} {n : Note} (h : n.Aside s) :
    (¬ Resets n ∧ ∀ p rc v x, n ≠ .returned p rc v (some x)) ∧ ∀ p, n ≠ .begun p := by
  refine ⟨⟨?_, ?_⟩, ?_⟩
  · rintro (rfl | rfl)
    · exact h
    · exact h
  · rintro p rc v x rfl
    cases h.1
  · rintro p rfl
    exact h

/-- Nothing of the queues and of the explicit readers' bindings. -/
structure Beside (s : State) (r : State × List Note) : Prop where
  queues : ∀ p, (r.1.engines p).dq = (s.engines p).dq
  sessions : r.1.sessions = s.sessions
  stale : r.1.stale = s.stale
  reader : ∀ p, r.1.pc.reader = some p → s.stale p = false
  notes : ∀ n ∈ r.2, n.Aside s

inductive Move (s : State) : State × List Note → Prop where
  | port (i : Nat) (step : PortStep) : Move s (s.portStep i step)
  | beside {r : State × List Note} (h : Beside s r) : Move s r
  /-- A frame is lost to another read. -/
  | popped {r : State × List Note} (i : Nat) {x : UInt64 × DataFrame} {q : DataQueue}
      (hpop : (s.engines i).dq.pop = (some x, q))
      (h : Beside (s.setEngine i { s.engines i with dq := q }) r) : Move s r
  /-- An explicit read takes a frame. -/
  | taken (a : Access) {session : UInt64} {frame : DataFrame} {q : DataQueue}
      (hreader : s.pc = .reading a)
      (hpop : (s.engines a.port).dq.pop = (some (session, frame), q)) :
      Move s ((s.setEngine a.port { s.engines a.port with dq := q }).explicitSample a
        ⟨session, frame, 0⟩)
  | reset {s' : State} {n : Note} (hresets : Resets n) (hengines : s'.engines = s.engines)
      (hsessions : s'.sessions = fun _ => 0) (hstale : s'.stale = fun _ => false)
      (hpc : s'.pc = .idle) : Move s (s', [n])

section Moves

variable {s : State} {a : Access} {r : State × List Note}

theorem Beside.still (s : State) (notes : List Note) (hnotes : ∀ n ∈ notes, n.Aside s)
    (hreader : ∀ p, s.pc.reader = some p → s.stale p = false) : Beside s (s, notes) :=
  ⟨fun _ => rfl, rfl, rfl, hreader, hnotes⟩

theorem Beside.finish {n : Note} (hn : n.Aside s) : Beside s (s.finish n) := by
  refine ⟨fun _ => rfl, rfl, rfl, nofun, fun n' hn' => ?_⟩
  rw [mem_singleton.mp hn']
  exact hn

theorem Beside.fail {rc : Int} (hfree : ∀ p, a.reader = some p → s.stale p = false)
    (hrc : rc < 0) : Beside s (s.fail a rc) := by
  refine Beside.finish ?_
  split
  · next hexplicit =>
    have hport : s.stale a.port = false := hfree a.port (if_pos hexplicit)
    exact ⟨rfl, hrc, fun h => absurd (hport.symm.trans h) Bool.false_ne_true⟩
  · trivial

theorem Beside.ofPort {i : Nat} {p : PortState} (h : Beside (s.setPort i p) r) : Beside s r :=
  ⟨h.queues, h.sessions, h.stale, h.reader, h.notes⟩

theorem pollDone_beside (s : State) (a : Access) (updated : Bool) :
    Beside s (s.pollDone a updated) := by
  unfold State.pollDone
  dsimp only
  split
  · refine Beside.ofPort (Beside.finish ?_)
    trivial
  · refine Beside.ofPort (Beside.finish ?_)
    trivial

theorem pollLoop_beside (s : State) (a : Access) (updated : Bool) (budget : Nat) :
    Beside s (s.pollLoop a updated budget) := by
  cases budget with
  | zero => exact pollDone_beside s a updated
  | succ budget => exact ⟨fun _ => rfl, rfl, rfl, nofun, nofun⟩

theorem pollFrame_beside (s : State) (a : Access) (budget : Nat) (updated : Bool)
    (frame : DataFrame) : Beside s (s.pollFrame a budget updated frame) := by
  unfold State.pollFrame
  dsimp only
  split
  · exact pollLoop_beside s a updated budget
  split
  · split
    · exact Beside.finish trivial
    · exact Beside.ofPort (pollLoop_beside ..)
  split
  · exact Beside.finish trivial
  · exact Beside.ofPort (pollLoop_beside ..)

theorem polled_moves (s : State) (a : Access) (budget : Nat) (updated : Bool) (rc : Int) :
    Move s (s.polled a budget updated rc) := by
  unfold State.polled
  split
  · exact .beside (pollDone_beside s a updated)
  split
  · exact .beside (Beside.finish trivial)
  split
  · exact .beside (pollDone_beside s a updated)
  · next session frame q hpop => exact .popped a.port hpop (pollFrame_beside ..)

theorem read_moves (hpc : s.pc = .reading a)
    (hfree : ∀ p, s.pc.reader = some p → s.stale p = false) (rc : Int) :
    Move s (s.read a rc) := by
  have hport : s.stale a.port = false := hfree a.port (by rw [hpc]; rfl)
  have hfail : ∀ {rc : Int}, rc < 0 →
      Beside s (s.finish (.returned a.port rc a.value none)) := fun hrc =>
    Beside.finish ⟨rfl, hrc, fun h => absurd (hport.symm.trans h) Bool.false_ne_true⟩
  unfold State.read
  split
  · next hrc => exact .beside (hfail hrc)
  split
  · exact .beside (hfail (by decide))
  · next session frame q hpop => exact .taken a hpc hpop

section Open

variable (hfree : ∀ p, a.reader = some p → s.stale p = false)

include hfree

theorem access_beside : Beside s (s.access a) := by
  unfold State.access
  split
  · next hexplicit =>
    refine ⟨fun _ => rfl, rfl, rfl, fun p hp => hfree p ?_, nofun⟩
    rw [Access.reader, if_pos hexplicit]
    exact hp
  · exact pollLoop_beside s a false 16

theorem openPort_beside : Beside s (s.openPort a) := by
  unfold State.openPort
  split
  · exact Beside.fail hfree (by decide)
  split
  · exact ⟨fun _ => rfl, rfl, rfl, hfree, nofun⟩
  · exact ⟨fun _ => rfl, rfl, rfl, hfree, nofun⟩

theorem opened_beside (rc : Int) : Beside s (s.opened a rc) := by
  unfold State.opened
  split
  · next hrc => exact Beside.ofPort (Beside.fail hfree hrc)
  · exact ⟨fun _ => rfl, rfl, rfl, hfree, nofun⟩

theorem asked_beside (rc : Int) : Beside s (s.asked a rc) := by
  unfold State.asked
  split
  · next hrc => exact Beside.fail hfree hrc
  split
  · next rc' hinfo =>
    rw [State.getInfo] at hinfo
    split at hinfo <;> cases hinfo
    exact Beside.fail hfree (by decide)
  split
  · exact Beside.fail hfree (by decide)
  split
  · exact Beside.fail hfree (by decide)
  dsimp only
  split
  · exact ⟨fun _ => rfl, rfl, rfl, hfree, nofun⟩
  · exact Beside.ofPort (access_beside hfree)

theorem checked_beside (typeId : UInt8) (rc : Int) : Beside s (s.checked a typeId rc) := by
  unfold State.checked
  split
  · next hrc => exact Beside.fail hfree hrc
  split
  · next rc' hcheck =>
    refine Beside.fail hfree ?_
    rw [Lump.Engine.checkSelect] at hcheck
    split at hcheck
    · cases hcheck
      decide
    split at hcheck <;> cases hcheck
    decide
  · exact ⟨fun _ => rfl, rfl, rfl, hfree, nofun⟩

theorem selected_beside (typeId : UInt8) (request : Lump.Request) :
    Beside s (s.selected a typeId request) := by
  have hpost : ∀ p, ((s.setEngine a.port ((s.engines a.port).post request)).engines p).dq =
      (s.engines p).dq := by
    intro p
    show (Function.update s.engines a.port _ p).dq = _
    by_cases hp : p = a.port
    · subst hp
      rw [Function.update_self]
      cases request with
      | select mode => rfl
      | send mode buf needSelect => cases needSelect <;> rfl
    · rw [Function.update_of_ne hp]
  have h : Beside (s.setEngine a.port ((s.engines a.port).post request))
      (s.selected a typeId request) :=
    Beside.ofPort (access_beside hfree)
  exact ⟨fun p => (h.queues p).trans (hpost p), h.sessions, h.stale, h.reader, h.notes⟩

end Open

/-- An explicit read whose reader is stale is refused at once. -/
theorem explicitDistance_beside (s : State) (port : Nat) (value : Int) :
    Beside s (s.explicitDistance port value) := by
  let a : Access := ⟨port, 62, 0, true, value⟩
  have hread : Beside s (if s.stale port then s.fail a (-ESTALE) else s.openPort a) := by
    split
    · next hstale =>
      refine Beside.finish ⟨rfl, by decide, fun _ => rfl⟩
    · next hlive =>
      refine openPort_beside fun p hp => ?_
      cases hp
      exact Bool.eq_false_iff.mpr hlive
  refine ⟨hread.queues, hread.sessions, hread.stale, hread.reader, fun n hn => ?_⟩
  rcases mem_cons.mp hn with rfl | hn
  · trivial
  · exact hread.notes n hn

theorem sensor_beside (predicate : Nat) (value : Option Int) (hpc : s.pc = .idle) :
    Beside s (s.sensor predicate value) := by
  have hrefused : Beside s (s, [.refused (-EINVAL)]) := by
    refine Beside.still s _ (fun n hn => ?_) ?_
    · rw [mem_singleton.mp hn]
      trivial
    · rw [hpc]
      exact nofun
  cases value with
  | none => exact hrefused
  | some value =>
    unfold State.sensor
    dsimp only
    split
    · exact hrefused
    split
    · exact explicitDistance_beside ..
    split
    · exact openPort_beside nofun
    split
    · exact openPort_beside nofun
    split
    · exact openPort_beside nofun
    · exact hrefused

/-- **Every step is one of these**, if the explicit read in progress is not of a stale reader. -/
theorem step_moves (e : Event) (hreader : ∀ p, s.pc.reader = some p → s.stale p = false) :
    Move s (device.step s e) := by
  have hstill : Move s (s, []) := .beside (Beside.still s [] nofun hreader)
  have hidle : ∀ {r : State × List Note}, (s.pc = .idle → Move s r) → Move s (s.whenIdle r) := by
    intro r h
    unfold State.whenIdle
    split
    · next hpc => exact h hpc
    · exact hstill
  cases e with
  | port i step => exact .port i step
  | init => exact hidle fun hpc => .reset (.inl rfl) rfl rfl rfl hpc
  | release => exact hidle fun hpc => .reset (.inr rfl) rfl rfl rfl hpc
  | tick now =>
    refine hidle fun _ => .beside ?_
    unfold State.tick
    split
    · exact Beside.still s [] nofun hreader
    · exact ⟨fun _ => rfl, rfl, rfl, hreader, nofun⟩
  | sensor predicate value =>
    exact hidle fun hpc => .beside (sensor_beside predicate value hpc)
  | resume rc =>
    show Move s (s.resume rc)
    unfold State.resume
    split
    · exact hstill
    · next a hpc => exact .beside (opened_beside (fun p hp => hreader p (by rw [hpc]; exact hp)) rc)
    · next a hpc => exact .beside (asked_beside (fun p hp => hreader p (by rw [hpc]; exact hp)) rc)
    · next a typeId hpc =>
      exact .beside (checked_beside (fun p hp => hreader p (by rw [hpc]; exact hp)) typeId rc)
    · next a typeId request hpc =>
      exact .beside
        (selected_beside (fun p hp => hreader p (by rw [hpc]; exact hp)) typeId request)
    · next a budget updated hpc => exact polled_moves s a budget updated rc
    · next a hpc => exact read_moves hpc hreader rc

theorem explicitSample_cases (s : State) (a : Access) (x : SessionFrame) :
    (x.session ≠ 0 ∧ s.sessions a.port ≠ 0 ∧ x.session ≠ s.sessions a.port ∧
      s.explicitSample a x = ({ s with stale := Function.update s.stale a.port true, pc := .idle },
        [.returned a.port (-ESTALE) a.value (some x)])) ∨
    ((x.session = 0 ∨ s.sessions a.port = 0 ∨ x.session = s.sessions a.port) ∧
      s.explicitSample a x = ({ s with pc := .idle },
        [.returned a.port (-EPROTO) a.value (some x)])) ∨
    (x.session ≠ 0 ∧ (s.sessions a.port = 0 ∨ x.session = s.sessions a.port) ∧
      s.explicitSample a x = ({ s with
          sessions := Function.update s.sessions a.port x.session, pc := .idle },
        [.returned a.port 0 (State.distance x.frame) (some x)])) := by
  unfold State.explicitSample
  split
  · next hzero => exact .inr (.inl ⟨.inl hzero, rfl⟩)
  next hzero =>
  split
  · next hother => exact .inl ⟨hzero, hother.1, hother.2, rfl⟩
  next hsame =>
  have hbound : s.sessions a.port = 0 ∨ x.session = s.sessions a.port := by
    rw [not_and_or, not_not, not_not] at hsame
    exact hsame
  split
  · exact .inr (.inl ⟨.inr hbound, rfl⟩)
  · exact .inr (.inr ⟨hzero, hbound, rfl⟩)

end Moves

/-! ## The invariant -/

/-- An explicit read of the port returns a value of a session. -/
def Value (p : Nat) (session : UInt64) (n : Note) : Prop :=
  ∃ v x, n = .returned p 0 v (some x) ∧ x.session = session

/-- An explicit read of the port has taken a frame of another session. -/
def Stale (p : Nat) (n : Note) : Prop := ∃ v x, n = .returned p (-ESTALE) v (some x)

structure Inv (h : List Note) (s : State) : Prop where
  queued : ∀ p, Queued h p (s.engines p).dq
  bound : ∀ p n, Outstanding (Value p n) Resets h → s.sessions p = n ∧ n ≠ 0
  stale : ∀ p, Outstanding (Stale p) Resets h → s.stale p = true
  reader : ∀ p, s.pc.reader = some p → s.stale p = false

namespace Inv

variable {h notes : List Note} {s : State} {r : State × List Note}

theorem outstanding_aside (hnotes : ∀ n ∈ notes, ¬ Resets n ∧
      ∀ p rc v x, n ≠ .returned p rc v (some x)) (p : Nat) (session : UInt64) :
    (Outstanding (Value p session) Resets (h ++ notes) ↔
      Outstanding (Value p session) Resets h) ∧
    (Outstanding (Stale p) Resets (h ++ notes) ↔ Outstanding (Stale p) Resets h) := by
  refine ⟨Outstanding.append_iff fun n hn => ⟨?_, (hnotes n hn).1⟩,
    Outstanding.append_iff fun n hn => ⟨?_, (hnotes n hn).1⟩⟩
  · rintro ⟨v, x, heq, -⟩
    exact (hnotes n hn).2 p 0 v x heq
  · rintro ⟨v, x, heq⟩
    exact (hnotes n hn).2 p (-ESTALE) v x heq

theorem engine (hi : Inv h s) {i : Nat} {e : Lump.Engine} (hq : Queued (h ++ notes) i e.dq)
    (hnotes : ∀ n ∈ notes, n = .begun i ∨ ∃ frame, n = .pushed i frame) :
    Inv (h ++ notes) (s.setEngine i e) := by
  have haside : ∀ n ∈ notes, ¬ Resets n ∧ ∀ p rc v x, n ≠ .returned p rc v (some x) := by
    intro n hn
    rcases hnotes n hn with rfl | ⟨frame, rfl⟩
    · exact ⟨not_or.mpr ⟨nofun, nofun⟩, nofun⟩
    · exact ⟨not_or.mpr ⟨nofun, nofun⟩, nofun⟩
  refine ⟨fun p => ?_, fun p n hn => hi.bound p n ((outstanding_aside haside p n).1.mp hn),
    fun p hn => hi.stale p ((outstanding_aside haside p 0).2.mp hn), hi.reader⟩
  show Queued _ p (Function.update s.engines i e p).dq
  by_cases hp : p = i
  · subst hp
    rw [Function.update_self]
    exact hq
  · rw [Function.update_of_ne hp]
    refine (hi.queued p).append fun n hn heq => ?_
    rcases hnotes n hn with hbegun | ⟨frame, hpushed⟩
    · rw [heq] at hbegun
      injection hbegun with hsame
      exact hp hsame
    · rw [heq] at hpushed
      cases hpushed

theorem portStep (hi : Inv h s) (i : Nat) (step : PortStep) :
    Inv (h ++ (s.portStep i step).2) (s.portStep i step).1 := by
  have hsame : ∀ {e : Lump.Engine}, Queued h i e.dq → Inv (h ++ []) (s.setEngine i e) := by
    intro e hq
    refine hi.engine ?_ nofun
    rwa [append_nil]
  cases step with
  | info info => exact hsame (hi.queued i)
  | reset => exact hsame (hi.queued i).reset
  | begin =>
    refine hi.engine (hi.queued i).begin fun n hn => ?_
    change n ∈ if (s.engines i).dq.begin.1 = 0 then [.begun i] else [] at hn
    split at hn
    · exact .inl (mem_singleton.mp hn)
    · cases hn
  | push frame =>
    refine hi.engine ((hi.queued i).push frame) fun n hn => ?_
    change n ∈ if ((s.engines i).dq.push frame).1 = 0 then [.pushed i frame] else [] at hn
    split at hn
    · exact .inr ⟨frame, mem_singleton.mp hn⟩
    · cases hn
  | invalidate => exact hsame (hi.queued i).invalidate
  | take => exact hsame (hi.queued i)

theorem append (hi : Inv h s) (hnotes : ∀ n ∈ notes, n.Aside s) : Inv (h ++ notes) s where
  queued p := (hi.queued p).append fun n hn => (hnotes n hn).quiet.2 p
  bound p n hn :=
    hi.bound p n ((outstanding_aside (fun n hn => (hnotes n hn).quiet.1) p n).1.mp hn)
  stale p hn :=
    hi.stale p ((outstanding_aside (fun n hn => (hnotes n hn).quiet.1) p 0).2.mp hn)
  reader := hi.reader

theorem beside (hi : Inv h s) (hb : Beside s r) : Inv (h ++ r.2) r.1 := by
  have hnext := hi.append hb.notes
  refine ⟨fun p => ?_, fun p n hn => ?_, fun p hn => ?_, fun p hp => ?_⟩
  · rw [hb.queues]
    exact hnext.queued p
  · rw [hb.sessions]
    exact hnext.bound p n hn
  · rw [hb.stale]
    exact hnext.stale p hn
  · rw [hb.stale]
    exact hb.reader p hp

theorem pop (hi : Inv h s) {i : Nat} {session : UInt64} {frame : DataFrame} {q : DataQueue}
    (hpop : (s.engines i).dq.pop = (some (session, frame), q)) :
    session.toNat = begins i h ∧ PushedIn h i (begins i h) frame ∧
      Inv h (s.setEngine i { s.engines i with dq := q }) := by
  obtain ⟨hsession, hpushed, hq⟩ := (hi.queued i).pop hpop
  refine ⟨hsession, hpushed, ?_⟩
  have hnext : Inv (h ++ []) (s.setEngine i { s.engines i with dq := q }) :=
    hi.engine (by rwa [append_nil]) nofun
  rwa [append_nil] at hnext

theorem explicitSample (hi : Inv h s) (a : Access) (x : SessionFrame) :
    Inv (h ++ (s.explicitSample a x).2) (s.explicitSample a x).1 := by
  have hnobegin : ∀ {rc v y}, ∀ n ∈ [Note.returned a.port rc v y], ∀ p, n ≠ .begun p := by
    intro rc v y n hn p
    rw [mem_singleton.mp hn]
    exact Note.noConfusion
  have hqueued : ∀ {rc v y} p, Queued (h ++ [Note.returned a.port rc v y]) p (s.engines p).dq :=
    fun p => (hi.queued p).append fun n hn => hnobegin n hn p
  have hvalue : ∀ {rc v p n}, rc ≠ 0 →
      Outstanding (Value p n) Resets (h ++ [.returned a.port rc v (some x)]) →
      s.sessions p = n ∧ n ≠ 0 := by
    intro rc v p n hrc hn
    rcases Outstanding.concat.mp hn with ⟨v', y, heq, -⟩ | ⟨hold, -⟩
    · injection heq with _ hzero
      exact absurd hzero hrc
    · exact hi.bound p n hold
  have hstale : ∀ {rc v p}, rc ≠ -ESTALE →
      Outstanding (Stale p) Resets (h ++ [.returned a.port rc v (some x)]) →
      s.stale p = true := by
    intro rc v p hrc hn
    rcases Outstanding.concat.mp hn with ⟨v', y, heq⟩ | ⟨hold, -⟩
    · injection heq with _ hsame
      exact absurd hsame hrc
    · exact hi.stale p hold
  rcases explicitSample_cases s a x with
    ⟨-, -, -, heq⟩ | ⟨-, heq⟩ | ⟨hne, hbound, heq⟩
  · rw [heq]
    refine ⟨hqueued, fun p n hn => hvalue (by decide) hn, fun p hn => ?_, nofun⟩
    show Function.update s.stale a.port true p = true
    by_cases hp : p = a.port
    · rw [hp, Function.update_self]
    · rw [Function.update_of_ne hp]
      rcases Outstanding.concat.mp hn with ⟨v, y, hsame⟩ | ⟨hold, -⟩
      · injection hsame with hport
        exact absurd hport.symm hp
      · exact hi.stale p hold
  · rw [heq]
    exact ⟨hqueued, fun p n hn => hvalue (by decide) hn, fun p hn => hstale (by decide) hn, nofun⟩
  · rw [heq]
    refine ⟨hqueued, fun p n hn => ?_, fun p hn => hstale (by decide) hn, nofun⟩
    show Function.update s.sessions a.port x.session p = n ∧ n ≠ 0
    by_cases hp : p = a.port
    · subst hp
      rw [Function.update_self]
      rcases Outstanding.concat.mp hn with ⟨v, y, hsame, rfl⟩ | ⟨hold, -⟩
      · injection hsame with _ _ _ hx
        cases hx
        exact ⟨rfl, hne⟩
      · -- The reader was bound before, so the frame is of the same session.
        obtain ⟨hsession, hnz⟩ := hi.bound _ n hold
        rcases hbound with hfree | hsame
        · exact absurd (hsession.symm.trans hfree) hnz
        · exact ⟨hsame.trans hsession, hnz⟩
    · rw [Function.update_of_ne hp]
      rcases Outstanding.concat.mp hn with ⟨v, y, hsame, -⟩ | ⟨hold, -⟩
      · injection hsame with hport
        exact absurd hport.symm hp
      · exact hi.bound p n hold

theorem step (hi : Inv h s) (e : Event) :
    Inv (h ++ (device.step s e).2) (device.step s e).1 := by
  have hmoves := step_moves e hi.reader
  generalize device.step s e = r at hmoves
  cases hmoves with
  | port i step => exact hi.portStep i step
  | beside hb => exact hi.beside hb
  | popped i hpop hb => exact (hi.pop hpop).2.2.beside hb
  | taken a hreader hpop => exact (hi.pop hpop).2.2.explicitSample a _
  | reset hresets hengines hsessions hstale hpc =>
    rename_i s' n
    have hnone : ∀ {opens : Note → Prop}, ¬ opens n →
        ¬ Outstanding opens Resets (h ++ [n]) := by
      intro opens hopens hn
      rcases Outstanding.concat.mp hn with hopen | ⟨-, hclosed⟩
      · exact hopens hopen
      · exact hclosed hresets
    refine ⟨fun p => ?_, fun p n' hn => absurd hn (hnone ?_), fun p hn => absurd hn (hnone ?_),
      fun p hp => ?_⟩
    · show Queued _ p (s'.engines p).dq
      rw [hengines]
      refine (hi.queued p).append fun n' hn' heq => ?_
      rw [mem_singleton.mp hn'] at heq
      subst heq
      rcases hresets with hr | hr <;> cases hr
    · rintro ⟨v, x, rfl, -⟩
      rcases hresets with hr | hr <;> cases hr
    · rintro ⟨v, x, rfl⟩
      rcases hresets with hr | hr <;> cases hr
    · change s'.pc.reader = _ at hp
      rw [hpc] at hp
      cases hp

theorem zero : Inv [] start where
  queued := Queued.zero
  bound _ _ hn := absurd hn Outstanding.nil
  stale _ hn := absurd hn Outstanding.nil
  reader _ hp := by cases hp

end Inv

/-!
## Explicit reads give out values of one session

Between two resets all values of a port's explicit reads are of one session. When another session
has begun, no read that returns has a value: it has the error that kept it from a frame, or it has
taken one and is stale, and then so is every later read (`OneSession`).
-/

/-! ### One read -/

/-- An explicit read of the port returns in a state with a history. -/
inductive Returned (h : List Note) (s : State) (p : Nat) :
    Int → Int → Option SessionFrame → Prop where
  /-- It has taken no frame. -/
  | failed (rc v : Int) (hrc : rc < 0) (hstale : s.stale p = true → rc = -ESTALE) :
      Returned h s p rc v none
  | stale (v : Int) (x : SessionFrame) (hlive : s.stale p = false) :
      Returned h s p (-ESTALE) v (some x)
  | malformed (v : Int) (x : SessionFrame) (hlive : s.stale p = false)
      (hlatest : x.session.toNat = begins p h)
      (hbound : x.session = 0 ∨ s.sessions p = 0 ∨ x.session = s.sessions p) :
      Returned h s p (-EPROTO) v (some x)
  | value (x : SessionFrame) (hlive : s.stale p = false) (hlatest : x.session.toNat = begins p h)
      (hpushed : PushedIn h p (begins p h) x.frame)
      (hbound : s.sessions p = 0 ∨ x.session = s.sessions p) :
      Returned h s p 0 (State.distance x.frame) (some x)

section Step

variable {h l l' : List Note} {s : State} {p : Nat} {rc v : Int} {x : Option SessionFrame}

theorem Note.Aside.failed (hn : (Note.returned p rc v x).Aside s) : Returned h s p rc v x := by
  obtain ⟨rfl, hrc, hstale⟩ := hn
  exact .failed rc v hrc hstale

theorem Inv.returned (hi : Inv h s) (e : Event)
    (hn : .returned p rc v x ∈ (device.step s e).2) : Returned h s p rc v x := by
  have hmoves := step_moves e hi.reader
  generalize device.step s e = r at hmoves hn
  cases hmoves with
  | port i step =>
    refine absurd hn ?_
    cases step with
    | begin =>
      show _ ∉ if (s.engines i).dq.begin.1 = 0 then [Note.begun i] else []
      split <;> simp
    | push frame =>
      show _ ∉ if ((s.engines i).dq.push frame).1 = 0 then [Note.pushed i frame] else []
      split <;> simp
    | _ => exact not_mem_nil
  | beside hb => exact (hb.notes _ hn).failed
  | popped i hpop hb =>
    cases hb.notes _ hn with
    | intro hnone hrest =>
      subst hnone
      exact .failed rc v hrest.1 hrest.2
  | @taken a session frame q hreader hpop =>
    obtain ⟨hlatest, hpushed, hnext⟩ := hi.pop hpop
    have hlive : s.stale a.port = false := hi.reader a.port (by rw [hreader]; rfl)
    rcases explicitSample_cases (s.setEngine a.port { s.engines a.port with dq := q }) a
      ⟨session, frame, 0⟩ with ⟨-, -, -, heq⟩ | ⟨hbound, heq⟩ | ⟨-, hbound, heq⟩
    · rw [heq] at hn
      cases mem_singleton.mp hn
      exact .stale a.value _ hlive
    · rw [heq] at hn
      cases mem_singleton.mp hn
      exact .malformed a.value _ hlive hlatest hbound
    · rw [heq] at hn
      cases mem_singleton.mp hn
      exact .value ⟨session, frame, 0⟩ hlive hlatest hpushed hbound
  | reset hresets =>
    rw [← mem_singleton.mp hn] at hresets
    rcases hresets with hr | hr <;> cases hr

theorem Inv.before_returned (hi : Inv h s) (e : Event)
    (hnotes : (device.step s e).2 = l ++ .returned p rc v x :: l') : ∀ n ∈ l, n.Aside s := by
  have hmoves := step_moves e hi.reader
  generalize device.step s e = r at hmoves hnotes
  have hsingle : ∀ {n : Note}, r.2 = [n] → ∀ n' ∈ l, n'.Aside s := by
    intro n hone n' hn'
    rw [hone] at hnotes
    cases l with
    | nil => exact absurd hn' not_mem_nil
    | cons m l =>
      injection hnotes with _ hrest
      simp at hrest
  have hall : (∀ n ∈ r.2, n.Aside s) → ∀ n ∈ l, n.Aside s := by
    intro haside n hn
    refine haside n ?_
    rw [hnotes]
    exact mem_append_left _ hn
  cases hmoves with
  | port i step =>
    cases step with
    | begin =>
      change (if (s.engines i).dq.begin.1 = 0 then [Note.begun i] else []) = _ at hnotes
      split at hnotes <;> simp [cons_eq_append_iff] at hnotes
    | push frame =>
      change (if ((s.engines i).dq.push frame).1 = 0 then [Note.pushed i frame] else []) = _
        at hnotes
      split at hnotes <;> simp [cons_eq_append_iff] at hnotes
    | _ => simp [State.portStep] at hnotes
  | beside hb => exact hall hb.notes
  | popped i hpop hb => exact hall hb.notes
  | @taken a session frame q hreader hpop =>
    rcases explicitSample_cases (s.setEngine a.port { s.engines a.port with dq := q }) a
      ⟨session, frame, 0⟩ with ⟨-, -, -, heq⟩ | ⟨-, heq⟩ | ⟨-, -, heq⟩
    all_goals exact hsingle (congrArg Prod.snd heq)
  | reset => exact hsingle rfl

end Step

/-! ### The run -/

abbrev noted (events : List Event) : List Note := device.history start events

section Run

variable {events : List Event} {pre post : List Note} {p : Nat} {rc v : Int}
  {x : Option SessionFrame}

theorem inv_run (events : List Event) : Inv (noted events) (device.run start events) :=
  Machine.history_invariant (fun _ _ e hi => hi.step e) Inv.zero events

theorem returned_run (hh : noted events = pre ++ .returned p rc v x :: post) :
    ∃ s, Inv pre s ∧ Returned pre s p rc v x := by
  obtain ⟨before, e, after, l, l', -, hnotes, rfl, -⟩ := Machine.exists_step_of_history hh
  have hi := inv_run before
  have haside := hi.before_returned e hnotes
  refine ⟨device.run start before, hi.append haside, ?_⟩
  have hmem : .returned p rc v x ∈ (device.step (device.run start before) e).2 := by
    rw [hnotes]
    exact mem_append_right _ mem_cons_self
  have hbegins : begins p (noted before ++ l) = begins p (noted before) := by
    rw [begins_append, begins_eq_zero fun n hn => (haside n hn).quiet.2 p, Nat.add_zero]
  cases hi.returned e hmem with
  | failed rc v hrc hstale => exact .failed rc v hrc hstale
  | stale v x hlive => exact .stale v x hlive
  | malformed v x hlive hlatest hbound =>
    exact .malformed v x hlive (hlatest.trans hbegins.symm) hbound
  | value x hlive hlatest hpushed hbound =>
    refine .value x hlive (hlatest.trans hbegins.symm) ?_ hbound
    rw [hbegins]
    exact hpushed.append l

end Run

/-- What is true of the explicit reads of a history. -/
structure OneSession (h : List Note) : Prop where
  /-- A value is the distance in a frame that was queued in the session that is the latest. -/
  source : ∀ pre post p v x, h = pre ++ .returned p 0 v x :: post →
    ∃ y, x = some y ∧ v = State.distance y.frame ∧ y.session.toNat = begins p pre ∧
      PushedIn pre p (begins p pre) y.frame
  /-- Two values of a port are of the same session, if the readers are not reset between. -/
  single : ∀ pre mid post p v x v' x',
    h = pre ++ .returned p 0 v x :: (mid ++ .returned p 0 v' x' :: post) →
    (∀ n ∈ mid, ¬ Resets n) → ∃ y y', x = some y ∧ x' = some y' ∧ y'.session = y.session
  /-- Behind a value and the beginning of another session no read returns a value, and one that
  has taken a frame is stale. -/
  changed : ∀ pre mid post p v x rc v' x',
    h = pre ++ .returned p 0 v x :: (mid ++ .returned p rc v' x' :: post) →
    (∀ n ∈ mid, ¬ Resets n) → .begun p ∈ mid → rc < 0 ∧ ∀ y, x' = some y → rc = -ESTALE
  /-- Behind a stale read every read is stale, and takes no frame. -/
  latched : ∀ pre mid post p v y rc v' x',
    h = pre ++ .returned p (-ESTALE) v (some y) :: (mid ++ .returned p rc v' x' :: post) →
    (∀ n ∈ mid, ¬ Resets n) → rc = -ESTALE ∧ x' = none

/-- **Explicit reads give out values of one session**, in every run. -/
theorem explicit_one_session (events : List Event) : OneSession (noted events) := by
  have hsource : ∀ pre post p v x, noted events = pre ++ .returned p 0 v x :: post →
      ∃ y, x = some y ∧ v = State.distance y.frame ∧ y.session.toNat = begins p pre ∧
        PushedIn pre p (begins p pre) y.frame := by
    intro pre post p v x hh
    obtain ⟨s, -, hret⟩ := returned_run hh
    cases hret with
    | failed _ _ hrc => exact absurd hrc (lt_irrefl 0)
    | value x _ hlatest hpushed => exact ⟨x, rfl, rfl, hlatest, hpushed⟩
  -- Behind a value the reader is bound to its session.
  have hbound : ∀ {pre mid post p v x rc v' x'},
      noted events = pre ++ .returned p 0 v x :: (mid ++ .returned p rc v' x' :: post) →
      (∀ n ∈ mid, ¬ Resets n) → ∃ y s, x = some y ∧ y.session.toNat = begins p pre ∧
        s.sessions p = y.session ∧ y.session ≠ 0 ∧
        Returned (pre ++ .returned p 0 v x :: mid) s p rc v' x' := by
    intro pre mid post p v x rc v' x' hh hmid
    obtain ⟨y, rfl, -, hlatest, -⟩ := hsource _ _ _ _ _ hh
    rw [← cons_append, ← append_assoc] at hh
    obtain ⟨s, hi, hret⟩ := returned_run hh
    obtain ⟨hsession, hne⟩ := hi.bound p y.session ⟨pre, _, mid, rfl, ⟨v, y, rfl, rfl⟩, hmid⟩
    exact ⟨y, s, rfl, hlatest, hsession, hne, hret⟩
  refine ⟨hsource, ?_, ?_, ?_⟩
  · intro pre mid post p v x v' x' hh hmid
    obtain ⟨y, s, rfl, -, hsession, hne, hret⟩ := hbound hh hmid
    cases hret with
    | failed _ _ hrc => exact absurd hrc (lt_irrefl 0)
    | value y' _ _ _ hsame =>
      refine ⟨y, y', rfl, rfl, ?_⟩
      rcases hsame with hfree | hsame
      · exact absurd (hsession.symm.trans hfree) hne
      · exact hsame.trans hsession
  · intro pre mid post p v x rc v' x' hh hmid hbegun
    obtain ⟨y, s, rfl, hlatest, hsession, hne, hret⟩ := hbound hh hmid
    have hlater : y.session.toNat < begins p (pre ++ .returned p 0 v (some y) :: mid) := by
      have hpos := begins_pos hbegun
      rw [begins_append, hlatest]
      have hmore : begins p mid ≤ begins p (.returned p 0 v (some y) :: mid) :=
        (sublist_cons_self _ _).countP_le
      omega
    -- A frame of the latest session is of another one than the reader's.
    have hother : ∀ {y' : SessionFrame},
        y'.session.toNat = begins p (pre ++ .returned p 0 v (some y) :: mid) →
        s.sessions p ≠ 0 ∧ y'.session ≠ s.sessions p ∧ y'.session ≠ 0 := by
      intro y' hy'
      rw [← hy'] at hlater
      refine ⟨hsession ▸ hne, ?_, ?_⟩
      · rintro heq
        rw [heq, hsession] at hlater
        exact lt_irrefl _ hlater
      · intro heq
        rw [heq] at hlater
        exact Nat.not_lt_zero _ hlater
    cases hret with
    | failed _ _ hrc => exact ⟨hrc, nofun⟩
    | stale => exact ⟨by decide, fun _ _ => rfl⟩
    | malformed _ _ _ hlatest' hsame =>
      obtain ⟨hbound', hsession', hzero⟩ := hother hlatest'
      rcases hsame with h | h | h
      · exact absurd h hzero
      · exact absurd h hbound'
      · exact absurd h hsession'
    | value _ _ hlatest' _ hsame =>
      obtain ⟨hbound', hsession', -⟩ := hother hlatest'
      rcases hsame with h | h
      · exact absurd h hbound'
      · exact absurd h hsession'
  · intro pre mid post p v y rc v' x' hh hmid
    rw [← cons_append, ← append_assoc] at hh
    obtain ⟨s, hi, hret⟩ := returned_run hh
    have hstale := hi.stale p ⟨pre, _, mid, rfl, ⟨v, y, rfl⟩, hmid⟩
    cases hret with
    | failed _ _ _ h => exact ⟨h hstale, rfl⟩
    | stale _ _ hlive => exact absurd (hlive.symm.trans hstale) Bool.false_ne_true
    | malformed _ _ hlive => exact absurd (hlive.symm.trans hstale) Bool.false_ne_true
    | value _ hlive => exact absurd (hlive.symm.trans hstale) Bool.false_ne_true

def ultrasonic : DeviceInfo := { DeviceInfo.zero with typeId := 62, numModes := 1, flags := 1 }

/-- A read of port D gives out a value, the sensor is detached and attached again, and another read
finds no frame. -/
def reattached : List Event :=
  [.port 3 .begin, .port 3 (.info ultrasonic),
    .port 3 (.push ⟨0, 2, 16 :: List.replicate 31 0⟩), .sensor 0x119 (some 0), .resume 3,
    .resume 0, .resume 0, .resume 0, .resume 0, .port 3 .invalidate,
      .port 3 (.info DeviceInfo.zero),
    .port 3 .reset, .port 3 .begin, .port 3 (.info ultrasonic), .sensor 0x119 (some 0), .resume 0,
    .resume 0]

/-- Before it has taken a frame of it a reader does not see that there is another session. -/
theorem session_change_unseen :
    ¬ ∀ events pre mid mid' post p v x rc v' x',
      noted events = pre ++ .returned p 0 v x ::
        (mid ++ .called p :: (mid' ++ .returned p rc v' x' :: post)) →
      (∀ n ∈ mid ++ mid', ¬ Resets n) → .begun p ∈ mid → rc = -ESTALE := by
  intro hclaim
  let frame : DataFrame := ⟨0, 2, 16 :: List.replicate 31 0⟩
  have hnoted : noted reattached = [.begun 3, .pushed 3 frame, .called 3] ++
      .returned 3 0 16 (some ⟨1, frame, 0⟩) ::
        ([.begun 3] ++ .called 3 :: ([] ++ .returned 3 (-EAGAIN) 0 none :: [])) := rfl
  have hrc := hclaim reattached _ _ _ _ _ _ _ _ _ _ hnoted
    (fun n hn => by rw [mem_singleton.mp hn]; exact not_or.mpr ⟨nofun, nofun⟩)
    (mem_singleton_self _)
  exact absurd hrc (by decide)

end Brickwright.HubProgram.Device
