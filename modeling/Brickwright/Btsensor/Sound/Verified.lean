import Brickwright.Btsensor.Sound.Basic

/-!
# Who closes a beep

Under the lock a beep is closed before the next is opened, so one descriptor at most is open, and
each is stopped and closed once; a disconnect looks at the owner under the same lock. The timer is
stopped before the lock is taken. A beep that is opened in between has its own timer, which may
expire while the next operation has the lock: its callback then closes the beep of that operation
(`sound_of_prompt`), and this is all that can go wrong (`owned_iff_expired`).
-/

namespace Brickwright.Btsensor.Sound

open Modern (Operation)
open Protocol (Link)
open Machine (tally)
open List

/-! ## What a section can do -/

/-- `close_locked`, where `g_io_valid` is set if anything is open. -/
inductive Closes (s : Shared) (cause : Cause) : Shared → List Note → Prop where
  | nothing (h : s.fd < 0) : Closes s cause s []
  | beep (h : 0 ≤ s.fd) : Closes s cause { s with fd := -1 } [.stops s.beep, .closes s.beep cause]

/-- With the lock, between `open` and the start of the timer. -/
def Point.Busy : Point → Prop
  | .writing .. | .starting _ => True
  | _ => False

def Point.Holds : Point → Prop
  | .opening .. | .writing .. | .starting _ => True
  | _ => False

theorem Point.Busy.holds {pc : Point} (h : pc.Busy) : pc.Holds := by
  cases pc <;> trivial

/-- A move that changes nothing but the point. -/
structure Walks (pc pc' : Point) : Prop where
  free : ¬pc.Holds ∧ ¬pc'.Holds
  expired : ∀ beep, pc' ≠ .expired beep

inductive Move (s : Shared) : Point → Shared → List Note → Point → Prop where
  | still (pc : Point) : Move s pc s [] pc
  | walk {pc pc' : Point} (h : Walks pc pc') : Move s pc s [] pc'
  | disarm {job : Job} : Move s (.stoppingTimer job) { s with armed := none } []
      (.awaitingTimer job)
  | fire {beep : Nat} (harmed : s.armed = some beep) (hdispatching : s.dispatching = none) :
      Move s .idle { s with armed := none, dispatching := some beep } [] (.expired beep)
  | stop {link : Link} {operation : Operation} {s' : Shared} {notes : List Note}
      (hfree : s.locked = false) (h : Closes { s with ioValid := true } .operation s' notes) :
      Move s (.locking (.operate link operation)) s' notes .idle
  | lock {link : Link} {operation : Operation} {s' : Shared} {notes : List Note}
      (hfree : s.locked = false) (h : Closes { s with ioValid := true } .operation s' notes) :
      Move s (.locking (.operate link operation)) { s' with locked := true } notes
        (.opening link operation)
  | openFails {link : Link} {operation : Operation} {ret : Int} (h : ret < 0) :
      Move s (.opening link operation) { s with fd := ret, locked := false } [] .idle
  | opens {link : Link} {operation : Operation} {ret : Int} (h : 0 ≤ ret) :
      Move s (.opening link operation) { s with fd := ret, beep := s.beep + 1 }
        [.opens (s.beep + 1) link ret] (.writing link operation)
  | writeFails {link : Link} {operation : Operation} {s' : Shared} {notes : List Note}
      (blob : PcmBlob) (h : Closes s .operation s' notes) :
      Move s (.writing link operation) { s' with locked := false }
        (.writes s.beep blob :: notes) .idle
  | writes {link : Link} {operation : Operation} (blob : PcmBlob) :
      Move s (.writing link operation) { s with owner := link } [.writes s.beep blob]
        (.starting operation)
  | startFails {operation : Operation} {s' : Shared} {notes : List Note}
      (h : Closes s .operation s' notes) :
      Move s (.starting operation) { s' with locked := false } notes .idle
  | starts {operation : Operation} :
      Move s (.starting operation) { s with armed := some s.beep, locked := false } [] .idle
  | shutdown {s' : Shared} {notes : List Note} (hfree : s.locked = false)
      (h : Closes s .shutdown s' notes) : Move s (.locking .shutdown) s' notes .idle
  | disconnect {link : Link} {s' : Shared} {notes : List Note} (hfree : s.locked = false)
      (howner : s.owner = link) (h : Closes s (.disconnect link) s' notes) :
      Move s (.disconnecting link) s' notes .idle
  | expire {beep : Nat} {s' : Shared} {notes : List Note} (hfree : s.locked = false)
      (h : Closes s (.expiry beep) s' notes) :
      Move s (.expired beep) { s' with dispatching := none } notes .idle

section Sections

variable {s : Shared}

theorem closes_close (hvalid : 0 ≤ s.fd → s.ioValid = true) (cause : Cause) :
    Closes s cause (s.close cause).1 (s.close cause).2 := by
  unfold Shared.close
  split
  · next h => exact .nothing (h.elim id fun hnot => Int.not_le.mp fun h0 => hnot (hvalid h0))
  · next h =>
    push Not at h
    exact .beep h.1

theorem move_operate (hvalid : 0 ≤ s.fd → s.ioValid = true) (ret : Int) (pc : Point) :
    Move s pc (operate s ret pc).1 (operate s ret pc).2.1 (operate s ret pc).2.2 := by
  unfold operate
  split
  · split
    · exact .still _
    next hfree =>
      have hfree : s.locked = false := Bool.eq_false_iff.mpr hfree
      have hclose := closes_close (s := { s with ioValid := true }) (fun _ => rfl) .operation
      split
      · exact .stop hfree hclose
      · exact .lock hfree hclose
  · split
    · next h => exact .openFails h
    · next h => exact .opens (Int.not_lt.mp h)
  · dsimp only
    split
    · exact .writeFails _ (closes_close hvalid .operation)
    · exact .writes _
  · split
    · exact .startFails (closes_close hvalid .operation)
    · exact .starts
  · exact .still _

theorem move_locked {pc : Point} {section_ : Shared × List Note}
    (h : s.locked = false → Move s pc section_.1 section_.2 .idle) :
    Move s pc (locked s pc section_).1 (locked s pc section_).2.1 (locked s pc section_).2.2 := by
  unfold locked
  split
  · exact .still _
  · next hfree => exact h (Bool.eq_false_iff.mpr hfree)

/-- **Every section is a move.** -/
theorem move_body (hvalid : 0 ≤ s.fd → s.ioValid = true) (pc : Point) (input : Input) :
    Move s pc (body s pc input).1 (body s pc input).2.1 (body s pc input).2.2 := by
  have hinvalid : ¬s.ioValid = true → s.fd < 0 :=
    fun hnot => Int.not_le.mp fun h0 => hnot (hvalid h0)
  unfold body
  split
  · refine .walk ⟨⟨id, ?_⟩, ?_⟩ <;> split <;> first | exact id | exact nofun
  · exact .walk ⟨⟨id, id⟩, nofun⟩
  · refine .walk ⟨⟨id, ?_⟩, ?_⟩ <;> split <;> first | exact id | exact nofun
  · split
    · next harmed hdispatching => exact .fire harmed hdispatching
    · exact .still _
  · exact .disarm
  · refine .walk ⟨⟨id, ?_⟩, ?_⟩ <;> split <;> first | exact id | exact nofun
  · refine move_locked fun hfree => ?_
    split
    · exact .shutdown hfree (closes_close hvalid .shutdown)
    · next hnot => exact .shutdown hfree (.nothing (hinvalid hnot))
  · refine move_locked fun hfree => ?_
    split
    · next howner => exact .disconnect hfree howner.2 (closes_close hvalid _)
    · exact .walk ⟨⟨id, id⟩, nofun⟩
  · exact move_locked fun hfree => .expire hfree (closes_close hvalid _)
  · exact move_operate hvalid ..
  · exact move_operate hvalid ..
  · exact move_operate hvalid ..
  · exact move_operate hvalid ..
  · exact .still _

variable {pc pc' : Point} {s' : Shared} {notes : List Note} {cause : Cause}

theorem Closes.frame (h : Closes s cause s' notes) :
    s'.fd < 0 ∧ s'.locked = s.locked ∧ s'.owner = s.owner ∧ s'.ioValid = s.ioValid ∧
      s'.beep = s.beep ∧ s'.armed = s.armed ∧ s'.dispatching = s.dispatching := by
  cases h with
  | nothing h => exact ⟨h, rfl, rfl, rfl, rfl, rfl, rfl⟩
  | beep h => exact ⟨Int.negSucc_lt_zero 0, rfl, rfl, rfl, rfl, rfl, rfl⟩

theorem Move.takes_lock (h : Move s pc s' notes pc') (hpc : pc'.Holds) :
    pc.Holds ∨ s.locked = false := by
  cases h with
  | still => exact .inl hpc
  | walk h => exact absurd hpc h.free.2
  | lock hfree => exact .inr hfree
  | opens | writes => exact .inl trivial
  | _ => exact hpc.elim

theorem Move.holds_lock (h : Move s pc s' notes pc') (hlocked : pc.Holds → s.locked = true)
    (hpc : pc'.Holds) : s'.locked = true := by
  cases h with
  | still => exact hlocked hpc
  | walk h => exact absurd hpc h.free.2
  | lock => rfl
  | opens | writes => exact hlocked trivial
  | _ => exact hpc.elim

theorem Move.keeps_lock (h : Move s pc s' notes pc') (hpc : ¬pc.Holds)
    (hlocked : s.locked = true) : s'.locked = true := by
  cases h with
  | stop hfree | shutdown hfree | disconnect hfree | expire hfree =>
    rw [hfree] at hlocked
    cases hlocked
  | lock => rfl
  | openFails | opens | writeFails | writes | startFails | starts => exact absurd trivial hpc
  | _ => exact hlocked

theorem locks (hvalid : 0 ≤ s.fd → s.ioValid = true) :
    threads.Locks Point.Holds (·.locked = true) s where
  takes _ _ hpc := ((move_body hvalid _ _).takes_lock hpc).imp id Bool.eq_false_iff.mp
  holds _ _ hlocked hpc := (move_body hvalid _ _).holds_lock hlocked hpc
  keeps _ _ hpc hlocked := (move_body hvalid _ _).keeps_lock hpc hlocked

end Sections

/-! ## The lock and the callback -/

/-- One operation at a time has the lock, with nothing open before its `open`. One callback at a
time runs. -/
structure Structured (s : Threads.State Shared Point) : Prop where
  locking : Threads.Locking Point.Holds (·.locked = true) s
  valid : 0 ≤ s.shared.fd → s.shared.ioValid = true
  set : ∀ i, (s.pc i).Holds → s.shared.ioValid = true
  opening : ∀ i link operation, s.pc i = .opening link operation → s.shared.fd < 0
  worker : ∀ i beep, s.pc i = .expired beep → s.shared.dispatching = some beep
  one : ∀ i j beep beep', s.pc i = .expired beep → s.pc j = .expired beep' → i = j

theorem structured_boot : Structured boot where
  locking := .start fun _ h => h
  valid h := absurd h (by decide)
  set _ h := h.elim
  opening := nofun
  worker := nofun
  one := nofun

section Sections

variable {s s' : Shared} {pc pc' : Point} {notes : List Note}

/-- What a section does to `g_fd`: it holds the lock, or finds it free and closes. -/
theorem Move.fd_cases (h : Move s pc s' notes pc') :
    (s'.fd = s.fd ∧ ∀ link operation,
      pc' = .opening link operation → pc = .opening link operation) ∨
      (s.locked = false ∧ s'.fd < 0) ∨
      (pc.Holds ∧ ∀ link operation, pc' ≠ .opening link operation) := by
  cases h with
  | stop hfree hclose => exact .inr (.inl ⟨hfree, hclose.frame.1⟩)
  | lock hfree hclose => exact .inr (.inl ⟨hfree, hclose.frame.1⟩)
  | openFails | opens | writeFails | startFails =>
    exact .inr (.inr ⟨trivial, fun _ _ h => by cases h⟩)
  | shutdown hfree hclose => exact .inr (.inl ⟨hfree, hclose.frame.1⟩)
  | disconnect hfree _ hclose => exact .inr (.inl ⟨hfree, hclose.frame.1⟩)
  | expire hfree hclose => exact .inr (.inl ⟨hfree, hclose.frame.1⟩)
  | still => exact .inl ⟨rfl, fun _ _ => id⟩
  | walk h =>
    refine .inl ⟨rfl, fun link operation hpc => ?_⟩
    exact absurd (hpc ▸ trivial) h.free.2
  | _ => exact .inl ⟨rfl, fun _ _ h => by cases h⟩

theorem Move.valid (h : Move s pc s' notes pc') :
    (s.ioValid = true → s'.ioValid = true) ∧ (pc'.Holds → pc.Holds ∨ s'.ioValid = true) := by
  cases h with
  | still => exact ⟨id, .inl⟩
  | walk h => exact ⟨id, fun hpc => absurd hpc h.free.2⟩
  | stop _ hclose => exact ⟨fun _ => hclose.frame.2.2.2.1, False.elim⟩
  | lock _ hclose => exact ⟨fun _ => hclose.frame.2.2.2.1, fun _ => .inr hclose.frame.2.2.2.1⟩
  | opens | writes => exact ⟨id, fun _ => .inl trivial⟩
  | writeFails _ hclose => exact ⟨fun h => hclose.frame.2.2.2.1.trans h, False.elim⟩
  | startFails hclose => exact ⟨fun h => hclose.frame.2.2.2.1.trans h, False.elim⟩
  | shutdown _ hclose => exact ⟨fun h => hclose.frame.2.2.2.1.trans h, False.elim⟩
  | disconnect _ _ hclose => exact ⟨fun h => hclose.frame.2.2.2.1.trans h, False.elim⟩
  | expire _ hclose => exact ⟨fun h => hclose.frame.2.2.2.1.trans h, False.elim⟩
  | _ => exact ⟨id, False.elim⟩

theorem Move.worker_cases (h : Move s pc s' notes pc') :
    (s'.dispatching = s.dispatching ∧ ∀ beep, pc' = .expired beep → pc = .expired beep) ∨
    (∃ beep, s.dispatching = none ∧ s.armed = some beep ∧ s'.dispatching = some beep ∧
      s'.fd = s.fd ∧ s'.beep = s.beep ∧ pc' = .expired beep) ∨
    (∃ beep, pc = .expired beep ∧ s'.dispatching = none ∧ pc' = .idle) := by
  cases h with
  | still => exact .inl ⟨rfl, fun _ => id⟩
  | walk h => exact .inl ⟨rfl, fun beep hpc => absurd hpc (h.expired beep)⟩
  | fire harmed hdispatching =>
    exact .inr (.inl ⟨_, hdispatching, harmed, rfl, rfl, rfl, rfl⟩)
  | stop _ hclose => exact .inl ⟨hclose.frame.2.2.2.2.2.2, nofun⟩
  | lock _ hclose => exact .inl ⟨hclose.frame.2.2.2.2.2.2, nofun⟩
  | writeFails _ hclose => exact .inl ⟨hclose.frame.2.2.2.2.2.2, nofun⟩
  | startFails hclose => exact .inl ⟨hclose.frame.2.2.2.2.2.2, nofun⟩
  | shutdown _ hclose => exact .inl ⟨hclose.frame.2.2.2.2.2.2, nofun⟩
  | disconnect _ _ hclose => exact .inl ⟨hclose.frame.2.2.2.2.2.2, nofun⟩
  | expire => exact .inr (.inr ⟨_, rfl, rfl, rfl⟩)
  | _ => exact .inl ⟨rfl, nofun⟩

end Sections

theorem step_move {s : Threads.State Shared Point}
    (hvalid : 0 ≤ s.shared.fd → s.shared.ioValid = true) (i : Nat) (input : Input) :
    Move s.shared (s.pc i) (threads.step s i input).shared (body s.shared (s.pc i) input).2.1
      ((threads.step s i input).pc i) := by
  rw [threads.step_pc_self]
  exact move_body hvalid (s.pc i) input

theorem Structured.move {s s' : Threads.State Shared Point} {i : Nat} {notes : List Note}
    (h : Structured s) (hlocking : Threads.Locking Point.Holds (·.locked = true) s')
    (hmove : Move s.shared (s.pc i) s'.shared notes (s'.pc i))
    (hother : ∀ j, j ≠ i → s'.pc j = s.pc j) : Structured s' := by
  obtain ⟨hmono, hset⟩ := hmove.valid
  refine ⟨hlocking, fun h0 => ?_, fun j hj => ?_, fun j link operation hj => ?_,
    fun j beep hj => ?_, fun j k beep beep' hj hk => ?_⟩
  · rcases hmove.fd_cases with ⟨hfd, -⟩ | ⟨-, hneg⟩ | ⟨hholds, -⟩
    · exact hmono (h.valid (hfd ▸ h0))
    · exact absurd hneg (Int.not_lt.mpr h0)
    · exact hmono (h.set i hholds)
  · rcases eq_or_ne j i with rfl | hji
    · exact (hset hj).elim (fun hold => hmono (h.set j hold)) id
    · exact hmono (h.set j (hother j hji ▸ hj))
  · rcases hmove.fd_cases with ⟨hfd, hstay⟩ | ⟨-, hneg⟩ | ⟨hholds, hnot⟩
    · rw [hfd]
      rcases eq_or_ne j i with rfl | hji
      · exact h.opening j link operation (hstay link operation hj)
      · exact h.opening j link operation (hother j hji ▸ hj)
    · exact hneg
    · rcases eq_or_ne j i with rfl | hji
      · exact absurd hj (hnot link operation)
      · rw [hother j hji] at hj
        exact absurd (hj ▸ trivial) (h.locking.not_holds hholds hji)
  · rcases hmove.worker_cases with ⟨hsame, hstay⟩ | ⟨b, hnone, -, hnew, -, -, hpc⟩ |
        ⟨b, hpc, -, hidle⟩
    · rw [hsame]
      rcases eq_or_ne j i with rfl | hji
      · exact h.worker j beep (hstay beep hj)
      · exact h.worker j beep (hother j hji ▸ hj)
    · rcases eq_or_ne j i with rfl | hji
      · cases hpc.symm.trans hj
        exact hnew
      · have hrunning := h.worker j beep (hother j hji ▸ hj)
        rw [hnone] at hrunning
        cases hrunning
    · rcases eq_or_ne j i with rfl | hji
      · cases hidle.symm.trans hj
      · exact absurd (h.one j i beep b (hother j hji ▸ hj) hpc) hji
  · -- a thread that was in the callback before, or the one that has come to it
    have hcases : ∀ {l b}, s'.pc l = .expired b → s.pc l = .expired b ∨
        l = i ∧ s.shared.dispatching = none := by
      intro l b hl
      rcases eq_or_ne l i with rfl | hli
      · rcases hmove.worker_cases with ⟨-, hstay⟩ | ⟨_, hnone, -⟩ | ⟨_, -, -, hidle⟩
        · exact .inl (hstay b hl)
        · exact .inr ⟨rfl, hnone⟩
        · cases hidle.symm.trans hl
      · exact .inl (hother l hli ▸ hl)
    rcases hcases hj with hj | ⟨rfl, hnone⟩
    · rcases hcases hk with hk | ⟨rfl, hnone⟩
      · exact h.one j k beep beep' hj hk
      · rw [h.worker j beep hj] at hnone
        cases hnone
    · rcases hcases hk with hk | ⟨rfl, -⟩
      · rw [h.worker k beep' hk] at hnone
        cases hnone
      · rfl

/-- **Every section keeps the structure.** -/
theorem Structured.step {s : Threads.State Shared Point} (h : Structured s) (i : Nat)
    (input : Input) : Structured (threads.step s i input) :=
  h.move (h.locking.step (locks h.valid) i input) (step_move h.valid i input)
    fun _ hji => Threads.step_pc_of_ne hji input

/-! ## The beeps of a run -/

def Opened (h : List (Nat × Note)) (n : Nat) : Prop := ∃ i link fd, (i, .opens n link fd) ∈ h

def closesOf (n : Nat) : Nat × Note → Nat
  | (_, .closes m _) => if m = n then 1 else 0
  | _ => 0

def closings (h : List (Nat × Note)) (n : Nat) : Nat := tally (closesOf n) h

structure Owned (h : List (Nat × Note)) (s : Threads.State Shared Point) : Prop where
  /-- One descriptor at most is open. -/
  one : ∀ m n, Opened h m → closings h m = 0 → Opened h n → closings h n = 0 → m = n
  /-- It is the one in `g_fd`, and every other has been closed once. -/
  once : ∀ n, Opened h n → closings h n = if n = s.shared.beep ∧ 0 ≤ s.shared.fd then 0 else 1
  stopped : ∀ pre i n cause post, h = pre ++ (i, .closes n cause) :: post →
    ∃ pre', pre = pre' ++ [(i, .stops n)]
  disconnected : ∀ i n link, (i, .closes n (.disconnect link)) ∈ h →
    ∃ j fd, (j, .opens n link fd) ∈ h
  expired : ∀ i n beep, (i, .closes n (.expiry beep)) ∈ h → n = beep

/-- The timer of a beep is started while the callback for an earlier one runs, that is, waits for
the lock. -/
def Late (s : Threads.State Shared Point) (e : Nat × Input) : Prop :=
  match s.pc e.1, e.2 with
  | .starting _, .go ret => 0 ≤ ret ∧ s.shared.dispatching ≠ none
  | _, _ => False

instance (s : Threads.State Shared Point) (e : Nat × Input) : Decidable (Late s e) := by
  unfold Late
  split <;> infer_instance

def Prompt (s : Threads.State Shared Point) (e : Nat × Input) : Prop := ¬Late s e

instance (s : Threads.State Shared Point) (e : Nat × Input) : Decidable (Prompt s e) :=
  inferInstanceAs (Decidable (¬_))

structure Book (h : List (Nat × Note)) (s : Threads.State Shared Point) : Prop where
  opened : ∀ n, Opened h n → 1 ≤ n ∧ n ≤ s.shared.beep
  first : 0 ≤ s.shared.fd → 1 ≤ s.shared.beep
  closed : ∀ n, closings h n =
    if 1 ≤ n ∧ n ≤ s.shared.beep ∧ ¬(n = s.shared.beep ∧ 0 ≤ s.shared.fd) then 1 else 0
  writing : ∀ i link operation, s.pc i = .writing link operation →
    ∃ j fd, (j, .opens s.shared.beep link fd) ∈ h
  owner : 0 ≤ s.shared.fd → (∀ i link operation, s.pc i ≠ .writing link operation) →
    ∃ j fd, (j, .opens s.shared.beep s.shared.owner fd) ∈ h
  disconnected : ∀ i n link, (i, .closes n (.disconnect link)) ∈ h →
    ∃ j fd, (j, .opens n link fd) ∈ h

/-- The timer, and the callback, are those of the beep that is open. -/
structure Timed (h : List (Nat × Note)) (s : Threads.State Shared Point) : Prop where
  timer : (∀ i, ¬(s.pc i).Busy) → 0 ≤ s.shared.fd → ∀ beep,
    s.shared.armed = some beep ∨ s.shared.dispatching = some beep → beep = s.shared.beep
  expired : ∀ i n beep, (i, .closes n (.expiry beep)) ∈ h → n = beep

section Sections

variable {s s' : Shared} {pc pc' : Point} {notes : List Note}

/-- What a section does to a beep: nothing, it closes the one that is open, or it opens the next. -/
inductive Change (s : Shared) (pc : Point) (s' : Shared) (notes : List Note)
    (pc' : Point) : Prop where
  | none (hbeep : s'.beep = s.beep) (hfd : 0 ≤ s'.fd ↔ 0 ≤ s.fd)
      (hnotes : ∀ n ∈ notes, ∃ beep blob, n = .writes beep blob)
  | closes {before : List Note} {cause : Cause} (h0 : 0 ≤ s.fd) (hfd : s'.fd < 0)
      (hbeep : s'.beep = s.beep) (hnotes : notes = before ++ [.stops s.beep, .closes s.beep cause])
      (hbefore : ∀ n ∈ before, ∃ beep blob, n = .writes beep blob)
      (hdisconnect : ∀ link, cause = .disconnect link → s.locked = false ∧ s.owner = link)
      (hexpiry : ∀ beep, cause = .expiry beep → s.locked = false ∧ pc = .expired beep)
  | opens {link : Link} {operation : Operation} {ret : Int} (hpc : pc = .opening link operation)
      (hret : 0 ≤ ret) (hfd : s'.fd = ret) (hbeep : s'.beep = s.beep + 1)
      (hnotes : notes = [.opens (s.beep + 1) link ret]) (hpc' : pc' = .writing link operation)

theorem Closes.change {t : Shared} {cause : Cause} {closed : Shared} (before : List Note)
    (h : Closes t cause closed notes) (ht : t.fd = s.fd ∧ t.beep = s.beep)
    (hs' : s'.fd = closed.fd ∧ s'.beep = closed.beep)
    (hbefore : ∀ n ∈ before, ∃ beep blob, n = .writes beep blob)
    (hdisconnect : ∀ link, cause = .disconnect link → s.locked = false ∧ s.owner = link)
    (hexpiry : ∀ beep, cause = .expiry beep → s.locked = false ∧ pc = .expired beep) :
    Change s pc s' (before ++ notes) pc' := by
  obtain ⟨hfd, hbeep⟩ := ht
  obtain ⟨hfd', hbeep'⟩ := hs'
  cases h with
  | nothing h =>
    rw [append_nil]
    exact .none (hbeep'.trans hbeep) (by rw [hfd', hfd]) hbefore
  | beep h =>
    refine .closes (hfd ▸ h) ?_ (hbeep'.trans hbeep) (by rw [hbeep]) hbefore hdisconnect hexpiry
    rw [hfd']
    exact Int.negSucc_lt_zero 0

theorem Move.beep (h : Move s pc s' notes pc')
    (hopening : ∀ link operation, pc = .opening link operation → s.fd < 0) :
    Change s pc s' notes pc' := by
  cases h with
  | stop _ hclose | lock _ hclose | startFails hclose | shutdown _ hclose =>
    exact hclose.change [] ⟨rfl, rfl⟩ ⟨rfl, rfl⟩ nofun nofun nofun
  | openFails hret =>
    exact .none rfl (iff_of_false (Int.not_le.mpr hret) (Int.not_le.mpr (hopening _ _ rfl))) nofun
  | opens hret => exact .opens rfl hret rfl rfl rfl rfl
  | writeFails blob hclose =>
    refine hclose.change [_] ⟨rfl, rfl⟩ ⟨rfl, rfl⟩ (fun n hn => ?_) nofun nofun
    exact ⟨_, _, mem_singleton.mp hn⟩
  | writes blob => exact .none rfl Iff.rfl fun n hn => ⟨_, _, mem_singleton.mp hn⟩
  | disconnect hfree howner hclose =>
    refine hclose.change [] ⟨rfl, rfl⟩ ⟨rfl, rfl⟩ nofun (fun link hlink => ?_) nofun
    cases hlink
    exact ⟨hfree, howner⟩
  | expire hfree hclose =>
    refine hclose.change [] ⟨rfl, rfl⟩ ⟨rfl, rfl⟩ nofun nofun fun beep hbeep => ?_
    cases hbeep
    exact ⟨hfree, rfl⟩
  | _ => exact .none rfl Iff.rfl nofun

theorem Move.owner_cases (h : Move s pc s' notes pc') :
    (s'.owner = s.owner ∧
      ∀ link operation, pc = .writing link operation → pc' = pc ∨ s'.fd < 0) ∨
    ∃ link operation, pc = .writing link operation ∧ s'.owner = link ∧ s'.fd = s.fd ∧
      s'.beep = s.beep ∧ ∀ l o, pc' ≠ .writing l o := by
  cases h with
  | still => exact .inl ⟨rfl, fun _ _ _ => .inl rfl⟩
  | walk h =>
    refine .inl ⟨rfl, fun link operation hpc => ?_⟩
    exact absurd (hpc ▸ trivial) h.free.1
  | stop _ hclose => exact .inl ⟨hclose.frame.2.2.1, fun _ _ h => by cases h⟩
  | lock _ hclose => exact .inl ⟨hclose.frame.2.2.1, fun _ _ h => by cases h⟩
  | writeFails _ hclose => exact .inl ⟨hclose.frame.2.2.1, fun _ _ _ => .inr hclose.frame.1⟩
  | writes => exact .inr ⟨_, _, rfl, rfl, rfl, rfl, fun _ _ h => by cases h⟩
  | startFails hclose => exact .inl ⟨hclose.frame.2.2.1, fun _ _ h => by cases h⟩
  | shutdown _ hclose => exact .inl ⟨hclose.frame.2.2.1, fun _ _ h => by cases h⟩
  | disconnect _ _ hclose => exact .inl ⟨hclose.frame.2.2.1, fun _ _ h => by cases h⟩
  | expire _ hclose => exact .inl ⟨hclose.frame.2.2.1, fun _ _ h => by cases h⟩
  | _ => exact .inl ⟨rfl, fun _ _ h => by cases h⟩

theorem Move.writing (h : Move s pc s' notes pc') {link : Link} {operation : Operation}
    (hpc : pc' = .writing link operation) :
    pc = .writing link operation ∧ s'.beep = s.beep ∨
      s'.beep = s.beep + 1 ∧ ∃ ret, .opens (s.beep + 1) link ret ∈ notes := by
  cases h with
  | still => exact .inl ⟨hpc, rfl⟩
  | walk h => exact absurd (hpc ▸ trivial) h.free.2
  | opens =>
    cases hpc
    exact .inr ⟨rfl, _, mem_singleton_self _⟩
  | _ => cases hpc

/-- The timer and the callback, where a beep is open and no operation is under way. -/
theorem Move.timer_cases (h : Move s pc s' notes pc') (hpc : ¬pc'.Busy) (h0 : 0 ≤ s'.fd) :
    (¬pc.Busy ∧ 0 ≤ s.fd ∧ s'.beep = s.beep ∧ (∀ a, s'.armed = some a → s.armed = some a) ∧
      ∀ a, s'.dispatching = some a → s.dispatching = some a ∨ s.armed = some a) ∨
    ∃ operation, pc = .starting operation ∧ s'.beep = s.beep ∧ s'.armed = some s.beep ∧
      s'.dispatching = s.dispatching := by
  cases h with
  | still => exact .inl ⟨hpc, h0, rfl, fun _ => id, fun _ => .inl⟩
  | walk h =>
    exact .inl ⟨fun hbusy => h.free.1 hbusy.holds, h0, rfl, fun _ => id, fun _ => .inl⟩
  | disarm => exact .inl ⟨id, h0, rfl, nofun, fun _ => .inl⟩
  | fire harmed =>
    refine .inl ⟨id, h0, rfl, nofun, fun a ha => ?_⟩
    cases ha
    exact .inr harmed
  | openFails hret => exact absurd hret (Int.not_lt.mpr h0)
  | opens | writes => exact absurd trivial hpc
  | starts => exact .inr ⟨_, rfl, rfl, rfl, rfl⟩
  | stop _ hclose => exact absurd hclose.frame.1 (Int.not_lt.mpr h0)
  | lock _ hclose => exact absurd hclose.frame.1 (Int.not_lt.mpr h0)
  | writeFails _ hclose => exact absurd hclose.frame.1 (Int.not_lt.mpr h0)
  | startFails hclose => exact absurd hclose.frame.1 (Int.not_lt.mpr h0)
  | shutdown _ hclose => exact absurd hclose.frame.1 (Int.not_lt.mpr h0)
  | disconnect _ _ hclose => exact absurd hclose.frame.1 (Int.not_lt.mpr h0)
  | expire _ hclose => exact absurd hclose.frame.1 (Int.not_lt.mpr h0)

end Sections

section Notes

variable {h : List (Nat × Note)} {notes : List Note} {i n : Nat}

theorem mem_append_notes {j : Nat} {note : Note} :
    (j, note) ∈ h ++ notes.map (Prod.mk i) ↔ (j, note) ∈ h ∨ j = i ∧ note ∈ notes := by
  rw [mem_append, mem_map]
  constructor
  · rintro (hold | ⟨m, hm, heq⟩)
    · exact .inl hold
    · cases heq
      exact .inr ⟨rfl, hm⟩
  · rintro (hold | ⟨rfl, hm⟩)
    · exact .inl hold
    · exact .inr ⟨note, hm, rfl⟩

theorem closings_append :
    closings (h ++ notes.map (Prod.mk i)) n =
      closings h n + tally (closesOf n) (notes.map (Prod.mk i)) :=
  Machine.tally_append ..

theorem closings_of_writes (hnotes : ∀ m ∈ notes, ∃ beep blob, m = .writes beep blob) :
    tally (closesOf n) (notes.map (Prod.mk i)) = 0 := by
  rw [Machine.tally_eq_zero]
  intro m hm
  obtain ⟨note, hnote, rfl⟩ := mem_map.mp hm
  obtain ⟨beep, blob, rfl⟩ := hnotes note hnote
  rfl

theorem closings_of_close {beep : Nat} {cause : Cause}
    (hnotes : ∀ m ∈ notes, ∃ beep blob, m = .writes beep blob) :
    tally (closesOf n) ((notes ++ [Note.stops beep, Note.closes beep cause]).map (Prod.mk i)) =
      if beep = n then 1 else 0 := by
  rw [map_append, Machine.tally_append, closings_of_writes hnotes]
  simp [closesOf]

end Notes

section Steps

variable {h : List (Nat × Note)} {s s' : Threads.State Shared Point} {i : Nat} {notes : List Note}

theorem Structured.not_holds_of_free (hs : Structured s)
    (hfree : s.shared.locked = false) (j : Nat) :
    ¬(s.pc j).Holds := by
  intro hj
  have hlocked := hs.locking.locked j hj
  rw [hfree] at hlocked
  cases hlocked

theorem opened_append {n : Nat} (hn : Opened (h ++ notes.map (Prod.mk i)) n) :
    Opened h n ∨ ∃ link fd, .opens n link fd ∈ notes := by
  obtain ⟨j, link, fd, hmem⟩ := hn
  exact (mem_append_notes.mp hmem).imp (fun hold => ⟨j, link, fd, hold⟩)
    fun hnew => ⟨link, fd, hnew.2⟩

theorem Book.closed_move (hb : Book h s)
    (hchange : Change s.shared (s.pc i) s'.shared notes (s'.pc i))
    (hopening : ∀ link operation, s.pc i = .opening link operation → s.shared.fd < 0) (n : Nat) :
    closings (h ++ notes.map (Prod.mk i)) n =
      if 1 ≤ n ∧ n ≤ s'.shared.beep ∧ ¬(n = s'.shared.beep ∧ 0 ≤ s'.shared.fd) then 1 else 0 := by
  rw [closings_append, hb.closed n]
  cases hchange with
  | none hbeep hfd hnotes =>
    rw [closings_of_writes hnotes, hbeep]
    simp only [hfd]
    rfl
  | closes h0 hfd hbeep hnotes hbefore =>
    have hfirst := hb.first h0
    rw [hnotes, closings_of_close hbefore, hbeep]
    split_ifs <;> omega
  | opens hpc hret hfd hbeep hnotes =>
    have hbefore := hopening _ _ hpc
    have hzero : tally (closesOf n) (notes.map (Prod.mk i)) = 0 := by
      rw [hnotes]
      rfl
    split_ifs <;> omega

/-- **The book of one section.** -/
theorem Book.move (hb : Book h s) (hs : Structured s)
    (hmove : Move s.shared (s.pc i) s'.shared notes (s'.pc i))
    (hother : ∀ j, j ≠ i → s'.pc j = s.pc j) : Book (h ++ notes.map (Prod.mk i)) s' := by
  have hchange := hmove.beep (hs.opening i)
  refine ⟨fun n hn => ?_, fun h0 => ?_, hb.closed_move hchange (hs.opening i),
    fun j link operation hj => ?_, fun h0 hnone => ?_, fun j n link hn => ?_⟩
  · have hold : Opened h n → 1 ≤ n ∧ n ≤ s.shared.beep := hb.opened n
    cases hchange with
    | none hbeep _ hnotes =>
      rcases opened_append hn with hn | ⟨link, fd, hmem⟩
      · rw [hbeep]
        exact hold hn
      · obtain ⟨_, _, heq⟩ := hnotes _ hmem
        cases heq
    | closes _ _ hbeep hnotes hbefore =>
      rcases opened_append hn with hn | ⟨link, fd, hmem⟩
      · rw [hbeep]
        exact hold hn
      · rw [hnotes] at hmem
        rcases mem_append.mp hmem with hmem | hmem
        · obtain ⟨_, _, heq⟩ := hbefore _ hmem
          cases heq
        · simp at hmem
    | opens _ _ _ hbeep hnotes =>
      rcases opened_append hn with hn | ⟨link, fd, hmem⟩
      · have := hold hn
        omega
      · rw [hnotes] at hmem
        cases mem_singleton.mp hmem
        omega
  · cases hchange with
    | none hbeep hfd =>
      rw [hbeep]
      exact hb.first (hfd.mp h0)
    | closes _ hfd => exact absurd hfd (Int.not_lt.mpr h0)
    | opens _ _ _ hbeep =>
      rw [hbeep]
      exact Nat.succ_pos _
  · rcases eq_or_ne j i with rfl | hji
    · rcases hmove.writing hj with ⟨hpc, hbeep⟩ | ⟨hbeep, ret, hmem⟩
      · obtain ⟨k, fd, hopens⟩ := hb.writing j link operation hpc
        rw [hbeep]
        exact ⟨k, fd, mem_append_left _ hopens⟩
      · rw [hbeep]
        exact ⟨j, ret, mem_append_notes.mpr (.inr ⟨rfl, hmem⟩)⟩
    · rw [hother j hji] at hj
      obtain ⟨k, fd, hopens⟩ := hb.writing j link operation hj
      have hbeep : s'.shared.beep = s.shared.beep := by
        cases hchange with
        | none hbeep => exact hbeep
        | closes _ _ hbeep => exact hbeep
        -- the section that opens holds the lock, so nobody else writes the owner
        | opens hpc =>
          have hi : (s.pc i).Holds := hpc ▸ trivial
          exact absurd (hj ▸ trivial) (hs.locking.not_holds hi hji)
      rw [hbeep]
      exact ⟨k, fd, mem_append_left _ hopens⟩
  · rcases hmove.owner_cases with ⟨howner, hstay⟩ | ⟨link, operation, hpc, howner, -, hbeep, -⟩
    · cases hchange with
      | none hbeep hfd =>
        rw [howner, hbeep]
        obtain ⟨k, fd, hopens⟩ := hb.owner (hfd.mp h0) fun j link operation hj => by
          rcases eq_or_ne j i with rfl | hji
          · rcases hstay link operation hj with hsame | hneg
            · exact hnone j link operation (hsame.trans hj)
            · exact absurd hneg (Int.not_lt.mpr h0)
          · exact hnone j link operation ((hother j hji).trans hj)
        exact ⟨k, fd, mem_append_left _ hopens⟩
      | closes _ hfd => exact absurd hfd (Int.not_lt.mpr h0)
      | opens _ _ _ _ _ hpc' => exact absurd hpc' (hnone i _ _)
    · obtain ⟨k, fd, hopens⟩ := hb.writing i link operation hpc
      rw [howner, hbeep]
      exact ⟨k, fd, mem_append_left _ hopens⟩
  · rcases mem_append_notes.mp hn with hold | ⟨rfl, hnew⟩
    · obtain ⟨k, fd, hopens⟩ := hb.disconnected j n link hold
      exact ⟨k, fd, mem_append_left _ hopens⟩
    · cases hchange with
      | none _ _ hnotes =>
        obtain ⟨_, _, heq⟩ := hnotes _ hnew
        cases heq
      | @closes before cause h0 _ _ hnotes hbefore hdisconnect =>
        rw [hnotes] at hnew
        rcases mem_append.mp hnew with hnew | hnew
        · obtain ⟨_, _, heq⟩ := hbefore _ hnew
          cases heq
        · have heq : n = s.shared.beep ∧ Cause.disconnect link = cause := by simpa using hnew
          obtain ⟨rfl, hcause⟩ := heq
          obtain ⟨hfree, rfl⟩ := hdisconnect link hcause.symm
          obtain ⟨k, fd, hopens⟩ := hb.owner h0 fun l link' operation hl =>
            hs.not_holds_of_free hfree l (hl ▸ trivial)
          exact ⟨k, fd, mem_append_left _ hopens⟩
      | opens _ _ _ _ hnotes =>
        rw [hnotes] at hnew
        cases mem_singleton.mp hnew

/-- **The timer of one section.** -/
theorem Timed.move (ht : Timed h s) (hs : Structured s)
    (hmove : Move s.shared (s.pc i) s'.shared notes (s'.pc i))
    (hother : ∀ j, j ≠ i → s'.pc j = s.pc j)
    (hprompt : ∀ operation, s.pc i = .starting operation → ¬(s'.pc i).Busy → 0 ≤ s'.shared.fd →
      s.shared.dispatching = none) : Timed (h ++ notes.map (Prod.mk i)) s' := by
  refine ⟨fun hidle h0 beep hbeep => ?_, fun j n beep hn => ?_⟩
  · rcases hmove.timer_cases (hidle i) h0 with ⟨hpc, h0', hsame, harmed, hdispatching⟩ |
      ⟨operation, hpc, hsame, harmed, hdispatching⟩
    · rw [hsame]
      refine ht.timer (fun j => ?_) h0' beep ?_
      · rcases eq_or_ne j i with rfl | hji
        · exact hpc
        · exact hother j hji ▸ hidle j
      · exact hbeep.elim (fun ha => .inl (harmed beep ha)) fun hd => (hdispatching beep hd).symm
    · rw [hsame]
      rcases hbeep with ha | hd
      · rw [harmed] at ha
        cases ha
        rfl
      · rw [hdispatching, hprompt operation hpc (hidle i) h0] at hd
        cases hd
  · rcases mem_append_notes.mp hn with hold | ⟨rfl, hnew⟩
    · exact ht.expired j n beep hold
    · cases hmove.beep (hs.opening j) with
      | none _ _ hnotes =>
        obtain ⟨_, _, heq⟩ := hnotes _ hnew
        cases heq
      | @closes before cause h0 _ _ hnotes hbefore _ hexpiry =>
        rw [hnotes] at hnew
        rcases mem_append.mp hnew with hnew | hnew
        · obtain ⟨_, _, heq⟩ := hbefore _ hnew
          cases heq
        · have heq : n = s.shared.beep ∧ Cause.expiry beep = cause := by simpa using hnew
          obtain ⟨rfl, hcause⟩ := heq
          obtain ⟨hfree, hpc⟩ := hexpiry beep hcause.symm
          exact (ht.timer (fun l hl => hs.not_holds_of_free hfree l hl.holds) h0 beep
            (.inr (hs.worker j beep hpc))).symm
      | opens _ _ _ _ hnotes =>
        rw [hnotes] at hnew
        cases mem_singleton.mp hnew

end Steps

/-! ## Whole runs -/

structure Kept (h : List (Nat × Note)) (s : Threads.State Shared Point) : Prop where
  structured : Structured s
  book : Book h s

theorem kept_boot : Kept [] boot where
  structured := structured_boot
  book := {
    opened := fun _ ⟨_, _, _, hmem⟩ => nomatch hmem
    first := fun h => absurd h (by decide)
    closed := fun n => (if_neg fun h => Nat.not_succ_le_zero 0 (Nat.le_trans h.1 h.2.1)).symm
    writing := nofun
    owner := fun h => absurd h (by decide)
    disconnected := nofun }

theorem starting_cases {s : Shared} {operation : Operation} {input : Input}
    (hidle : ¬(body s (.starting operation) input).2.2.Busy)
    (h0 : 0 ≤ (body s (.starting operation) input).1.fd)
    (hvalid : 0 ≤ s.fd → s.ioValid = true) : ∃ ret, input = .go ret ∧ 0 ≤ ret := by
  cases input with
  | go ret =>
    refine ⟨ret, rfl, Int.not_lt.mp fun hret => ?_⟩
    have hfails : (body s (.starting operation) (.go ret)).1.fd = (s.close .operation).1.fd := by
      show (operate s ret (.starting operation)).1.fd = _
      rw [operate, if_pos hret]
      rfl
    rw [hfails] at h0
    exact absurd (closes_close hvalid .operation).frame.1 (Int.not_lt.mpr h0)
  | operate | linkState | shutdown | expire => exact absurd trivial hidle

/-- **One section of a run.** -/
theorem Kept.step {h : List (Nat × Note)} {s : Threads.State Shared Point} (hk : Kept h s) (i : Nat)
    (input : Input) : Kept (h ++ threads.notes s i input) (threads.step s i input) :=
  ⟨hk.structured.step i input, hk.book.move hk.structured (step_move hk.structured.valid i input)
    fun _ hji => Threads.step_pc_of_ne hji input⟩

theorem kept_run (events : List (Nat × Input)) :
    Kept (threads.history boot events) (threads.machine.run boot events) :=
  threads.history_invariant (fun _ _ i input hk => hk.step i input) kept_boot events

/-- **One section of a prompt run.** -/
theorem Timed.step {h : List (Nat × Note)} {s : Threads.State Shared Point} (ht : Timed h s)
    (hs : Structured s) (i : Nat) (input : Input) (hprompt : Prompt s (i, input)) :
    Timed (h ++ threads.notes s i input) (threads.step s i input) := by
  refine ht.move hs (step_move hs.valid i input) (fun _ hji => Threads.step_pc_of_ne hji input)
    fun operation hpc hidle h0 => ?_
  by_contra hrunning
  rw [threads.step_pc_self, hpc] at hidle
  have h0' : 0 ≤ (body s.shared (.starting operation) input).1.fd := hpc ▸ h0
  obtain ⟨ret, rfl, hret⟩ := starting_cases hidle h0' hs.valid
  apply hprompt
  unfold Late
  rw [hpc]
  exact ⟨hret, hrunning⟩

theorem stops_of_closes {s : Shared} {pc pc' : Point} {s' : Shared}
    {notes l r : List Note} {n : Nat}
    {cause : Cause} (h : Change s pc s' notes pc') (hsplit : notes = l ++ .closes n cause :: r) :
    ∃ l', l = l' ++ [.stops n] := by
  have hmem : .closes n cause ∈ notes := by
    rw [hsplit]
    exact mem_append_right _ mem_cons_self
  cases h with
  | none _ _ hnotes =>
    obtain ⟨_, _, heq⟩ := hnotes _ hmem
    cases heq
  | @closes before cause' _ _ _ hnotes hbefore =>
    rw [hnotes, ← singleton_append, ← append_assoc] at hsplit
    rcases eq_nil_or_concat r with rfl | ⟨r', m, rfl⟩
    · obtain ⟨hl, hlast⟩ := append_inj' hsplit rfl
      cases hlast
      exact ⟨before, hl.symm⟩
    · -- the close is the last note of the section
      rw [concat_eq_append, ← cons_append, ← append_assoc] at hsplit
      obtain ⟨hinit, -⟩ := append_inj' hsplit rfl
      have hearly : Note.closes n cause ∈ before ++ [.stops s.beep] := by
        rw [hinit]
        exact mem_append_right _ mem_cons_self
      rcases mem_append.mp hearly with hw | hs
      · obtain ⟨_, _, heq⟩ := hbefore _ hw
        cases heq
      · cases mem_singleton.mp hs
  | opens _ _ _ _ hnotes =>
    rw [hnotes] at hmem
    cases mem_singleton.mp hmem

/-- **Who closes a beep, in every run**: only the timer can take one for another. -/
theorem owned_iff_expired (events : List (Nat × Input)) :
    Owned (threads.history boot events) (threads.machine.run boot events) ↔
      ∀ i n beep, (i, .closes n (.expiry beep)) ∈ threads.history boot events → n = beep := by
  refine ⟨Owned.expired, fun hexpired => ?_⟩
  have hbook := (kept_run events).book
  have honce : ∀ n, Opened (threads.history boot events) n →
      closings (threads.history boot events) n =
        if n = (threads.machine.run boot events).shared.beep ∧
          0 ≤ (threads.machine.run boot events).shared.fd then 0 else 1 := by
    intro n hn
    have hrange := hbook.opened n hn
    rw [hbook.closed n]
    split_ifs <;> omega
  refine ⟨fun m n hm hm0 hn hn0 => ?_, honce, fun pre i n cause post hsplit => ?_,
    hbook.disconnected, hexpired⟩
  · rw [honce m hm] at hm0
    rw [honce n hn] at hn0
    split_ifs at hm0 hn0 with h1 h2
    exact h1.1.trans h2.1.symm
  · obtain ⟨before, ⟨j, input⟩, after, l, r, rfl, hnotes, rfl, -⟩ :=
      threads.exists_step_of_history hsplit
    have hs := (kept_run before).structured
    have hchange := (move_body hs.valid _ input).beep (hs.opening j)
    obtain ⟨l', r', hbody, hl, hr⟩ := map_eq_append_iff.mp hnotes
    obtain ⟨m, r'', rfl, hm, -⟩ := map_eq_cons_iff.mp hr
    cases hm
    obtain ⟨l'', rfl⟩ := stops_of_closes hchange hbody
    refine ⟨threads.history boot before ++ l''.map (Prod.mk j), ?_⟩
    rw [← hl, map_append, ← append_assoc]
    rfl

/-- **Who closes a beep, in a prompt run.** -/
theorem sound_of_prompt {events : List (Nat × Input)}
    (hall : threads.machine.Throughout Prompt boot events) :
    Owned (threads.history boot events) (threads.machine.run boot events) := by
  have hstep : ∀ h s i input, Structured s ∧ Timed h s → Prompt s (i, input) →
      Structured (threads.step s i input) ∧
        Timed (h ++ threads.notes s i input) (threads.step s i input) :=
    fun _ _ i input h hp => ⟨h.1.step i input, h.2.step h.1 i input hp⟩
  have htimed := threads.history_invariant_of hstep (h := [])
    ⟨structured_boot, fun _ h => absurd h (by decide), nofun⟩ events hall
  exact (owned_iff_expired events).mpr htimed.2.expired

/-- A beep of 10 kHz, for one millisecond. -/
def beepOperation : Operation := { kind := .soundBeep, frequencyHz := 10000, durationMs := 1 }

/-- The sections of an operation from its look at the callback on, where every call succeeds. -/
def beepSections (i : Nat) : List (Nat × Input) :=
  [(i, .go 0), (i, .go 3), (i, .go (buildSquare 10000).length), (i, .go 0)]

/-- A beep, and the expiry of its timer. -/
theorem sound_of_prompt_sample :
    Owned (threads.history boot ([(0, .operate .classic beepOperation), (0, .go 0), (0, .go 0)] ++
        beepSections 0 ++ [(1, .expire), (1, .go 0)]))
      (threads.machine.run boot ([(0, .operate .classic beepOperation), (0, .go 0), (0, .go 0)] ++
        beepSections 0 ++ [(1, .expire), (1, .go 0)])) :=
  sound_of_prompt (by decide)

/-- The timer of the first beep expires while the second operation, which has stopped the timer
before that beep, has the lock. -/
theorem not_sound :
    ¬ ∀ events, Owned (threads.history boot events) (threads.machine.run boot events) := by
  intro h
  have hexpired := (h ([(1, .operate .ble beepOperation), (1, .go 0), (1, .go 0),
    (0, .operate .classic beepOperation), (0, .go 0), (0, .go 0)] ++ beepSections 0 ++
      (2, .expire) :: beepSections 1 ++ [(2, .go 0)])).expired 2 2 1 (by decide)
  exact absurd hexpired (by decide)

end Brickwright.Btsensor.Sound
