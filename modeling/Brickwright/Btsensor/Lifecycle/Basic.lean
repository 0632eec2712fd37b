import Brickwright.Machine.Threads

/-!
# Starting and stopping the daemon (`btsensor_lifecycle.c`)

`btsensor_lifecycle_start` holds `g_lock` from its check of `g_running` to the return of
`task_create`, and so across the loops that empty the two semaphores; `btsensor_lifecycle_stop` and
the daemon take it for one section each. The semaphores are posted without the lock.

The daemon is a task of its own: `task_create` leaves it to be run by a thread that is idle. A token
of a semaphore does not tell who posted it. The model writes the call, or the instance, on it, and
which of them is taken is up to the environment.
-/

namespace Brickwright.Btsensor.Lifecycle

/-- `struct btsensor_lifecycle_hooks`, as far as they are looked at here: which of them there
are. -/
structure Hooks where
  receive : Bool
  servicesStart : Bool
  servicesStop : Bool
  deriving DecidableEq, Repr

structure Shared where
  /-- `g_lock`. -/
  locked : Bool := false
  semaphoresReady : Bool := false
  /-- The calls whose request is in `g_stop_request`. -/
  stopRequest : List Nat := []
  /-- The instances whose post is in `g_stopped`. -/
  stopped : List Nat := []
  running : Bool := false
  pid : Int := -1
  hooks : Hooks := ⟨false, false, false⟩
  /-- The tasks that have been created and not been run. -/
  born : List Nat := []
  /-- How many instances there have been. -/
  instances : Nat := 0
  /-- How many stops have found `g_running`. -/
  calls : Nat := 0
  deriving DecidableEq, Repr

inductive Point where
  | idle
  /-- `btsensor_lifecycle_start`, before the lock, and then behind its check of `g_running`. -/
  | starting (hooks : Hooks)
  | drainingRequests (hooks : Hooks)
  | drainingStopped (hooks : Hooks)
  | creating (hooks : Hooks)
  | created (pid : Int)
  /-- `btsensor_lifecycle_stop`, before its check, and then as a call that has found an instance. -/
  | stopping
  | requesting (call k : Nat)
  | awaiting (call k : Nat)
  /-- `daemon_main` of an instance, with `services_started`. -/
  | servicesStart (k : Nat)
  | transportStart (k : Nat) (services : Bool)
  | waiting (k : Nat) (services : Bool)
  | transportStop (k : Nat) (services : Bool)
  | servicesStop (k : Nat)
  | clearing (k : Nat)
  | posting (k : Nat)
  deriving DecidableEq, Repr

inductive Input where
  | start (hooks : Option Hooks)
  | stop
  /-- The scheduler gives the thread a new task. -/
  | run
  /-- The next section. `ret` is what a function called in it returns, `pick` the token it takes. -/
  | go (ret : Int) (pick : Nat)
  /-- A wait ends with this errno, and not with a token. -/
  | fail (errno : Nat)
  deriving DecidableEq

inductive Note where
  /-- `task_create` has made the instance. -/
  | started (k : Nat)
  /-- A stop has returned, that had found the instance running. -/
  | returns (call k : Nat) (ret : Int)
  /-- An instance has taken the request of a stop. -/
  | takes (k call : Nat)
  /-- An instance has stopped its transport and its services, as far as it had started them. -/
  | tornDown (k : Nat)
  deriving DecidableEq

def EINTR : Nat := 4

/-- `btsensor_lifecycle_start`. -/
def startBody (s : Shared) (ret : Int) : Point → Shared × List Note × Point
  | .starting hooks =>
    if s.locked then (s, [], .starting hooks)
    else if s.running then (s, [], .idle)
    else if s.semaphoresReady then ({ s with locked := true }, [], .drainingRequests hooks)
    -- `sem_init`, of both.
    else if ret < 0 then (s, [], .idle)
    else
      ({ s with locked := true, semaphoresReady := true, stopRequest := [], stopped := [] }, [],
        .drainingRequests hooks)
  | .drainingRequests hooks =>
    match s.stopRequest with
    | [] => (s, [], .drainingStopped hooks)
    | _ :: rest => ({ s with stopRequest := rest }, [], .drainingRequests hooks)
  | .drainingStopped hooks =>
    match s.stopped with
    | [] => (s, [], .creating hooks)
    | _ :: rest => ({ s with stopped := rest }, [], .drainingStopped hooks)
  | .creating hooks =>
    if ret < 0 then ({ s with hooks := hooks, running := false, locked := false }, [], .idle)
    else
      ({ s with
          hooks := hooks, running := true
          born := s.born ++ [s.instances], instances := s.instances + 1 },
        [.started s.instances], .created ret)
  | .created pid => ({ s with pid := pid, locked := false }, [], .idle)
  | pc => (s, [], pc)

/-- `btsensor_lifecycle_stop`. -/
def stopBody (s : Shared) (pick : Nat) : Point → Shared × List Note × Point
  | .stopping =>
    if s.locked then (s, [], .stopping)
    else if s.running then
      ({ s with calls := s.calls + 1 }, [], .requesting s.calls (s.instances - 1))
    else (s, [], .idle)
  | .requesting call k => ({ s with stopRequest := s.stopRequest ++ [call] }, [], .awaiting call k)
  | .awaiting call k =>
    if s.stopped = [] then (s, [], .awaiting call k)
    else
      ({ s with stopped := s.stopped.eraseIdx (pick % s.stopped.length) }, [.returns call k 0],
        .idle)
  | pc => (s, [], pc)

def stopFails (s : Shared) (errno : Nat) (call k : Nat) : Shared × List Note × Point :=
  if s.stopped = [] ∧ errno ≠ EINTR ∧ errno ≠ 0 then (s, [.returns call k (-errno)], .idle)
  else (s, [], .awaiting call k)

/-- The end of `daemon_main` begins: `services_stop`, if there is anything to stop. -/
def stopServices (s : Shared) (k : Nat) (services : Bool) : Shared × List Note × Point :=
  if services ∧ s.hooks.servicesStop then (s, [], .servicesStop k) else
    (s, [.tornDown k], .clearing k)

/-- `daemon_main`. -/
def daemonBody (s : Shared) (ret : Int) (pick : Nat) : Point → Shared × List Note × Point
  | .servicesStart k =>
    if ¬s.hooks.servicesStart then (s, [], .transportStart k false)
    else if ret = 0 then (s, [], .transportStart k true)
    else stopServices s k false
  | .transportStart k services =>
    if ret = 0 then (s, [], .waiting k services) else stopServices s k services
  | .waiting k services =>
    match s.stopRequest[pick % s.stopRequest.length]? with
    | none => (s, [], .waiting k services)
    | some call =>
      ({ s with stopRequest := s.stopRequest.eraseIdx (pick % s.stopRequest.length) },
        [.takes k call], .transportStop k services)
  | .transportStop k services => stopServices s k services
  | .servicesStop k => (s, [.tornDown k], .clearing k)
  | .clearing k =>
    if s.locked then (s, [], .clearing k)
    else ({ s with running := false, pid := -1 }, [], .posting k)
  | .posting k => ({ s with stopped := s.stopped ++ [k] }, [], .idle)
  | pc => (s, [], pc)

def body (s : Shared) (pc : Point) (input : Input) : Shared × List Note × Point :=
  match pc, input with
  -- Without hooks, or without their `receive`, nothing is started.
  | .idle, .start (some hooks) => (s, [], if hooks.receive then .starting hooks else .idle)
  | .idle, .stop => (s, [], .stopping)
  | .idle, .run =>
    match s.born with
    | [] => (s, [], .idle)
    | k :: born => ({ s with born := born }, [], .servicesStart k)
  | .awaiting call k, .fail errno => stopFails s errno call k
  | .stopping, .go _ pick | .requesting .., .go _ pick | .awaiting .., .go _ pick =>
    stopBody s pick pc
  | .starting _, .go ret _ | .drainingRequests _, .go ret _ | .drainingStopped _, .go ret _
  | .creating _, .go ret _ | .created _, .go ret _ => startBody s ret pc
  | .servicesStart _, .go ret pick | .transportStart .., .go ret pick | .waiting .., .go ret pick
  | .transportStop .., .go ret pick | .servicesStop _, .go ret pick | .clearing _, .go ret pick
  | .posting _, .go ret pick => daemonBody s ret pick pc
  | _, _ => (s, [], pc)

def threads : Threads Shared Point Input Note := ⟨body⟩

def boot : Threads.State Shared Point := ⟨{}, fun _ => .idle⟩

/-- The instance that a thread runs, as far as its code before `g_running = false` goes. -/
def Point.alive : Point → Option Nat
  | .servicesStart k | .transportStart k _ | .waiting k _ | .transportStop k _ | .servicesStop k
  | .clearing k => some k
  | _ => none

/-- An instance between the start of its services and their stop. -/
def Point.serving : Point → Option Nat
  | .servicesStart k | .transportStart k _ | .waiting k _ | .transportStop k _ | .servicesStop k =>
    some k
  | _ => none

def Point.Holds : Point → Prop
  | .drainingRequests _ | .drainingStopped _ | .creating _ | .created _ => True
  | _ => False

/-- A start that has seen that nothing runs. -/
def Point.Starts : Point → Prop
  | .drainingRequests _ | .drainingStopped _ | .creating _ => True
  | _ => False

/-- A start that has emptied `g_stop_request`. -/
def Point.Drained : Point → Prop
  | .drainingStopped _ | .creating _ => True
  | _ => False

/-!
## What a section can do

`Move` lists the moves of a thread: where it stands, what it finds, what it changes and notes, and
where it stands then. `Structured` is what every run keeps without any condition: one start at a
time has the lock, and one instance at most is alive, which is the last that was created.
-/

open List

/-- The call that a thread is in, and the instance it has found. -/
def Point.call : Point → Option (Nat × Nat)
  | .requesting c k | .awaiting c k => some (c, k)
  | _ => none

/-- A move that changes nothing but the point. -/
structure Walks (pc pc' : Point) : Prop where
  alive : pc'.alive = pc.alive
  serving : pc'.serving = pc.serving
  free : ¬pc.Holds ∧ ¬pc'.Holds
  call : pc'.call = none
  posting : ∀ k, pc' ≠ .posting k

inductive Move (s : Shared) : Point → Shared → List Note → Point → Prop where
  | still (pc : Point) : Move s pc s [] pc
  | walk {pc pc' : Point} (h : Walks pc pc') : Move s pc s [] pc'
  | lock {hooks : Hooks} (ready : Bool) {requests stopped : List Nat} (hfree : s.locked = false)
      (hrunning : s.running = false) (hrequests : requests ⊆ s.stopRequest)
      (hstopped : stopped ⊆ s.stopped) :
      Move s (.starting hooks)
        { s with
          locked := true, semaphoresReady := ready, stopRequest := requests, stopped := stopped } []
        (.drainingRequests hooks)
  | drainRequest {hooks : Hooks} {c : Nat} {rest : List Nat} (h : s.stopRequest = c :: rest) :
      Move s (.drainingRequests hooks) { s with stopRequest := rest } [] (.drainingRequests hooks)
  | drained {hooks : Hooks} (h : s.stopRequest = []) :
      Move s (.drainingRequests hooks) s [] (.drainingStopped hooks)
  | drainStopped {hooks : Hooks} {k : Nat} {rest : List Nat} (h : s.stopped = k :: rest) :
      Move s (.drainingStopped hooks) { s with stopped := rest } [] (.drainingStopped hooks)
  | emptied {hooks : Hooks} (h : s.stopped = []) :
      Move s (.drainingStopped hooks) s [] (.creating hooks)
  | notCreated {hooks : Hooks} :
      Move s (.creating hooks) { s with hooks := hooks, running := false, locked := false } [] .idle
  | create {hooks : Hooks} {pid : Int} :
      Move s (.creating hooks)
        { s with
          hooks := hooks, running := true
          born := s.born ++ [s.instances], instances := s.instances + 1 }
        [.started s.instances] (.created pid)
  | unlock {pid : Int} : Move s (.created pid) { s with pid := pid, locked := false } [] .idle
  | call (hrunning : s.running = true) :
      Move s .stopping { s with calls := s.calls + 1 } [] (.requesting s.calls (s.instances - 1))
  | request {c k : Nat} :
      Move s (.requesting c k) { s with stopRequest := s.stopRequest ++ [c] } [] (.awaiting c k)
  | returns {c k : Nat} {stopped : List Nat} (h : s.stopped ≠ []) (hsub : stopped ⊆ s.stopped) :
      Move s (.awaiting c k) { s with stopped := stopped } [.returns c k 0] .idle
  | gives {c k : Nat} {ret : Int} (h : ret ≠ 0) : Move s (.awaiting c k) s [.returns c k ret] .idle
  | run {k : Nat} {born : List Nat} (h : s.born = k :: born) :
      Move s .idle { s with born := born } [] (.servicesStart k)
  | take {k c : Nat} {services : Bool} {requests : List Nat} (h : c ∈ s.stopRequest)
      (hsub : requests ⊆ s.stopRequest) :
      Move s (.waiting k services) { s with stopRequest := requests } [.takes k c]
        (.transportStop k services)
  | tornDown {pc : Point} {k : Nat} (h : pc.serving = some k) :
      Move s pc s [.tornDown k] (.clearing k)
  | clear {k : Nat} (hfree : s.locked = false) :
      Move s (.clearing k) { s with running := false, pid := -1 } [] (.posting k)
  | post {k : Nat} : Move s (.posting k) { s with stopped := s.stopped ++ [k] } [] .idle

section Sections

variable {s : Shared}

theorem move_start (ret : Int) (pc : Point) :
    Move s pc (startBody s ret pc).1 (startBody s ret pc).2.1 (startBody s ret pc).2.2 := by
  unfold startBody
  split
  · next hooks =>
    split
    · exact .still _
    next hfree =>
      have hfree : s.locked = false := Bool.eq_false_iff.mpr hfree
      split
      · exact .walk ⟨rfl, rfl, ⟨id, id⟩, rfl, nofun⟩
      next hrunning =>
        have hrunning : s.running = false := Bool.eq_false_iff.mpr hrunning
        split
        · exact .lock s.semaphoresReady hfree hrunning (List.Subset.refl _) (List.Subset.refl _)
        split
        · exact .walk ⟨rfl, rfl, ⟨id, id⟩, rfl, nofun⟩
        · exact .lock true hfree hrunning (nil_subset _) (nil_subset _)
  · split
    · next h => exact .drained h
    · next h => exact .drainRequest h
  · split
    · next h => exact .emptied h
    · next h => exact .drainStopped h
  · split
    · exact .notCreated
    · exact .create
  · exact .unlock
  · exact .still _

theorem move_stop (pick : Nat) (pc : Point) :
    Move s pc (stopBody s pick pc).1 (stopBody s pick pc).2.1 (stopBody s pick pc).2.2 := by
  unfold stopBody
  split
  · split
    · exact .still _
    split
    · next hrunning => exact .call hrunning
    · exact .walk ⟨rfl, rfl, ⟨id, id⟩, rfl, nofun⟩
  · exact .request
  · split
    · exact .still _
    · next h => exact .returns h (eraseIdx_subset ..)
  · exact .still _

theorem move_stopFails (errno c k : Nat) :
    Move s (.awaiting c k) (stopFails s errno c k).1 (stopFails s errno c k).2.1
      (stopFails s errno c k).2.2 := by
  unfold stopFails
  split
  · next h => exact .gives (by omega)
  · exact .still _

theorem move_stopServices {pc : Point} {k : Nat} (hpc : pc.serving = some k)
    (halive : pc.alive = some k) (hfree : ¬pc.Holds) (services : Bool) :
    Move s pc (stopServices s k services).1 (stopServices s k services).2.1
      (stopServices s k services).2.2 := by
  unfold stopServices
  split
  · exact .walk ⟨halive.symm, hpc.symm, ⟨hfree, id⟩, rfl, nofun⟩
  · exact .tornDown hpc

theorem move_daemon (ret : Int) (pick : Nat) (pc : Point) :
    Move s pc (daemonBody s ret pick pc).1 (daemonBody s ret pick pc).2.1
      (daemonBody s ret pick pc).2.2 := by
  unfold daemonBody
  split
  · split
    · exact .walk ⟨rfl, rfl, ⟨id, id⟩, rfl, nofun⟩
    split
    · exact .walk ⟨rfl, rfl, ⟨id, id⟩, rfl, nofun⟩
    · exact move_stopServices rfl rfl id false
  · split
    · exact .walk ⟨rfl, rfl, ⟨id, id⟩, rfl, nofun⟩
    · exact move_stopServices rfl rfl id _
  · split
    · exact .still _
    · next h => exact .take (mem_of_getElem? h) (eraseIdx_subset ..)
  · exact move_stopServices rfl rfl id _
  · exact .tornDown rfl
  · split
    · exact .still _
    · next hfree => exact .clear (Bool.eq_false_iff.mpr hfree)
  · exact .post
  · exact .still _

/-- **Every section is a move.** -/
theorem move_body (pc : Point) (input : Input) :
    Move s pc (body s pc input).1 (body s pc input).2.1 (body s pc input).2.2 := by
  unfold body
  split
  · split
    · exact .walk ⟨rfl, rfl, ⟨id, id⟩, rfl, nofun⟩
    · exact .still _
  · exact .walk ⟨rfl, rfl, ⟨id, id⟩, rfl, nofun⟩
  · split
    · exact .still _
    · next h => exact .run h
  · exact move_stopFails ..
  all_goals first
    | exact move_stop ..
    | exact move_start ..
    | exact move_daemon ..
    | exact .still _

theorem Move.notes_cases {pc pc' : Point} {s' : Shared} {notes : List Note}
    (h : Move s pc s' notes pc') : notes = [] ∨ ∃ n, notes = [n] := by
  cases h <;> first | exact .inl rfl | exact .inr ⟨_, rfl⟩

variable {pc pc' : Point} {s' : Shared} {notes : List Note}

theorem Move.takes_lock (h : Move s pc s' notes pc') (hpc : pc'.Holds) :
    pc.Holds ∨ s.locked = false := by
  cases h with
  | lock _ hfree => exact .inr hfree
  | still => exact .inl hpc
  | walk h => exact absurd hpc h.free.2
  | drainRequest | drained | drainStopped | emptied | create => exact .inl trivial
  | _ => exact hpc.elim

theorem Move.holds_lock (h : Move s pc s' notes pc') (hlocked : pc.Holds → s.locked = true)
    (hpc : pc'.Holds) : s'.locked = true := by
  cases h with
  | lock => rfl
  | still => exact hlocked hpc
  | walk h => exact absurd hpc h.free.2
  | drainRequest | drained | drainStopped | emptied | create => exact hlocked trivial
  | _ => exact hpc.elim

theorem Move.keeps_lock (h : Move s pc s' notes pc') (hpc : ¬pc.Holds)
    (hlocked : s.locked = true) : s'.locked = true := by
  cases h with
  | notCreated | unlock => exact absurd trivial hpc
  | lock => rfl
  | _ => exact hlocked

theorem locks (s : Shared) : threads.Locks Point.Holds (·.locked = true) s where
  takes _ _ hpc := ((move_body _ _).takes_lock hpc).imp id Bool.eq_false_iff.mp
  holds _ _ hlocked hpc := (move_body _ _).holds_lock hlocked hpc
  keeps _ _ hpc hlocked := (move_body _ _).keeps_lock hpc hlocked

end Sections

/-! ### One instance -/

theorem Point.Starts.holds {pc : Point} (h : pc.Starts) : pc.Holds := by
  cases pc <;> trivial

theorem Point.Drained.starts {pc : Point} (h : pc.Drained) : pc.Starts := by
  cases pc <;> trivial

theorem Point.alive_of_serving {pc : Point} {k : Nat} (h : pc.serving = some k) :
    pc.alive = some k := by
  cases pc <;> first | exact h | cases h

inductive Change (s : Shared) (pc : Point) (s' : Shared) (pc' : Point) : Prop where
  | none (hrunning : s'.running = s.running) (hinstances : s'.instances = s.instances)
      (hborn : s'.born = s.born) (halive : pc'.alive = pc.alive)
      (hstarts : pc'.Starts → s.running = false)
  | create (hstarts : pc.Starts) (hstarts' : ¬pc'.Starts) (halive : pc.alive = .none)
      (halive' : pc'.alive = .none) (hrunning : s'.running = true)
      (hinstances : s'.instances = s.instances + 1) (hborn : s'.born = s.born ++ [s.instances])
  | run {k : Nat} (hborn : s.born = k :: s'.born) (halive : pc'.alive = some k)
      (hstarts : ¬pc'.Starts) (hrunning : s'.running = s.running)
      (hinstances : s'.instances = s.instances)
  | clear {k : Nat} (halive : pc.alive = some k) (halive' : pc'.alive = .none)
      (hstarts : ¬pc'.Starts) (hborn : s'.born = s.born) (hinstances : s'.instances = s.instances)

theorem Move.change {s s' : Shared} {pc pc' : Point} {notes : List Note}
    (h : Move s pc s' notes pc') (hstarts : pc.Starts → s.running = false) :
    Change s pc s' pc' := by
  cases h with
  | still => exact .none rfl rfl rfl rfl hstarts
  | walk h => exact .none rfl rfl rfl h.alive fun h' => absurd h'.holds h.free.2
  | lock _ _ hrunning => exact .none rfl rfl rfl rfl fun _ => hrunning
  | drainRequest | drained | drainStopped | emptied =>
    exact .none rfl rfl rfl rfl fun _ => hstarts trivial
  | notCreated => exact .none (hstarts trivial).symm rfl rfl rfl False.elim
  | create => exact .create trivial id rfl rfl rfl rfl rfl
  | run h => exact .run h rfl id rfl rfl
  | tornDown h => exact .none rfl rfl rfl (Point.alive_of_serving h).symm False.elim
  | clear => exact .clear rfl rfl id rfl rfl
  | _ => exact .none rfl rfl rfl rfl False.elim

/-- One start at most has the lock. An instance is alive only while `g_running`, and is the last
one. -/
structure Structured (s : Threads.State Shared Point) : Prop where
  locking : Threads.Locking Point.Holds (·.locked = true) s
  starts : ∀ i, (s.pc i).Starts → s.shared.running = false
  born : ∀ k ∈ s.shared.born,
    s.shared.running = true ∧ k + 1 = s.shared.instances ∧ s.shared.born = [k]
  alive : ∀ i k, (s.pc i).alive = some k →
    s.shared.running = true ∧ k + 1 = s.shared.instances ∧ s.shared.born = []
  one : ∀ i j k l, (s.pc i).alive = some k → (s.pc j).alive = some l → i = j

theorem structured_boot : Structured boot where
  locking := .start fun _ h => h
  starts _ h := h.elim
  born _ h := nomatch h
  alive _ _ h := nomatch h
  one _ _ _ _ h := nomatch h

theorem Structured.change {s s' : Threads.State Shared Point} {i : Nat} (h : Structured s)
    (hlocking : Threads.Locking Point.Holds (·.locked = true) s')
    (hchange : Change s.shared (s.pc i) s'.shared (s'.pc i))
    (hother : ∀ j, j ≠ i → s'.pc j = s.pc j) : Structured s' := by
  -- what the other threads' points tell, where the thread that moves is told apart
  have hsame : (s'.pc i).alive = (s.pc i).alive → ∀ j, (s'.pc j).alive = (s.pc j).alive := by
    intro hi j
    rcases eq_or_ne j i with rfl | hji
    · exact hi
    · rw [hother j hji]
  cases hchange with
  | none hrunning hinstances hborn halive hstarts =>
    refine ⟨hlocking, fun j hj => ?_, ?_, fun j k hj => ?_, fun j j' k l hj hj' => ?_⟩
    · rw [hrunning]
      rcases eq_or_ne j i with rfl | hji
      · exact hstarts hj
      · exact h.starts j (hother j hji ▸ hj)
    · rw [hrunning, hinstances, hborn]
      exact h.born
    · rw [hrunning, hinstances, hborn]
      exact h.alive j k (hsame halive j ▸ hj)
    · exact h.one j j' k l (hsame halive j ▸ hj) (hsame halive j' ▸ hj')
  | create hstarts hstarts' halive halive' hrunning hinstances hborn =>
    have hidle : s.shared.running = false := h.starts i hstarts
    have hdead : ∀ j k, (s'.pc j).alive ≠ some k := by
      intro j k hj
      rw [hsame (halive'.trans halive.symm) j] at hj
      exact absurd (h.alive j k hj).1 (by rw [hidle]; decide)
    have hempty : s.shared.born = [] := by
      refine eq_nil_iff_forall_not_mem.mpr fun k hk => ?_
      exact absurd (h.born k hk).1 (by rw [hidle]; decide)
    refine ⟨hlocking, fun j hj => ?_, fun k hk => ?_, fun j k hj => absurd hj (hdead j k),
      fun j _ k _ hj => absurd hj (hdead j k)⟩
    · rcases eq_or_ne j i with rfl | hji
      · exact absurd hj hstarts'
      · rw [hother j hji] at hj
        exact absurd hj.holds (h.locking.not_holds hstarts.holds hji)
    · rw [hborn, hempty] at hk ⊢
      cases mem_singleton.mp hk
      exact ⟨hrunning, hinstances.symm, rfl⟩
  | run hborn halive hstarts hrunning hinstances =>
    obtain ⟨hrun, hlast, hone⟩ := h.born _ (hborn ▸ mem_cons_self)
    have hempty : s'.shared.born = [] := by
      rw [hborn] at hone
      exact (List.cons.inj hone).2
    have hself : ∀ j k, (s'.pc j).alive = some k → j = i := by
      intro j k hj
      by_contra hji
      rw [hother j hji] at hj
      have hnil := (h.alive j k hj).2.2
      rw [hborn] at hnil
      cases hnil
    refine ⟨hlocking, fun j hj => ?_, fun k hk => ?_, fun j k hj => ?_, fun j j' k l hj hj' => ?_⟩
    · rcases eq_or_ne j i with rfl | hji
      · exact absurd hj hstarts
      · rw [hrunning]
        exact h.starts j (hother j hji ▸ hj)
    · rw [hempty] at hk
      cases hk
    · cases hself j k hj
      cases halive.symm.trans hj
      rw [hrunning, hinstances]
      exact ⟨hrun, hlast, hempty⟩
    · exact (hself j k hj).trans (hself j' l hj').symm
  | clear halive halive' hstarts hborn hinstances =>
    obtain ⟨hrun, -, hempty⟩ := h.alive i _ halive
    have hdead : ∀ j k, (s'.pc j).alive ≠ some k := by
      intro j k hj
      rcases eq_or_ne j i with rfl | hji
      · rw [halive'] at hj
        cases hj
      · rw [hother j hji] at hj
        exact hji (h.one j i k _ hj halive)
    refine ⟨hlocking, fun j hj => ?_, fun k hk => ?_, fun j k hj => absurd hj (hdead j k),
      fun j _ k _ hj => absurd hj (hdead j k)⟩
    · rcases eq_or_ne j i with rfl | hji
      · exact absurd hj hstarts
      · rw [hother j hji] at hj
        exact absurd (h.starts j hj) (by rw [hrun]; decide)
    · rw [hborn, hempty] at hk
      cases hk

/-- **Every section keeps the structure.** -/
theorem Structured.step {s : Threads.State Shared Point} (h : Structured s) (i : Nat)
    (input : Input) : Structured (threads.step s i input) := by
  refine h.change (h.locking.step (locks s.shared) i input) ?_
    (fun j hji => Threads.step_pc_of_ne (m := threads) hji input) (i := i)
  rw [threads.step_pc_self]
  exact (move_body (s.pc i) input).change (h.starts i)

end Brickwright.Btsensor.Lifecycle
