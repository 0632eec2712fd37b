import Brickwright.Bluetooth.Errno
import Brickwright.Machine.Calls
import Brickwright.Machine.History

/-!
# The controller's life cycle (`zephyr_compat/src/controller_lifecycle.c`)

`struct brickwright_controller_ops` is injected: its operations are calls here. A controller is used
after `brickwright_controller_init`, so the null checks are left out, and so are the ACL credits of
the same file, which share no state with it.
-/

namespace Brickwright.Bluetooth.Lifecycle

open Calls

/-- `struct brickwright_controller_ops`; the result of `close` is not read. -/
inductive Op where
  | powerCycle
  | open (baud : UInt32)
  | loadFirmware
  | setControllerBaud (baud : UInt32)
  | setHostBaud (baud : UInt32)
  | startHost
  | stopHost
  | close
  deriving DecidableEq, Repr

/-- `struct brickwright_controller_config`. -/
structure Config where
  bootBaud : UInt32
  operationalBaud : UInt32
  maxRecoveries : Nat

inductive ControllerState where
  | off
  | starting
  | ready
  | recovering
  | failed
  deriving DecidableEq, Repr

structure Controller where
  config : Config
  state : ControllerState
  recoveries : Nat
  transportOpen : Bool
  hostStarted : Bool

def Config.validate (config : Config) : Int :=
  if config.bootBaud = 0 ∨ config.operationalBaud = 0 then -EINVAL else 0

/-- `brickwright_controller_init`. -/
def init (config : Config) : Except Int Controller :=
  if config.validate ≠ 0 then .error config.validate else .ok ⟨config, .off, 0, false, false⟩

namespace Controller

variable (controller : Controller)

/-- The first `if` of `unwind` and of `brickwright_controller_shutdown`, with the result of
`stop_host`. -/
def stopHost : Calls Op Int (Int × Controller) :=
  if controller.hostStarted then do
    let result ← perform .stopHost
    pure (result, { controller with hostStarted := false })
  else pure (0, controller)

/-- The second `if` of both. -/
def close : Calls Op Int Controller :=
  if controller.transportOpen then do
    let _ ← perform .close
    pure { controller with transportOpen := false }
  else pure controller

def unwind : Calls Op Int Controller := do
  let (_, controller) ← controller.stopHost
  controller.close

/-- The baud transition of `bring_up`, behind the firmware load that ended with `result`. -/
def setBaud (result : Int) : Calls Op Int Int :=
  let baud := controller.config.operationalBaud
  if result = 0 ∧ baud ≠ controller.config.bootBaud then do
    let result ← perform (.setControllerBaud baud)
    if result = 0 then perform (.setHostBaud baud) else pure result
  else pure result

/-- The host start of `bring_up`. -/
def startHost (result : Int) : Calls Op Int (Int × Controller) :=
  if result = 0 then do
    let result ← perform .startHost
    pure (result, { controller with hostStarted := decide (result = 0) })
  else pure (result, controller)

/-- `bring_up` once the transport is open. -/
def bringUpOpened : Calls Op Int (Int × Controller) := do
  let result ← perform .loadFirmware
  let result ← controller.setBaud result
  let (result, controller) ← controller.startHost result
  if result ≠ 0 then do
    let controller ← controller.unwind
    pure (result, controller)
  else pure (result, controller)

def bringUp : Calls Op Int (Int × Controller) := do
  let result ← perform .powerCycle
  if result ≠ 0 then pure (result, controller)
  else
    let result ← perform (.open controller.config.bootBaud)
    if result ≠ 0 then pure (result, controller)
    else bringUpOpened { controller with transportOpen := true }

/-- The last assignment of `brickwright_controller_start` and `brickwright_controller_recover`. -/
def settle (result : Int) : Controller :=
  { controller with state := if result = 0 then .ready else .failed }

/-- `brickwright_controller_start`. -/
def start : Calls Op Int (Int × Controller) :=
  if controller.state ≠ .off then pure (-EINVAL, controller)
  else do
    let (result, controller) ← bringUp { controller with state := .starting }
    pure (result, controller.settle result)

/-- `brickwright_controller_shutdown`. -/
def shutdown : Calls Op Int (Int × Controller) := do
  let (result, controller) ← controller.stopHost
  let controller ← controller.close
  pure (result, { controller with state := .off })

/-- `brickwright_controller_recover`. -/
def recover : Calls Op Int (Int × Controller) :=
  if controller.state ≠ .ready ∧ controller.state ≠ .failed then pure (-EINVAL, controller)
  else if controller.recoveries ≥ controller.config.maxRecoveries then pure (-EAGAIN, controller)
  else do
    let controller ← unwind { controller with state := .recovering }
    let controller := { controller with recoveries := controller.recoveries + 1 }
    let (result, controller) ← controller.bringUp
    pure (result, controller.settle result)

end Controller

inductive Request where
  | start
  | recover
  | shutdown
  deriving DecidableEq, Repr

def serve (controller : Controller) : Request → Calls Op Int (Int × Controller)
  | .start => controller.start
  | .recover => controller.recover
  | .shutdown => controller.shutdown

/-!
## Opens and closes, starts and stops

The order in which the injected operations make sense is that of `Monitor.see`. Every request goes
on where the monitor stands and leaves it where the controller's own flags say (`serve_seen`), so a
whole run is in order; what the order means for counts and for stops of the host is read off the
monitor.
-/

open List

/-! ### The order of the operations -/

abbrev Done := Op × Int

/-- Is the transport open, and is the host started? -/
structure Monitor where
  opened : Bool
  started : Bool
  deriving DecidableEq

namespace Monitor

def idle : Monitor := ⟨false, false⟩

/-- A successful open comes while closed, a close while open and the host stopped, a successful
start while open and stopped, a stop while started. Anything else of these has no next state. -/
def see (m : Monitor) : Done → Option Monitor
  | (.open _, result) =>
    if result ≠ 0 then some m else if m.opened then none else some { m with opened := true }
  | (.close, _) =>
    if m.opened && !m.started then some { m with opened := false } else none
  | (.startHost, result) =>
    if result ≠ 0 then some m
    else if m.opened && !m.started then some { m with started := true } else none
  | (.stopHost, _) => if m.started then some { m with started := false } else none
  | _ => some m

def run (m : Monitor) (log : List Done) : Option Monitor := log.foldlM see m

theorem run_append (m : Monitor) (log log' : List Done) :
    m.run (log ++ log') = (m.run log).bind fun m => m.run log' :=
  foldlM_append

theorem run_cons (m : Monitor) (d : Done) (log : List Done) :
    m.run (d :: log) = (m.see d).bind fun m => m.run log :=
  foldlM_cons

end Monitor

def Done.Opens (d : Done) : Bool := match d.1 with
  | .open _ => decide (d.2 = 0)
  | _ => false

def Done.Closes (d : Done) : Bool := decide (d.1 = .close)

def Done.Starts (d : Done) : Prop := d.1 = .startHost ∧ d.2 = 0

def Done.Stops (d : Done) : Prop := d.1 = .stopHost

theorem Monitor.see_balance {m m' : Monitor} {d : Done} (h : m.see d = some m') :
    m.opened.toNat + d.Opens.toNat = m'.opened.toNat + d.Closes.toNat := by
  obtain ⟨op, result⟩ := d
  obtain ⟨opened, started⟩ := m
  by_cases hresult : result = 0
  all_goals
    cases op <;> cases started <;>
      simp [see, hresult, Done.Opens, Done.Closes] at h ⊢ <;> simp [← h]

/-- **Opens and closes balance** up to whether the transport is open. -/
theorem Monitor.run_balance {m m' : Monitor} {log : List Done} (h : m.run log = some m') :
    m.opened.toNat + log.countP Done.Opens = m'.opened.toNat + log.countP Done.Closes := by
  induction log generalizing m with
  | nil =>
    cases h
    rfl
  | cons d log ih =>
    obtain ⟨m₁, hsee, hrun⟩ := Option.bind_eq_some_iff.mp h
    have hone := see_balance hsee
    have hrest := ih hrun
    have hopens : (d :: log).countP Done.Opens = log.countP Done.Opens + d.Opens.toNat := by
      rw [countP_cons]
      cases d.Opens <;> rfl
    have hcloses : (d :: log).countP Done.Closes = log.countP Done.Closes + d.Closes.toNat := by
      rw [countP_cons]
      cases d.Closes <;> rfl
    omega

/-- While the monitor has the host started, it was started and not stopped since. -/
theorem Monitor.started_outstanding {m : Monitor} {log : List Done} (h : idle.run log = some m)
    (hstarted : m.started = true) : Outstanding Done.Starts Done.Stops log := by
  induction log using List.reverseRecOn generalizing m with
  | nil =>
    cases h
    cases hstarted
  | append_singleton log d ih =>
    rw [run_append] at h
    obtain ⟨m₁, hrun, hlast⟩ := Option.bind_eq_some_iff.mp h
    obtain ⟨m₂, hsee, hnil⟩ := Option.bind_eq_some_iff.mp hlast
    cases hnil
    rw [Outstanding.concat]
    by_cases hstarts : d.Starts
    · exact .inl hstarts
    · right
      obtain ⟨op, result⟩ := d
      cases op with
      | startHost =>
        have hresult : result ≠ 0 := fun hzero => hstarts ⟨rfl, hzero⟩
        rw [see, if_pos hresult] at hsee
        cases hsee
        exact ⟨ih hrun hstarted, nofun⟩
      | stopHost =>
        rw [see] at hsee
        split at hsee <;> cases hsee
        cases hstarted
      | «open» baud =>
        rw [see] at hsee
        split at hsee
        · cases hsee
          exact ⟨ih hrun hstarted, nofun⟩
        · split at hsee <;> cases hsee
          exact ⟨ih hrun hstarted, nofun⟩
      | close =>
        rw [see] at hsee
        split at hsee <;> cases hsee
        exact ⟨ih hrun hstarted, nofun⟩
      | powerCycle | loadFirmware | setControllerBaud baud | setHostBaud baud =>
        cases hsee
        exact ⟨ih hrun hstarted, nofun⟩

/-- **The host is stopped only while it is started.** -/
theorem Monitor.stopped_outstanding {m : Monitor} {pre post : List Done} {result : Int}
    (h : idle.run (pre ++ (.stopHost, result) :: post) = some m) :
    Outstanding Done.Starts Done.Stops pre := by
  rw [run_append] at h
  obtain ⟨m₁, hrun, hrest⟩ := Option.bind_eq_some_iff.mp h
  obtain ⟨m₂, hsee, -⟩ := Option.bind_eq_some_iff.mp hrest
  rw [see] at hsee
  split at hsee
  · next hstarted => exact started_outstanding hrun hstarted
  · cases hsee

/-! ### The controller keeps to it -/

namespace Controller

/-- Where the controller's flags put the monitor. -/
def monitor (c : Controller) : Monitor := ⟨c.transportOpen, c.hostStarted⟩

variable {c : Controller}

/-- The host runs only over an open transport. -/
def Sane (c : Controller) : Prop := c.hostStarted = true → c.transportOpen = true

theorem unwind_seen (h : c.Sane) : c.unwind.Ensures fun c' calls =>
    c.monitor.run calls = some .idle ∧
      c' = { c with transportOpen := false, hostStarted := false } := by
  obtain ⟨config, state, recoveries, transportOpen, hostStarted⟩ := c
  cases transportOpen <;> cases hostStarted
  · exact ⟨rfl, rfl⟩
  · exact absurd (h rfl) Bool.false_ne_true
  · exact fun _ => ⟨rfl, rfl⟩
  · exact fun _ _ => ⟨rfl, rfl⟩

theorem shutdown_seen (h : c.Sane) : c.shutdown.Ensures fun r calls =>
    c.monitor.run calls = some .idle ∧
      r.2 = { c with state := .off, transportOpen := false, hostStarted := false } := by
  obtain ⟨config, state, recoveries, transportOpen, hostStarted⟩ := c
  cases transportOpen <;> cases hostStarted
  · exact ⟨rfl, rfl⟩
  · exact absurd (h rfl) Bool.false_ne_true
  · exact fun _ => ⟨rfl, rfl⟩
  · exact fun _ _ => ⟨rfl, rfl⟩

theorem setBaud_seen (result : Int) (m : Monitor) : (c.setBaud result).Ensures fun _ calls =>
    m.run calls = some m := by
  unfold setBaud
  dsimp only
  split
  · rw [perform_bind, ensures_call]
    intro result
    split
    · exact fun _ => rfl
    · exact rfl
  · exact rfl

/-- What `bringUp` leaves of a controller with nothing open: on success both, else nothing. -/
def broughtUp (c : Controller) (result : Int) : Controller :=
  { c with transportOpen := decide (result = 0), hostStarted := decide (result = 0) }

theorem startHost_seen (result : Int) (hopen : c.transportOpen = true)
    (hstopped : c.hostStarted = false) : (c.startHost result).Ensures fun r calls =>
      c.monitor.run calls = some r.2.monitor ∧
        r.2 = { c with hostStarted := decide (r.1 = 0) } := by
  obtain ⟨config, state, recoveries, transportOpen, hostStarted⟩ := c
  subst hopen hstopped
  unfold startHost
  split
  · intro result
    by_cases hresult : result = 0
    · subst hresult
      exact ⟨rfl, rfl⟩
    · refine ⟨?_, rfl⟩
      rw [Monitor.run_cons, Monitor.see, if_pos hresult]
      simp [monitor, hresult]
      rfl
  · next hresult =>
    refine ⟨rfl, ?_⟩
    simp [hresult]

theorem bringUpOpened_seen (hopen : c.transportOpen = true) (hstopped : c.hostStarted = false) :
    c.bringUpOpened.Ensures fun r calls =>
      c.monitor.run calls = some r.2.monitor ∧ r.2 = c.broughtUp r.1 := by
  intro load
  apply (setBaud_seen load c.monitor).bind
  intro result calls hcalls
  apply (startHost_seen result hopen hstopped).bind
  rintro ⟨result, c'⟩ calls' ⟨hcalls', hc'⟩
  dsimp only at hc'
  have hload : c.monitor.run [(.loadFirmware, load)] = some c.monitor := rfl
  have hsofar : c.monitor.run ((.loadFirmware, load) :: (calls ++ calls')) = some c'.monitor := by
    rw [← singleton_append, Monitor.run_append, hload, Option.bind_some,
      Monitor.run_append, hcalls, Option.bind_some, hcalls']
  dsimp only
  split
  · next hresult =>
    have hsane : c'.Sane := by
      rw [hc']
      exact fun _ => hopen
    apply (unwind_seen hsane).bind
    rintro _ calls'' ⟨hcalls'', rfl⟩
    refine ⟨?_, ?_⟩
    · rw [append_nil, ← append_assoc, ← cons_append, Monitor.run_append, hsofar,
        Option.bind_some, hcalls'']
      rfl
    · rw [hc', broughtUp, decide_eq_false hresult]
  · next hresult =>
    have hzero : result = 0 := not_not.mp hresult
    refine ⟨by rw [append_nil]; exact hsofar, ?_⟩
    rw [hc', hzero]
    simp [broughtUp, hopen]

/-- **A bring-up of a controller with nothing open** leaves all of it up or none. -/
theorem bringUp_seen (hclosed : c.transportOpen = false) (hstopped : c.hostStarted = false) :
    c.bringUp.Ensures fun r calls =>
      Monitor.idle.run calls = some r.2.monitor ∧ r.2 = c.broughtUp r.1 := by
  obtain ⟨config, state, recoveries, transportOpen, hostStarted⟩ := c
  subst hclosed hstopped
  rw [bringUp, perform_bind, ensures_call]
  intro power
  split
  · next hpower =>
    refine ⟨rfl, ?_⟩
    rw [broughtUp, decide_eq_false hpower]
  have hpowered : Monitor.idle.see (.powerCycle, power) = some .idle := rfl
  rw [perform_bind, ensures_call]
  intro opened
  split
  · next hopened =>
    have hsee : Monitor.idle.see (.open config.bootBaud, opened) = some .idle := if_pos hopened
    refine ⟨?_, ?_⟩
    · rw [Monitor.run_cons, hpowered, Option.bind_some, Monitor.run_cons, hsee]
      rfl
    · rw [broughtUp, decide_eq_false hopened]
  · next hopened =>
    apply (bringUpOpened_seen rfl rfl).mono
    rintro ⟨result, c'⟩ calls ⟨hcalls, hc'⟩
    have hsee : Monitor.idle.see (.open config.bootBaud, opened) = some ⟨true, false⟩ :=
      if_neg hopened
    refine ⟨?_, hc'⟩
    rw [Monitor.run_cons, hpowered, Option.bind_some, Monitor.run_cons, hsee]
    exact hcalls

theorem bringUp_powers : c.bringUp.Ensures fun _ calls =>
    calls.any (fun d => decide (d.1 = .powerCycle)) = true := by
  intro power
  apply Ensures.of_forall
  intro r calls
  rfl

end Controller

/-! ### Whole runs -/

/-- A request of a run, with its reply and the operations it made. -/
abbrev Served := Request × Int × List Done

/-- A recovery that got past the checks, and so to a power cycle. -/
def Served.Attempts (e : Served) : Bool :=
  decide (e.1 = .recover) && e.2.2.any fun d => decide (d.1 = .powerCycle)

/-- What holds of a controller and its history between two requests. -/
structure Inv (config : Config) (h : List Served) (c : Controller) : Prop where
  config_eq : c.config = config
  seen : Monitor.idle.run (made h) = some c.monitor
  flags : c.state = .ready ∧ c.transportOpen = true ∧ c.hostStarted = true ∨
    (c.state = .off ∨ c.state = .failed) ∧ c.transportOpen = false ∧ c.hostStarted = false
  attempts : h.countP Served.Attempts = c.recoveries
  limit : c.recoveries ≤ config.maxRecoveries

section Step

variable {config : Config} {h : List Served} {c : Controller}

theorem Inv.sane (hi : Inv config h c) : c.Sane := by
  intro hstarted
  rcases hi.flags with ⟨-, hopen, -⟩ | ⟨-, -, hstopped⟩
  · exact hopen
  · exact absurd (hstopped.symm.trans hstarted) Bool.false_ne_true

theorem Inv.refused (hi : Inv config h c) (request : Request) (rc : Int) :
    Inv config (h ++ [(request, rc, [])]) c where
  config_eq := hi.config_eq
  seen := by
    rw [made_concat, append_nil]
    exact hi.seen
  flags := hi.flags
  attempts := by
    rw [countP_append, hi.attempts]
    simp [Served.Attempts]
  limit := hi.limit

theorem Inv.settled (hi : Inv config h c) {request : Request} {rc : Int} {calls : List Done}
    {recoveries : Nat} {state : ControllerState} (hlimit : recoveries ≤ config.maxRecoveries)
    (hattempts : (h ++ [(request, rc, calls)]).countP Served.Attempts = recoveries)
    (hseen : c.monitor.run calls = some ⟨decide (rc = 0), decide (rc = 0)⟩) :
    Inv config (h ++ [(request, rc, calls)])
      ((Controller.broughtUp { c with state := state, recoveries := recoveries } rc).settle
        rc) where
  config_eq := hi.config_eq
  seen := by
    rw [made_concat, Monitor.run_append, hi.seen]
    exact hseen
  flags := by
    by_cases hrc : rc = 0
    · left
      simp [Controller.settle, Controller.broughtUp, hrc]
    · right
      simp [Controller.settle, Controller.broughtUp, hrc]
  attempts := hattempts
  limit := hlimit

/-- A start or a recovery that made operations and failed leaves the transport closed. -/
def FailedClosed (request : Request) (r : Int × Controller) (calls : List Done) : Prop :=
  request ≠ .shutdown → calls ≠ [] → r.1 ≠ 0 → r.2.transportOpen = false

theorem failedClosed_settled {request : Request} {rc : Int} {calls : List Done} :
    FailedClosed request (rc, (c.broughtUp rc).settle rc) calls :=
  fun _ _ hrc => decide_eq_false hrc

theorem start_step (hi : Inv config h c) : c.start.Ensures fun r calls =>
    Inv config (h ++ [(.start, r.1, calls)]) r.2 ∧ FailedClosed .start r calls := by
  unfold Controller.start
  split
  · exact ⟨hi.refused .start _, fun _ hne => absurd rfl hne⟩
  · next hstate =>
    have hoff : c.state = .off := not_not.mp hstate
    obtain ⟨hclosed, hstopped⟩ : c.transportOpen = false ∧ c.hostStarted = false := by
      rcases hi.flags with ⟨hready, -⟩ | ⟨-, hflags⟩
      · exact absurd (hoff.symm.trans hready) nofun
      · exact hflags
    have hidle : c.monitor = .idle := by rw [Controller.monitor, hclosed, hstopped]; rfl
    have hup := Controller.bringUp_seen (c := { c with state := .starting }) hclosed hstopped
    apply hup.bind
    rintro ⟨rc, c'⟩ calls ⟨hseen, hc'⟩
    dsimp only at hc'
    subst hc'
    rw [← hidle] at hseen
    refine ⟨?_, failedClosed_settled⟩
    rw [append_nil]
    apply hi.settled hi.limit _ hseen
    rw [countP_append, hi.attempts]
    simp [Served.Attempts]

theorem recover_step (hi : Inv config h c) : c.recover.Ensures fun r calls =>
    Inv config (h ++ [(.recover, r.1, calls)]) r.2 ∧ FailedClosed .recover r calls := by
  unfold Controller.recover
  split
  · exact ⟨hi.refused .recover _, fun _ hne => absurd rfl hne⟩
  split
  · exact ⟨hi.refused .recover _, fun _ hne => absurd rfl hne⟩
  · next hmore =>
    rw [hi.config_eq] at hmore
    have hunwind := Controller.unwind_seen (c := { c with state := .recovering }) hi.sane
    apply hunwind.bind
    rintro _ calls ⟨hidle, rfl⟩
    apply ((Controller.bringUp_seen rfl rfl).and Controller.bringUp_powers).bind
    rintro ⟨rc, c'⟩ calls' ⟨⟨hseen, hc'⟩, hpowers⟩
    dsimp only at hc'
    subst hc'
    refine ⟨?_, failedClosed_settled⟩
    rw [append_nil]
    apply hi.settled (Nat.not_le.mp hmore)
    · rw [countP_append, hi.attempts, countP_singleton]
      simp [Served.Attempts, hpowers]
    · rw [Monitor.run_append]
      change (Controller.monitor { c with state := .recovering }).run calls >>= _ = _
      rw [hidle]
      exact hseen

theorem shutdown_step (hi : Inv config h c) : c.shutdown.Ensures fun r calls =>
    Inv config (h ++ [(.shutdown, r.1, calls)]) r.2 ∧ FailedClosed .shutdown r calls := by
  apply (Controller.shutdown_seen hi.sane).mono
  rintro ⟨rc, _⟩ calls ⟨hseen, rfl⟩
  refine ⟨⟨hi.config_eq, ?_, .inr ⟨.inl rfl, rfl, rfl⟩, ?_, hi.limit⟩,
    fun hne => absurd rfl hne⟩
  · rw [made_concat, Monitor.run_append, hi.seen]
    exact hseen
  · rw [countP_append, hi.attempts]
    simp [Served.Attempts]

/-- **One request**, whatever the operations return. -/
theorem serve_step (hi : Inv config h c) (request : Request) :
    (serve c request).Ensures fun r calls =>
      Inv config (h ++ [(request, r.1, calls)]) r.2 ∧ FailedClosed request r calls := by
  cases request with
  | start => exact start_step hi
  | recover => exact recover_step hi
  | shutdown => exact shutdown_step hi

end Step

theorem inv_init {config : Config} {c : Controller} (h : init config = .ok c) :
    Inv config [] c := by
  unfold init at h
  split at h
  · cases h
  · cases h
    exact ⟨rfl, rfl, .inr ⟨.inl rfl, rfl, rfl⟩, rfl, Nat.zero_le _⟩

/-- **The life cycle.** In every run of an initialised controller, whatever the operations return:
opens and closes balance up to the open transport; the host is stopped only after a successful start
that has not been stopped since; a ready controller has an open transport and a started host; a
start or a recovery that fails leaves the transport closed; and there are no more recovery attempts
than the limit. -/
theorem controller_lifecycle {σ : Type} (ops : Op → σ → Int × σ) (context : σ) {config : Config}
    {c₀ : Controller} (hinit : init config = .ok c₀) (requests : List Request) :
    let m := serving serve ops
    let h : List Served := m.trace (c₀, context) requests
    let c := (m.run (c₀, context) requests).1
    (made h).countP Done.Opens = (made h).countP Done.Closes + c.transportOpen.toNat ∧
    (∀ pre result post, made h = pre ++ (.stopHost, result) :: post →
      Outstanding Done.Starts Done.Stops pre) ∧
    (c.state = .ready → c.transportOpen = true ∧ c.hostStarted = true) ∧
    (∀ request, request ≠ .shutdown →
      let o := (serve c request).exec ops (m.run (c₀, context) requests).2
      o.calls ≠ [] → o.value.1 ≠ 0 →
        (made h ++ o.calls).countP Done.Opens = (made h ++ o.calls).countP Done.Closes) ∧
    h.countP Served.Attempts ≤ config.maxRecoveries := by
  intro m h c
  have hstep : ∀ h c request, Inv config h c → (serve c request).Ensures fun r calls =>
      Inv config (h ++ [(request, r.1, calls)]) r.2 :=
    fun h c request hi => (serve_step hi request).mono fun _ _ hstep => hstep.1
  have hi : Inv config h c := serving_invariant hstep (inv_init hinit) context requests
  have hbalance : ∀ {log : List Done} {c : Controller}, Monitor.idle.run log = some c.monitor →
      log.countP Done.Opens = log.countP Done.Closes + c.transportOpen.toNat := by
    intro log c hseen
    have := Monitor.run_balance hseen
    simp only [Monitor.idle, Controller.monitor, Bool.toNat_false] at this
    omega
  refine ⟨hbalance hi.seen, ?_, ?_, ?_, ?_⟩
  · intro pre result post heq
    have hseen := hi.seen
    rw [heq] at hseen
    exact Monitor.stopped_outstanding hseen
  · intro hready
    rcases hi.flags with ⟨-, hflags⟩ | ⟨hstate, -⟩
    · exact hflags
    · rw [hready] at hstate
      exact absurd hstate (by decide)
  · intro request hrequest o hcalls hrc
    obtain ⟨hnext, hfailed⟩ := (serve_step hi request).exec ops (m.run (c₀, context) requests).2
    have hclosed := hfailed hrequest hcalls hrc
    have hseen := hnext.seen
    rw [made_concat] at hseen
    have := hbalance hseen
    rw [hclosed] at this
    exact this
  · rw [hi.attempts]
    exact hi.limit

/-- A controller whose firmware cannot be loaded: a start, and the one recovery it may try. -/
theorem controller_lifecycle_failing :
    let config : Config := ⟨115200, 921600, 1⟩
    let ops : Op → Unit → Int × Unit := fun op _ => (if op = .loadFirmware then - EIO else 0, ())
    (Machine.trace (serving serve ops) (⟨config, .off, 0, false, false⟩, ())
      [.start, .recover, .recover]).countP Served.Attempts ≤ 1 :=
  (controller_lifecycle _ () (show init ⟨115200, 921600, 1⟩ = .ok _ from rfl)
    [.start, .recover, .recover]).2.2.2.2

end Brickwright.Bluetooth.Lifecycle
