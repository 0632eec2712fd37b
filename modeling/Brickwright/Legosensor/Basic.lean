import Brickwright.Machine.Threads

/-!
# Sensor classes and their ports

`legosensor_uorb.c`: six topics, one for each class of device, and a port bound to each at most. Six
threads report what happens on the ports; any number of others claim a class through a file and
write to its port. The bindings and the claims are under one lock, the telemetry of each port is
under one of its own, no two of them are ever held together, and events are pushed outside of all of
them: each is a section by itself.

`changes` counts the changes of a binding without ever wrapping, unlike `bindGeneration`, and
`claimedAt` is its value when the class was last claimed; the code knows neither.
-/

namespace Brickwright.Legosensor

/-- `enum legosensor_class_e`, less `LEGOSENSOR_CLASS_NONE`. -/
inductive Class where
  | color
  | ultrasonic
  | force
  | motorM
  | motorR
  | motorL
  deriving DecidableEq, Repr

def classes : List Class := [.color, .ultrasonic, .force, .motorM, .motorR, .motorL]

theorem mem_classes (c : Class) : c ∈ classes := by cases c <;> decide

def Class.isMotor : Class → Bool
  | .motorM | .motorR | .motorL => true
  | _ => false

/-- `legosensor_classify`. -/
def classify (typeId : UInt8) (port : Nat) : Option Class :=
  if typeId = 61 then some .color
  else if typeId = 62 then some .ultrasonic
  else if typeId = 63 then some .force
  else if typeId = 49 then some .motorM
  else if typeId = 48 then some (if port % 2 = 0 then .motorR else .motorL)
  else none

/-- `struct lump_mode_info_s`. -/
structure ModeInfo where
  numValues : UInt8
  dataType : UInt8
  deriving DecidableEq, Repr

/-- `struct lump_device_info_s`. -/
structure DeviceInfo where
  typeId : UInt8 := 0
  currentMode : UInt8 := 0
  modes : List ModeInfo := []
  deriving DecidableEq, Repr

/-- `struct lump_sample_s`, less its time and payload. -/
structure Sample where
  seq : UInt32
  generation : UInt32
  port : Nat
  typeId : UInt8 := 0
  modeId : UInt8 := 0
  dataType : UInt8 := 0
  numValues : UInt8 := 0
  len : Nat := 0
  deriving DecidableEq, Repr

/-- `struct legosensor_class_state_s`. -/
structure ClassState where
  boundPort : Option Nat := none
  bindGeneration : UInt32 := 0
  claimOwner : Option Nat := none
  claimBindGen : UInt32 := 0
  changes : Nat := 0
  claimedAt : Nat := 0
  deriving DecidableEq, Repr

/-- `struct legosensor_port_s`; `engaged` says that a sync has been reported that no error has
followed. -/
structure PortState where
  synced : Bool := false
  seq : UInt32 := 0
  generation : UInt32 := 0
  typeId : UInt8 := 0
  modeId : UInt8 := 0
  pendingSelectMode : UInt8 := 0xff
  infoCache : DeviceInfo := {}
  engaged : Bool := false
  deriving DecidableEq, Repr

structure Shared where
  cls : Class → ClassState := fun _ => {}
  ports : Nat → PortState := fun _ => {}

def Shared.setCls (s : Shared) (c : Class) (cs : ClassState) : Shared :=
  { s with cls := Function.update s.cls c cs }

def Shared.setPort (s : Shared) (p : Nat) (ps : PortState) : Shared :=
  { s with ports := Function.update s.ports p ps }

@[simp] theorem Shared.setPort_cls (s : Shared) (p : Nat) (ps : PortState) :
    (s.setPort p ps).cls = s.cls := rfl

@[simp] theorem Shared.setPort_self (s : Shared) (p : Nat) (ps : PortState) :
    (s.setPort p ps).ports p = ps := Function.update_self ..

theorem Shared.setPort_of_ne (s : Shared) {p q : Nat} (h : q ≠ p) (ps : PortState) :
    (s.setPort p ps).ports q = s.ports q := Function.update_of_ne h ..

@[simp] theorem Shared.setCls_ports (s : Shared) (c : Class) (cs : ClassState) :
    (s.setCls c cs).ports = s.ports := rfl

@[simp] theorem Shared.setCls_self (s : Shared) (c : Class) (cs : ClassState) :
    (s.setCls c cs).cls c = cs := Function.update_self ..

theorem Shared.setCls_of_ne (s : Shared) {c c' : Class} (h : c' ≠ c) (cs : ClassState) :
    (s.setCls c cs).cls c' = s.cls c' := Function.update_of_ne h ..

theorem Shared.setCls_cases {P : ClassState → ClassState → Prop} (s : Shared) {c : Class}
    {cs : ClassState} (hself : P (s.cls c) cs) (hother : ∀ cs', P cs' cs') (c' : Class) :
    P (s.cls c') ((s.setCls c cs).cls c') := by
  by_cases h : c' = c
  · subst h
    rw [setCls_self]
    exact hself
  · rw [setCls_of_ne s h]
    exact hother _

def noPending : UInt8 := 0xff
def maxDataBytes : Nat := 32

/-! ## Samples -/

/-- `legosensor_build_envelope`. -/
def PortState.envelope (ps : PortState) (port : Nat) (mode : UInt8) (len : Nat) : Sample :=
  let shape := if ps.synced then ps.infoCache.modes[mode.toNat]? else none
  { seq := ps.seq, generation := ps.generation, port := port, typeId := ps.typeId, modeId := mode
    dataType := (shape.map ModeInfo.dataType).getD 0
    numValues := (shape.map ModeInfo.numValues).getD 0
    len := min len maxDataBytes }

/-- `legosensor_build_disconnect_locked`. -/
def PortState.disconnect (ps : PortState) (port : Nat) : PortState × Sample :=
  let ps := { ps with seq := ps.seq + 1, generation := ps.generation + 1 }
  (ps, { seq := ps.seq, generation := ps.generation, port := port })

/-! ## Bindings -/

/-- `enum legosensor_bind_result_e`, with the port that was displaced. -/
inductive BindResult where
  | boundFresh
  | boundDisplaced (port : Nat)
  | loss
  deriving DecidableEq, Repr

def ClassState.rebind (cs : ClassState) (port : Option Nat) : ClassState :=
  { cs with
    boundPort := port
    bindGeneration := cs.bindGeneration + 1
    changes := cs.changes + 1 }

/-- `legosensor_try_bind`, of a port whose class is known. -/
def ClassState.tryBind (cs : ClassState) (port : Nat) : ClassState × BindResult :=
  match cs.boundPort with
  | none => (cs.rebind (some port), .boundFresh)
  | some bound =>
    if bound > port then (cs.rebind (some port), .boundDisplaced bound) else (cs, .loss)

theorem ClassState.tryBind_fresh {cs cs' : ClassState} {port : Nat}
    (h : cs.tryBind port = (cs', .boundFresh)) :
    cs.boundPort = none ∧ cs' = cs.rebind (some port) := by
  unfold tryBind at h
  split at h
  · next hbound => exact ⟨hbound, (Prod.mk.inj h).1.symm⟩
  · split at h <;> cases (Prod.mk.inj h).2

/-- A port is displaced only by one with a lower number. -/
theorem ClassState.tryBind_displaced {cs cs' : ClassState} {port displaced : Nat}
    (h : cs.tryBind port = (cs', .boundDisplaced displaced)) :
    cs.boundPort = some displaced ∧ port < displaced ∧ cs' = cs.rebind (some port) := by
  unfold tryBind at h
  split at h
  · cases (Prod.mk.inj h).2
  · next bound hbound =>
    split at h
    · next hlt =>
      cases h
      exact ⟨hbound, hlt, rfl⟩
    · cases (Prod.mk.inj h).2

/-- `legosensor_class_of`. -/
def Shared.classOf (s : Shared) (port : Nat) : Option Class :=
  classes.find? fun c => (s.cls c).boundPort == some port

theorem Shared.boundPort_of_classOf {s : Shared} {port : Nat} {c : Class}
    (h : s.classOf port = some c) : (s.cls c).boundPort = some port := by
  simpa using List.find?_some h

theorem Shared.classOf_eq_none {s : Shared} {port : Nat} (h : s.classOf port = none) (c : Class) :
    (s.cls c).boundPort ≠ some port := by
  simpa using List.find?_eq_none.mp h c (mem_classes c)

/-- `legosensor_unbind`. -/
def Shared.unbind (s : Shared) (port : Nat) : Shared × Option Class :=
  match s.classOf port with
  | none => (s, none)
  | some c => (s.setCls c ((s.cls c).rebind none), some c)

theorem Shared.unbind_cases {s s' : Shared} {port : Nat} {lost : Option Class}
    (h : s.unbind port = (s', lost)) :
    (lost = none ∧ s' = s ∧ ∀ c, (s.cls c).boundPort ≠ some port) ∨
      ∃ c, lost = some c ∧ (s.cls c).boundPort = some port ∧
        s' = s.setCls c ((s.cls c).rebind none) := by
  unfold unbind at h
  split at h
  · next hnone =>
    cases h
    exact .inl ⟨rfl, rfl, classOf_eq_none hnone⟩
  · next c hc =>
    cases h
    exact .inr ⟨c, rfl, boundPort_of_classOf hc, rfl⟩

/-! ## Claims -/

def ENODEV : Int := 19
def EACCES : Int := 13
def EBUSY : Int := 16
def EINVAL : Int := 22
def ENOTTY : Int := 25
def ENOTSUP : Int := 138

/-- `legosensor_check_write_claim`: the port that may be written to. -/
def ClassState.checkWriteClaim (cs : ClassState) (filep : Nat) : Except Int Nat :=
  match cs.boundPort with
  | none => .error (-ENODEV)
  | some port =>
    if cs.claimOwner = some filep then
      if cs.claimBindGen ≠ cs.bindGeneration then .error (-ENODEV) else .ok port
    else .error (-EACCES)

/-- `LEGOSENSOR_CLAIM`. -/
def ClassState.claim (cs : ClassState) (filep : Nat) : ClassState × Int :=
  if cs.boundPort = none then (cs, -ENODEV)
  else if cs.claimOwner = some filep ∧ cs.claimBindGen = cs.bindGeneration then
    ({ cs with claimedAt := cs.changes }, 0)
  else if cs.claimOwner = none ∨ cs.claimBindGen ≠ cs.bindGeneration then
    ({ cs with
        claimOwner := some filep
        claimBindGen := cs.bindGeneration
        claimedAt := cs.changes }, 0)
  else (cs, -EBUSY)

/-- `LEGOSENSOR_RELEASE`. -/
def ClassState.release (cs : ClassState) (filep : Nat) : ClassState × Int :=
  if cs.claimOwner ≠ some filep ∨ cs.claimBindGen ≠ cs.bindGeneration then (cs, -EACCES)
  else ({ cs with claimOwner := none, claimBindGen := 0 }, 0)

/-- `legosensor_close`. -/
def ClassState.close (cs : ClassState) (filep : Nat) : ClassState :=
  if cs.claimOwner = some filep then { cs with claimOwner := none, claimBindGen := 0 } else cs

def ClassState.binding (cs : ClassState) : Option Nat × UInt32 × Nat :=
  (cs.boundPort, cs.bindGeneration, cs.changes)

theorem ClassState.binding_claim (cs : ClassState) (filep : Nat) :
    (cs.claim filep).1.binding = cs.binding := by
  unfold claim
  repeat' split
  all_goals rfl

theorem ClassState.binding_release (cs : ClassState) (filep : Nat) :
    (cs.release filep).1.binding = cs.binding := by
  unfold release
  split <;> rfl

theorem ClassState.binding_close (cs : ClassState) (filep : Nat) :
    (cs.close filep).binding = cs.binding := by
  unfold close
  split <;> rfl

inductive Command where
  | select (mode : UInt8)
  | send (mode : UInt8) (len : Nat)
  | setPwm (numChannels : Nat) (duty : Int)
  /-- The coast and brake of a motor class. -/
  | coast (expected : Class)
  | brake (expected : Class)
  deriving DecidableEq, Repr

/-- What `legosensor_control` checks before the claim. -/
def Command.check (c : Class) : Command → Except Int Unit
  | .select _ => .ok ()
  | .send _ len => if len = 0 ∨ len > maxDataBytes then .error (-EINVAL) else .ok ()
  | .setPwm numChannels duty =>
    if c.isMotor ∧ (numChannels ≠ 1 ∨ duty < -10000 ∨ duty > 10000) then .error (-EINVAL)
    else .ok ()
  | .coast expected | .brake expected => if c ≠ expected then .error (-ENOTTY) else .ok ()

/-- No class but those of the motors has a PWM. -/
def Command.supported (c : Class) : Command → Bool
  | .setPwm .. => c.isMotor
  | _ => true

/-! ## The threads -/

/-- Where the thread of a port is. A number is that of the change of the binding behind the section
that looked at it. -/
inductive Stage where
  | idle
  /-- `legosensor_on_sync`. -/
  | binding (c : Class)
  | unsettling (c : Class) (at_ displaced : Nat)
  | disowning (c : Class) (at_ : Nat) (disc : Sample)
  | naming (c : Class) (at_ : Nat)
  | announcing (c : Class) (at_ : Nat) (sentinel : Sample)
  /-- `legosensor_on_data`. -/
  | hydrating (mode : UInt8) (len : Nat)
  | lookingUp (mode : UInt8) (len : Nat) (sentinel : Option Sample)
  | refreshing (c : Class) (at_ : Nat) (sentinel : Sample) (mode : UInt8) (len : Nat)
  | sampling (c : Class) (at_ : Nat) (mode : UInt8) (len : Nat)
  | reporting (c : Class) (at_ : Nat) (sample : Sample)
  /-- `legosensor_on_error`. -/
  | resetting (lost : Option (Class × Nat))
  | parting (c : Class) (at_ : Nat) (sentinel : Sample)
  deriving DecidableEq

/-- Where a thread that uses the files is. -/
inductive Use where
  | ready
  /-- The claim has been checked: after which change of the binding, and behind which it was
  made. -/
  | arming (c : Class) (filep port claimed checked : Nat) (mode : UInt8)
  | acting (c : Class) (filep port claimed checked : Nat) (command : Command)
  | disarming (filep port : Nat) (rc : Int)
  deriving DecidableEq

inductive Point where
  | port (p : Nat) (stage : Stage)
  | user (use : Use)
  deriving DecidableEq

inductive Input where
  /-- The LUMP engine calls. -/
  | sync (info : DeviceInfo)
  | data (mode : UInt8) (len : Nat)
  | error
  /-- A file is used. -/
  | claim (c : Class) (filep : Nat)
  | release (c : Class) (filep : Nat)
  | close (c : Class) (filep : Nat)
  | write (c : Class) (filep : Nat) (command : Command)
  /-- The next section, with what `lump_get_info` answers, whether the deadline of a SELECT is over,
  and what the port answers. -/
  | go (info : Option DeviceInfo) (late : Bool) (rc : Int)

inductive Note where
  | binds (c : Class) (port change : Nat)
  | pushes (c : Class) (sample : Sample)
  /-- The last event of a new binding has been pushed. -/
  | announces (c : Class) (port change : Nat)
  | claims (c : Class) (filep change : Nat)
  | acts (c : Class) (filep port claimed : Nat) (command : Command)
  | returns (filep : Nat) (rc : Int)
  deriving DecidableEq

def PortState.sync (ps : PortState) (info : DeviceInfo) : PortState :=
  { ps with
    infoCache := info, synced := true, typeId := info.typeId, modeId := info.currentMode
    pendingSelectMode := noPending, seq := ps.seq + 1, generation := ps.generation + 1
    engaged := true }

/-- The hydration of `legosensor_on_data`, with the sentinel it builds. -/
def PortState.hydrate (ps : PortState) (port : Nat) (info : DeviceInfo) :
    PortState × Option Sample :=
  if info.typeId ≠ ps.infoCache.typeId ∨ info.modes.length ≠ ps.infoCache.modes.length then
    let ps := { ps with
      infoCache := info, typeId := info.typeId, modeId := info.currentMode
      generation := ps.generation + 1, seq := ps.seq + 1, synced := true }
    (ps, some (ps.envelope port ps.modeId 0))
  else ({ ps with synced := true }, none)

/-- The last section of `legosensor_on_data` under the lock of the port. -/
def PortState.sample (ps : PortState) (port : Nat) (mode : UInt8) (len : Nat) (late : Bool) :
    PortState × Sample :=
  let ps :=
    if ps.pendingSelectMode ≠ noPending then
      if late then { ps with pendingSelectMode := noPending }
      else if mode = ps.pendingSelectMode then
        { ps with generation := ps.generation + 1, pendingSelectMode := noPending }
      else ps
    else ps
  let ps := { ps with modeId := mode, seq := ps.seq + 1 }
  (ps, ps.envelope port mode len)

def PortState.fail (ps : PortState) : PortState :=
  { ps with
    synced := false, typeId := 0, modeId := 0, pendingSelectMode := noPending, seq := ps.seq + 1
    generation := ps.generation + 1, infoCache := {}, engaged := false }

theorem PortState.engaged_disconnect (ps : PortState) (port : Nat) :
    (ps.disconnect port).1.engaged = ps.engaged := rfl

theorem PortState.port_disconnect (ps : PortState) (port : Nat) :
    (ps.disconnect port).2.port = port := rfl

theorem PortState.port_hydrate (ps : PortState) (port : Nat) (info : DeviceInfo) :
    ∀ x ∈ (ps.hydrate port info).2, x.port = port := by
  unfold hydrate
  split
  · rintro x ⟨⟩
    rfl
  · nofun

theorem PortState.port_sample (ps : PortState) (port : Nat) (mode : UInt8) (len : Nat)
    (late : Bool) : (ps.sample port mode len late).2.port = port := rfl

theorem PortState.engaged_hydrate (ps : PortState) (port : Nat) (info : DeviceInfo) :
    (ps.hydrate port info).1.engaged = ps.engaged := by
  unfold hydrate
  split <;> rfl

theorem PortState.engaged_sample (ps : PortState) (port : Nat) (mode : UInt8) (len : Nat)
    (late : Bool) : (ps.sample port mode len late).1.engaged = ps.engaged := by
  unfold sample
  repeat' split
  all_goals rfl

/-- One section of the thread of a port. A sync comes only behind an error. -/
def portBody (s : Shared) (p : Nat) : Stage → Input → Shared × List Note × Stage
  | .idle, .sync info =>
    if (s.ports p).engaged then (s, [], .idle)
    else
      (s.setPort p ((s.ports p).sync info), [],
        match classify info.typeId p with
        | none => .idle
        | some c => .binding c)
  | .binding c, .go .. =>
    let (cs, result) := (s.cls c).tryBind p
    match result with
    | .boundFresh => (s.setCls c cs, [.binds c p cs.changes], .naming c cs.changes)
    | .boundDisplaced displaced =>
      (s.setCls c cs, [.binds c p cs.changes], .unsettling c cs.changes displaced)
    | .loss => (s, [], .idle)
  | .unsettling c n displaced, .go .. =>
    let (ps, disc) := (s.ports displaced).disconnect displaced
    (s.setPort displaced ps, [], .disowning c n disc)
  | .disowning c n disc, .go .. => (s, [.pushes c disc], .naming c n)
  | .naming c n, .go .. =>
    (s, [], .announcing c n ((s.ports p).envelope p (s.ports p).modeId 0))
  | .announcing c n sentinel, .go .. => (s, [.pushes c sentinel, .announces c p n], .idle)
  | .idle, .data mode len =>
    (s, [], if (s.ports p).synced ∧ (s.ports p).infoCache.modes ≠ [] then .lookingUp mode len none
      else .hydrating mode len)
  | .hydrating mode len, .go info _ _ =>
    match info with
    | none => (s, [], .lookingUp mode len none)
    | some info =>
      let (ps, sentinel) := (s.ports p).hydrate p info
      (s.setPort p ps, [], .lookingUp mode len sentinel)
  | .lookingUp mode len sentinel, .go .. =>
    (s, [],
      match s.classOf p with
      | none => .idle
      | some c =>
        match sentinel with
        | none => .sampling c (s.cls c).changes mode len
        | some sentinel => .refreshing c (s.cls c).changes sentinel mode len)
  | .refreshing c n sentinel mode len, .go .. => (s, [.pushes c sentinel], .sampling c n mode len)
  | .sampling c n mode len, .go _ late _ =>
    let (ps, sample) := (s.ports p).sample p mode len late
    (s.setPort p ps, [], .reporting c n sample)
  | .reporting c _ sample, .go .. => (s, [.pushes c sample], .idle)
  | .idle, .error =>
    let (s, lost) := s.unbind p
    (s, [], .resetting (lost.map fun c => (c, (s.cls c).changes)))
  | .resetting lost, .go .. =>
    let ps := (s.ports p).fail
    (s.setPort p ps, [],
      match lost with
      | none => .idle
      | some (c, n) =>
        .parting c n { seq := ps.seq, generation := ps.generation, port := p })
  | .parting c _ sentinel, .go .. => (s, [.pushes c sentinel], .idle)
  | stage, _ => (s, [], stage)

/-- One section of a thread that uses the files. -/
def userBody (s : Shared) : Use → Input → Shared × List Note × Use
  | .ready, .claim c filep =>
    let (cs, rc) := (s.cls c).claim filep
    (s.setCls c cs, (if rc = 0 then [.claims c filep cs.changes] else []) ++ [.returns filep rc],
      .ready)
  | .ready, .release c filep =>
    let (cs, rc) := (s.cls c).release filep
    (s.setCls c cs, [.returns filep rc], .ready)
  | .ready, .close c filep => (s.setCls c ((s.cls c).close filep), [.returns filep 0], .ready)
  | .ready, .write c filep command =>
    match command.check c with
    | .error rc => (s, [.returns filep rc], .ready)
    | .ok () =>
      match (s.cls c).checkWriteClaim filep with
      | .error rc => (s, [.returns filep rc], .ready)
      | .ok port =>
        if !command.supported c then (s, [.returns filep (-ENOTSUP)], .ready)
        else
          match command with
          | .select mode =>
            (s, [], .arming c filep port (s.cls c).claimedAt (s.cls c).changes mode)
          | command => (s, [], .acting c filep port (s.cls c).claimedAt (s.cls c).changes command)
  | .arming c filep port claimed checked mode, .go .. =>
    (s.setPort port { s.ports port with pendingSelectMode := mode }, [],
      .acting c filep port claimed checked (.select mode))
  | .acting c filep port claimed _ command, .go _ _ rc =>
    match command with
    | .select mode =>
      if rc < 0 then (s, [.acts c filep port claimed (.select mode)], .disarming filep port rc)
      else (s, [.acts c filep port claimed (.select mode), .returns filep rc], .ready)
    | command => (s, [.acts c filep port claimed command, .returns filep rc], .ready)
  | .disarming filep port rc, .go .. =>
    (s.setPort port { s.ports port with pendingSelectMode := noPending }, [.returns filep rc],
      .ready)
  | use, _ => (s, [], use)

def threads : Threads Shared Point Input Note where
  body s pc input :=
    match pc with
    | .port p stage =>
      let (s, notes, stage) := portBody s p stage input
      (s, notes, .port p stage)
    | .user use =>
      let (s, notes, use) := userBody s use input
      (s, notes, .user use)

/-- `LEGOSENSOR_NUM_PORTS`. -/
def numPorts : Nat := 6

/-- The first six threads are those of the ports. -/
def boot : Threads.State Shared Point where
  shared := {}
  pc i := if i < numPorts then .port i .idle else .user .ready

end Brickwright.Legosensor
