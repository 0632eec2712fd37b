import Brickwright.Bytes.Buffers
import Brickwright.Machine.History
import Brickwright.Ring.Compaction

/-!
# The command ring of `/dev/drivebase`

User tasks put commands into a ring of the kernel driver, and the daemon that runs the drivebase
takes them out. A STOP does more: before its envelope is pushed it bumps `output_epoch` and stops
both motors from the caller's own context. The daemon remembers the epoch of the STOP it acted on
and drops the drive commands of an earlier one.

The driver is `stm32_drivebase_chardev.c`, the daemon's side `drivebase_chardev_handler.c`. Between
two sections of a task, other tasks and the daemon may run: a drive ioctl reads the epoch and then
pushes, a STOP bumps the epoch, then actuates, then pushes, and the daemon picks an envelope up and
then dispatches it.
-/

namespace Brickwright.Drivebase.Chardev

def EAGAIN : Int := 11
def EFAULT : Int := 14
def EBUSY : Int := 16
def EINVAL : Int := 22
def ENOTTY : Int := 25
def ENOTCONN : Int := 107

inductive Cmd where
  | config
  | reset
  | driveStraight
  | driveCurve
  | driveArcAngle
  | driveArcDistance
  | driveForever
  | turn
  | stop
  | spikeDriveForever
  | spikeDriveTime
  | spikeDriveAngle
  | setDriveSettings
  | setUseGyro
  deriving DecidableEq, Repr

/-- `struct drivebase_cmd_envelope_s`. The sequence number is counted without its wrap: it is
written and never compared. -/
structure Envelope where
  cmdKind : Cmd
  cmdSeq : Nat
  epoch : UInt32
  payload : List UInt8
  deriving DecidableEq, Repr

def Envelope.zero : Envelope := ⟨.config, 0, 0, []⟩

def Envelope.isStop (env : Envelope) : Bool := env.cmdKind == .stop

/-! ## The driver -/

def cmdRingDepth : Nat := 8
def cmdPayloadBytes : Nat := 24
def portIdxInvalid : UInt8 := 0xff

/-- `DB_CMD_RING_NEXT`. -/
def cmdRingNext (i : Nat) : Nat := (i + 1) % cmdRingDepth

/-- `DB_CMD_RING_PREV`. -/
def cmdRingPrev (i : Nat) : Nat := (i + cmdRingDepth - 1) % cmdRingDepth

/-- What the driver counts for `DRIVEBASE_GET_STATUS`. -/
structure Status where
  cmdRingDepth : Nat := 0
  cmdDropCount : Nat := 0
  lastCmdSeq : Nat := 0
  deriving DecidableEq, Repr

/-- `struct db_chardev_s`. -/
structure Dev where
  cmdBuf : List Envelope
  cmdHead : Nat
  cmdTail : Nat
  cmdSeq : Nat
  outputEpoch : UInt32
  attached : Bool
  motorLPortIdx : UInt8
  motorRPortIdx : UInt8
  defaultOnCompletion : UInt8
  status : Status
  deriving DecidableEq, Repr

/-- The driver when a daemon has attached for the first time. -/
def Dev.afterAttach (motorLPortIdx motorRPortIdx defaultOnCompletion : UInt8) : Dev where
  cmdBuf := List.replicate cmdRingDepth .zero
  cmdHead := 0
  cmdTail := 0
  cmdSeq := 0
  outputEpoch := 0
  attached := true
  motorLPortIdx := motorLPortIdx
  motorRPortIdx := motorRPortIdx
  defaultOnCompletion := defaultOnCompletion
  status := {}

namespace Dev

/-- `memset` and `memcpy` of a payload. -/
def payloadCell (payload : List UInt8) : List UInt8 :=
  payload ++ List.replicate (cmdPayloadBytes - payload.length) 0

def cell (dev : Dev) (i : Nat) : Envelope := dev.cmdBuf.getD i .zero

/-- The most recently pushed envelope is a STOP, and still in the ring. -/
def newestIsStop (dev : Dev) : Bool :=
  dev.cmdHead != dev.cmdTail && (dev.cell (cmdRingPrev dev.cmdHead)).isStop

/-- "STOP coalesce": the newest envelope is overwritten in place. -/
def coalesce (dev : Dev) (epoch : UInt32) (payload : List UInt8) : Dev :=
  let prev := cmdRingPrev dev.cmdHead
  let cell := dev.cell prev
  let payload := if payload.length > 0 then payloadCell payload else cell.payload
  { dev with
    cmdBuf := dev.cmdBuf.set prev
      { cell with epoch := epoch, cmdSeq := dev.cmdSeq + 1, payload := payload }
    cmdSeq := dev.cmdSeq + 1
    status := { dev.status with lastCmdSeq := dev.cmdSeq + 1 } }

/-- The oldest envelope that is not a STOP is dropped, and those behind it move down one cell. -/
def dropOldest (dev : Dev) : Dev :=
  match Ring.firstCell (fun env => !env.isStop) .zero dev.cmdBuf dev.cmdHead cmdRingDepth
      dev.cmdTail with
  | none => dev
  | some i =>
    let (cmdBuf, head) := Ring.closeGap .zero dev.cmdHead cmdRingDepth dev.cmdBuf i
    { dev with
      cmdBuf := cmdBuf
      cmdHead := head
      status := { dev.status with cmdDropCount := dev.status.cmdDropCount + 1 } }

def store (dev : Dev) (cmdKind : Cmd) (epoch : UInt32) (payload : List UInt8) : Dev :=
  let next := cmdRingNext dev.cmdHead
  { dev with
    cmdBuf := dev.cmdBuf.set dev.cmdHead
      { cmdKind := cmdKind, cmdSeq := dev.cmdSeq + 1, epoch := epoch,
        payload := payloadCell payload }
    cmdSeq := dev.cmdSeq + 1
    cmdHead := next
    status := { dev.status with
      lastCmdSeq := dev.cmdSeq + 1
      cmdRingDepth := (next + Chardev.cmdRingDepth - dev.cmdTail) % Chardev.cmdRingDepth } }

def full (dev : Dev) : Bool := cmdRingNext dev.cmdHead == dev.cmdTail

/-- `db_push_envelope`. `lock` is what `nxmutex_lock` returned. -/
def pushEnvelope (dev : Dev) (lock : Int) (cmdKind : Cmd) (epoch : UInt32)
    (payload : List UInt8) : Dev × Int :=
  if payload.length > cmdPayloadBytes then (dev, -EINVAL)
  else if lock < 0 then (dev, lock)
  else if cmdKind = .stop then
    if dev.newestIsStop then (dev.coalesce epoch payload, 0)
    else if dev.full then (dev.dropOldest.store cmdKind epoch payload, 0)
    else (dev.store cmdKind epoch payload, 0)
  else if dev.full then
    ({ dev with status := { dev.status with cmdDropCount := dev.status.cmdDropCount + 1 } }, -EBUSY)
  else (dev.store cmdKind epoch payload, 0)

/-- `db_pop_envelope`. `outOk` says whether the daemon's buffer is writable. -/
def popEnvelope (dev : Dev) (outOk : Bool) (lock : Int) : Dev × Except Int Envelope :=
  if outOk = false then (dev, .error (-EFAULT))
  else if lock < 0 then (dev, .error lock)
  else if dev.cmdHead = dev.cmdTail then (dev, .error (-EAGAIN))
  else
    let next := cmdRingNext dev.cmdTail
    ({ dev with
        cmdTail := next
        status := { dev.status with
          cmdRingDepth := (dev.cmdHead + Chardev.cmdRingDepth - next) % Chardev.cmdRingDepth } },
      .ok (dev.cell dev.cmdTail))

end Dev

/-! ## The daemon -/

/-- The calls of `dispatch_envelope` into the drivebase. -/
inductive Call where
  | init (wheelDUm axleTUm : UInt32)
  | reset
  | setOrigin (distanceMm angleMdeg : Int)
  | driveStraight (distanceMm speedMmps : Int) (onCompletion : UInt8)
  | turn (angleDeg turnRateDps : Int) (onCompletion : UInt8)
  | driveCurve (radiusMm angleDeg : Int) (onCompletion : UInt8)
  | driveArcDistance (radiusMm distanceMm : Int) (onCompletion : UInt8)
  | driveForever (speedMmps turnRateDps : Int)
  | stop (onCompletion : UInt8)
  | setUseGyro (useGyro : UInt8)
  deriving DecidableEq, Repr

/-- `struct db_chardev_handler_s`. -/
structure Handler where
  outputEpochSeen : UInt32 := 0
  configured : Bool := false
  wheelDUm : UInt32 := 0
  axleTUm : UInt32 := 0
  deriving DecidableEq, Repr

/-- The `int32_t` at an offset of a payload. -/
def int32At (payload : List UInt8) (offset : Nat) : Int :=
  Bytes.int32 ((payload.drop offset).take 4)

def uint32At (payload : List UInt8) (offset : Nat) : UInt32 :=
  UInt32.ofNat (Bytes.leNat ((payload.drop offset).take 4))

def uint8At (payload : List UInt8) (offset : Nat) : UInt8 := payload.getD offset 0

/-- The call a drive command is, with its arguments. -/
def driveCall (cmdKind : Cmd) (payload : List UInt8) : Option Call :=
  match cmdKind with
  | .driveStraight =>
    some (.driveStraight (int32At payload 0) (int32At payload 8) (uint8At payload 4))
  | .turn => some (.turn (int32At payload 0) (int32At payload 8) (uint8At payload 4))
  | .driveCurve | .driveArcAngle =>
    some (.driveCurve (int32At payload 0) (int32At payload 4) (uint8At payload 8))
  | .driveArcDistance =>
    some (.driveArcDistance (int32At payload 0) (int32At payload 4) (uint8At payload 8))
  | .driveForever => some (.driveForever (int32At payload 0) (int32At payload 4))
  | _ => none

/-- `dispatch_envelope`: the handler afterwards and the calls it made. `initRc` and `resetRc` are
what `db_drivebase_init` and `db_drivebase_reset` return. -/
def Handler.dispatchEnvelope (h : Handler) (env : Envelope) (initRc resetRc : Int) :
    Handler × List Call :=
  match env.cmdKind with
  | .config =>
    if env.epoch < h.outputEpochSeen then (h, [])
    else if h.configured then (h, [])
    else
      let wheelDUm := uint32At env.payload 0
      let axleTUm := uint32At env.payload 4
      let h := { h with wheelDUm := wheelDUm, axleTUm := axleTUm }
      if initRc < 0 then (h, [.init wheelDUm axleTUm])
      else if resetRc = 0 then
        ({ h with configured := true }, [.init wheelDUm axleTUm, .reset])
      else (h, [.init wheelDUm axleTUm, .reset])
  | .reset => (h, [.setOrigin (int32At env.payload 0) (int32At env.payload 4)])
  | .driveStraight | .turn | .driveCurve | .driveArcAngle | .driveArcDistance | .driveForever =>
    if env.epoch < h.outputEpochSeen then (h, [])
    else if h.configured = false then (h, [])
    else (h, (driveCall env.cmdKind env.payload).toList)
  | .stop =>
    ({ h with outputEpochSeen := env.epoch },
      if h.configured then [.stop (uint8At env.payload 0)] else [])
  | .setUseGyro =>
    if h.configured = false then (h, []) else (h, [.setUseGyro (uint8At env.payload 0)])
  | .setDriveSettings | .spikeDriveForever | .spikeDriveTime | .spikeDriveAngle => (h, [])

/-! ## The tasks -/

inductive Arg where
  | null
  | unreadable
  | at (memory : Nat → UInt8)

/-- The bytes of a struct in user memory. -/
def readArg (memory : Nat → UInt8) (len : Nat) : List UInt8 := (List.range len).map memory

/-- Where a user task stands in its ioctl. -/
inductive Caller where
  | idle
  /-- `db_handle_user_drive` has read the epoch. -/
  | drive (cmd : Cmd) (epoch : UInt32)
  /-- `db_handle_stop` has bumped the epoch. -/
  | stopBumped (arg : List UInt8) (epoch : UInt32)
  /-- It has stopped the motors. -/
  | stopActuated (arg : List UInt8) (epoch : UInt32)
  deriving DecidableEq

/-- The size of each argument struct, as `db_handle_user_drive` has it. -/
def payloadLen : Cmd → Option Nat
  | .config => some 16
  | .reset => some 16
  | .driveStraight => some 12
  | .driveCurve => some 16
  | .driveArcAngle => some 16
  | .driveArcDistance => some 16
  | .driveForever => some 8
  | .turn => some 12
  | .spikeDriveForever => some 8
  | .spikeDriveTime => some 16
  | .spikeDriveAngle => some 16
  | .setDriveSettings => some 24
  | .setUseGyro => some 8
  | .stop => none

/-- What happens, as far as it can be told from outside. -/
inductive Note where
  /-- An ioctl of a task returned. -/
  | returned (cmd : Cmd) (ret : Int)
  /-- `db_emergency_actuate` braked or coasted a port. -/
  | actuated (port : UInt8) (brake : Bool)
  /-- An envelope was written into the ring. -/
  | pushed (env : Envelope)
  /-- The daemon picked it up. -/
  | picked (env : Envelope)
  /-- The daemon called the drivebase for an envelope. -/
  | called (env : Envelope) (call : Call)
  deriving DecidableEq

structure State where
  dev : Dev
  handler : Handler
  /-- The envelope the daemon is about to dispatch. -/
  picked : Option Envelope
  caller : Nat → Caller

inductive Event where
  /-- The task `i` issues an ioctl: its checks, and its access to `output_epoch`. -/
  | ioctl (i : Nat) (cmd : Cmd) (arg : Arg)
  /-- The task goes on to its next section. -/
  | resume (i : Nat) (lock : Int) (memory : Nat → UInt8)
  /-- `DRIVEBASE_DAEMON_PICKUP_CMD`. -/
  | pickup (outOk : Bool) (lock : Int)
  | dispatch (initRc resetRc : Int)

/-- `DRIVEBASE_ON_COMPLETION_BRAKE`, `_HOLD` and `_BRAKE_SMART` brake. -/
def brakes (onCompletion : UInt8) : Bool :=
  onCompletion == 1 || onCompletion == 5 || onCompletion == 2

/-- `db_emergency_actuate`. -/
def emergencyActuate (dev : Dev) (onCompletion : UInt8) : List Note :=
  let port (idx : UInt8) : List Note :=
    if idx ≠ portIdxInvalid then [.actuated idx (brakes onCompletion)] else []
  port dev.motorLPortIdx ++ port dev.motorRPortIdx

/-- The first section of `db_handle_user_drive`. -/
def handleUserDrive (dev : Dev) (cmd : Cmd) (arg : Arg) : Except Int Caller :=
  if dev.attached = false then .error (-ENOTCONN)
  else
    match arg, payloadLen cmd with
    | .null, _ => .error (-EINVAL)
    | _, none => .error (-ENOTTY)
    | .unreadable, _ => .error (-EFAULT)
    | .at _, some _ => .ok (.drive cmd dev.outputEpoch)

/-- The first section of `db_handle_stop`. -/
def handleStop (dev : Dev) (arg : Arg) : Except Int (Dev × Caller) :=
  if dev.attached = false then .error (-ENOTCONN)
  else
    match arg with
    | .null => .error (-EINVAL)
    | .unreadable => .error (-EFAULT)
    | .at memory =>
      let newEpoch := dev.outputEpoch + 1
      .ok ({ dev with outputEpoch := newEpoch }, .stopBumped (readArg memory 8) newEpoch)

def State.setCaller (s : State) (i : Nat) (c : Caller) : State :=
  { s with caller := Function.update s.caller i c }

def State.push (s : State) (i : Nat) (lock : Int) (cmdKind : Cmd) (epoch : UInt32)
    (payload : List UInt8) : State × List Note :=
  let (dev, ret) := s.dev.pushEnvelope lock cmdKind epoch payload
  ({ s with dev := dev }.setCaller i .idle,
    (if ret = 0 then [.pushed (dev.cell (cmdRingPrev dev.cmdHead))] else []) ++
      [.returned cmdKind ret])

def State.step (s : State) : Event → State × List Note
  | .ioctl i cmd arg =>
    match s.caller i with
    | .idle =>
      if cmd = .stop then
        match handleStop s.dev arg with
        | .error ret => (s, [.returned cmd ret])
        | .ok (dev, c) => ({ s with dev := dev }.setCaller i c, [])
      else
        match handleUserDrive s.dev cmd arg with
        | .error ret => (s, [.returned cmd ret])
        | .ok c => (s.setCaller i c, [])
    | _ => (s, [])
  | .resume i lock memory =>
    match s.caller i with
    | .idle => (s, [])
    | .drive cmd epoch => s.push i lock cmd epoch (readArg memory ((payloadLen cmd).getD 0))
    | .stopBumped arg epoch =>
      let onCompletion := uint8At arg 0
      let dev := { s.dev with defaultOnCompletion := onCompletion }
      ({ s with dev := dev }.setCaller i (.stopActuated arg epoch),
        emergencyActuate dev onCompletion)
    | .stopActuated arg epoch => s.push i lock .stop epoch arg
  | .pickup outOk lock =>
    match s.picked with
    | some _ => (s, [])
    | none =>
      if s.dev.attached = false then (s, [])
      else
        match s.dev.popEnvelope outOk lock with
        | (_, .error _) => (s, [])
        | (dev, .ok env) => ({ s with dev := dev, picked := some env }, [.picked env])
  | .dispatch initRc resetRc =>
    match s.picked with
    | none => (s, [])
    | some env =>
      let (handler, calls) := s.handler.dispatchEnvelope env initRc resetRc
      ({ s with handler := handler, picked := none }, calls.map (.called env))

def machine : Machine State Event (List Note) where
  step := State.step

/-- A daemon has just attached, and no task is inside the driver. -/
def start (motorLPortIdx motorRPortIdx defaultOnCompletion : UInt8) : State where
  dev := .afterAttach motorLPortIdx motorRPortIdx defaultOnCompletion
  handler := {}
  picked := none
  caller := fun _ => .idle

/-!
## The ring as a queue

What the two indices and the cells of the ring stand for is a list of envelopes, oldest first. A pop
takes its head. A push adds an envelope at its end, and it may cost one: a STOP replaces a STOP
that is the newest entry, and in a full ring the oldest entry that is not a STOP makes room for it
(`Pushed`). There always is one, because the newest entry is no STOP when it was not replaced.
-/

open List

variable {dev : Dev} {q q' l r : List Envelope} {env old d : Envelope} {lock : Int}

/-- The envelopes in the ring, oldest first. -/
def Dev.queue (dev : Dev) : List Envelope :=
  Ring.contents .zero dev.cmdBuf dev.cmdTail
    ((dev.cmdHead + cmdRingDepth - dev.cmdTail) % cmdRingDepth)

/-- The ring holds these envelopes, and a cell is free. -/
structure Dev.Queues (dev : Dev) (q : List Envelope) : Prop where
  depth : dev.cmdBuf.length = cmdRingDepth
  holds : Ring.Holds .zero dev.cmdBuf dev.cmdHead dev.cmdTail q.length q
  room : q.length < cmdRingDepth

/-- The queue after a push of `env`. -/
inductive Pushed (q : List Envelope) (env : Envelope) : List Envelope → Prop where
  | append : q.length + 1 < cmdRingDepth → Pushed q env (q ++ [env])
  | coalesce {l : List Envelope} {old : Envelope} :
      q = l ++ [old] → old.isStop = true → env.isStop = true →
      Pushed q env (l ++ [env])
  | compact {l r : List Envelope} {d : Envelope} :
      q = l ++ d :: r → d.isStop = false → env.isStop = true →
      Pushed q env (l ++ r ++ [env])

namespace Dev

/-- **The ways a push can go.** -/
theorem pushEnvelope_cases (dev : Dev) (lock : Int) (cmdKind : Cmd) (epoch : UInt32)
    (payload : List UInt8) :
    ((dev.pushEnvelope lock cmdKind epoch payload).2 ≠ 0 ∧
      ∃ status, (dev.pushEnvelope lock cmdKind epoch payload).1 = { dev with status := status }) ∨
    (cmdKind = .stop ∧ dev.newestIsStop = true ∧
      dev.pushEnvelope lock cmdKind epoch payload = (dev.coalesce epoch payload, 0)) ∨
    (cmdKind = .stop ∧ dev.newestIsStop = false ∧ dev.full = true ∧
      dev.pushEnvelope lock cmdKind epoch payload =
        (dev.dropOldest.store cmdKind epoch payload, 0)) ∨
    (dev.full = false ∧
      dev.pushEnvelope lock cmdKind epoch payload = (dev.store cmdKind epoch payload, 0)) := by
  unfold pushEnvelope
  by_cases hlen : payload.length > cmdPayloadBytes
  · rw [if_pos hlen]
    exact .inl ⟨by simp [EINVAL], dev.status, rfl⟩
  · rw [if_neg hlen]
    by_cases hlock : lock < 0
    · rw [if_pos hlock]
      exact .inl ⟨Int.ne_of_lt hlock, dev.status, rfl⟩
    · rw [if_neg hlock]
      by_cases hcmd : cmdKind = .stop
      · rw [if_pos hcmd]
        cases hnewest : dev.newestIsStop with
        | true => exact .inr (.inl ⟨hcmd, rfl, rfl⟩)
        | false =>
          cases hfull : dev.full with
          | true => exact .inr (.inr (.inl ⟨hcmd, rfl, rfl, rfl⟩))
          | false => exact .inr (.inr (.inr ⟨rfl, rfl⟩))
      · rw [if_neg hcmd]
        cases hfull : dev.full with
        | true => exact .inl ⟨by simp [EBUSY], _, rfl⟩
        | false => exact .inr (.inr (.inr ⟨rfl, rfl⟩))

/-- **A STOP never fails for lack of space.** -/
theorem push_stop {lock : Int} {payload : List UInt8} (dev : Dev) (epoch : UInt32)
    (hlen : payload.length ≤ cmdPayloadBytes) (hlock : 0 ≤ lock) :
    (dev.pushEnvelope lock .stop epoch payload).2 = 0 := by
  unfold pushEnvelope
  rw [if_neg (by omega), if_neg (by omega), if_pos rfl]
  split
  · rfl
  · split <;> rfl

theorem queues_afterAttach (motorLPortIdx motorRPortIdx defaultOnCompletion : UInt8) :
    (Dev.afterAttach motorLPortIdx motorRPortIdx defaultOnCompletion).Queues [] where
  depth := length_replicate
  holds := Ring.Holds.empty (Nat.succ_pos _)
  room := by decide

namespace Queues

theorem room' (h : dev.Queues q) : q.length < dev.cmdBuf.length := by
  rw [h.depth]
  exact h.room

theorem queue_eq (h : dev.Queues q) : dev.queue = q := by
  have hcount := h.holds.count_of_indices h.room'
  rw [h.depth] at hcount
  rw [queue, hcount]
  exact h.holds.contents_eq

theorem head_ne_tail_iff (h : dev.Queues q) : dev.cmdHead ≠ dev.cmdTail ↔ q ≠ [] :=
  not_congr (eq_comm.trans (h.holds.head_eq_tail_iff h.room'))

theorem full_iff (h : dev.Queues q) : dev.full = true ↔ q.length + 1 = cmdRingDepth := by
  have hfull := h.holds.next_eq_tail_iff h.room'
  rw [h.depth] at hfull
  rw [full, beq_iff_eq]
  exact hfull

theorem newest (h : dev.Queues (l ++ [old])) : dev.cell (cmdRingPrev dev.cmdHead) = old := by
  have hnewest := h.holds.newest
  rw [h.depth] at hnewest
  exact hnewest

theorem newestIsStop_iff (h : dev.Queues q) :
    dev.newestIsStop = true ↔ ∃ l old, q = l ++ [old] ∧ old.isStop = true := by
  rw [newestIsStop, Bool.and_eq_true, bne_iff_ne, h.head_ne_tail_iff]
  rcases eq_nil_or_concat q with rfl | ⟨l, old, rfl⟩
  · simp
  · rw [concat_eq_append] at h ⊢
    rw [h.newest]
    constructor
    · rintro ⟨-, hstop⟩
      exact ⟨l, old, rfl, hstop⟩
    · rintro ⟨l', old', heq, hstop⟩
      obtain ⟨-, hold⟩ := append_inj' heq rfl
      rw [singleton_inj] at hold
      exact ⟨by simp, hold ▸ hstop⟩

/-! ### Pushes -/

theorem coalesce_overwrites (h : dev.Queues (l ++ [old])) (epoch : UInt32) (payload : List UInt8) :
    (dev.coalesce epoch payload).Queues (l ++ [{ old with
      epoch := epoch
      cmdSeq := dev.cmdSeq + 1
      payload := if payload.length > 0 then payloadCell payload else old.payload }]) := by
  let env : Envelope := { old with
    epoch := epoch
    cmdSeq := dev.cmdSeq + 1
    payload := if payload.length > 0 then payloadCell payload else old.payload }
  have hover := h.holds.overwrite (y := env) (Nat.le_of_lt h.room')
  have hroom := h.room
  rw [h.depth] at hover
  rw [length_append, length_singleton] at hover hroom
  refine ⟨?_, ?_, ?_⟩
  · rw [← h.depth]
    exact length_set
  · rw [length_append, length_singleton, Dev.coalesce, h.newest]
    exact hover
  · rw [length_append, length_singleton]
    exact hroom

theorem coalesce (h : dev.Queues (l ++ [old])) (epoch : UInt32) (payload : List UInt8) :
    ∃ env, env.cmdKind = old.cmdKind ∧ env.epoch = epoch ∧ env.cmdSeq = dev.cmdSeq + 1 ∧
      (dev.coalesce epoch payload).Queues (l ++ [env]) := by
  refine ⟨_, ?_, ?_, ?_, h.coalesce_overwrites epoch payload⟩
  · rfl
  · rfl
  · rfl

theorem store (h : dev.Queues q) (hroom : q.length + 1 < cmdRingDepth) (cmdKind : Cmd)
    (epoch : UInt32) (payload : List UInt8) :
    (dev.store cmdKind epoch payload).Queues
      (q ++ [⟨cmdKind, dev.cmdSeq + 1, epoch, payloadCell payload⟩]) := by
  have hpush := h.holds.push (x := ⟨cmdKind, dev.cmdSeq + 1, epoch, payloadCell payload⟩) h.room'
  rw [h.depth] at hpush
  refine ⟨?_, ?_, ?_⟩
  · rw [← h.depth]
    exact length_set
  · rw [length_append, length_singleton]
    exact hpush
  · rw [length_append, length_singleton]
    exact hroom

/-- **Compaction** drops the oldest envelope that is not a STOP, and counts it. -/
theorem dropOldest_eraseP (h : dev.Queues q) (hdrop : ∃ env ∈ q, env.isStop = false) :
    dev.dropOldest.Queues (q.eraseP fun env => !env.isStop) ∧
      dev.dropOldest.cmdSeq = dev.cmdSeq ∧ dev.dropOldest.cmdTail = dev.cmdTail ∧
      dev.dropOldest.status =
        { dev.status with cmdDropCount := dev.status.cmdDropCount + 1 } := by
  have hfirst := @Ring.Holds.firstCell_eq _ _ _ _ _ _ _ (fun env => !env.isStop) cmdRingDepth
    h.holds h.room' h.room
  have herase := @eraseP_eq_eraseIdx _ q fun env => !env.isStop
  cases hfind : q.findIdx? fun env => !env.isStop with
  | none =>
    obtain ⟨env, henv, hstop⟩ := hdrop
    have := List.findIdx?_eq_none_iff.mp hfind env henv
    simp [hstop] at this
  | some k =>
    obtain ⟨hk, -, -⟩ := List.findIdx?_eq_some_iff_getElem.mp hfind
    rw [hfind, Option.map_some] at hfirst
    rw [hfind] at herase
    obtain ⟨hlen, hclosed⟩ := @Ring.Holds.closeGap _ _ _ _ _ _ _ k cmdRingDepth h.holds
      h.room' hk (Nat.le_trans (Nat.le_of_lt h.room) (Nat.le_add_left _ _))
    have hcount : (q.eraseIdx k).length = q.length - 1 := hclosed.count_eq.symm
    rw [herase]
    refine ⟨⟨?_, ?_, ?_⟩, ?_, ?_, ?_⟩
    · rw [Dev.dropOldest, hfirst]
      exact hlen.trans h.depth
    · rw [Dev.dropOldest, hfirst]
      simp only [hcount]
      exact hclosed
    · simp only [hcount]
      have hroom := h.room
      omega
    · rw [Dev.dropOldest, hfirst]
    · rw [Dev.dropOldest, hfirst]
    · rw [Dev.dropOldest, hfirst]

theorem dropOldest (h : dev.Queues q) (hdrop : ∃ env ∈ q, env.isStop = false) :
    ∃ l d r, q = l ++ d :: r ∧ d.isStop = false ∧ dev.dropOldest.Queues (l ++ r) ∧
      dev.dropOldest.cmdSeq = dev.cmdSeq := by
  obtain ⟨hqueues, hseq, -, -⟩ := h.dropOldest_eraseP hdrop
  obtain ⟨env, henv, hstop⟩ := hdrop
  obtain ⟨d, l, r, -, hd, hq, herase⟩ :=
    @exists_of_eraseP _ (fun env => !env.isStop) _ _ henv (by simpa using hstop)
  exact ⟨l, d, r, hq, by simpa using hd, herase ▸ hqueues, hseq⟩

theorem room_of_not_full (h : dev.Queues q) (hfull : dev.full = false) :
    q.length + 1 < cmdRingDepth := by
  have hroom := h.room
  have hne : q.length + 1 ≠ cmdRingDepth := by
    intro heq
    rw [h.full_iff.mpr heq] at hfull
    cases hfull
  omega

theorem exists_drop (h : dev.Queues q) (hnewest : dev.newestIsStop = false)
    (hfull : dev.full = true) : ∃ env ∈ q, env.isStop = false := by
  have hlen := h.full_iff.mp hfull
  rcases eq_nil_or_concat q with rfl | ⟨l, old, hq⟩
  · exact absurd hlen (by decide)
  · rw [concat_eq_append] at hq
    subst hq
    refine ⟨old, mem_append_right _ mem_cons_self, ?_⟩
    cases hstop : old.isStop with
    | false => rfl
    | true =>
      rw [h.newestIsStop_iff.mpr ⟨l, old, rfl, hstop⟩] at hnewest
      cases hnewest

theorem push_ok (h : dev.Queues q) {cmdKind : Cmd} {epoch : UInt32} {payload : List UInt8}
    (hret : (dev.pushEnvelope lock cmdKind epoch payload).2 = 0) :
    ∃ env q', env.cmdKind = cmdKind ∧ env.epoch = epoch ∧ env.cmdSeq = dev.cmdSeq + 1 ∧
      Pushed q env q' ∧ (dev.pushEnvelope lock cmdKind epoch payload).1.Queues q' ∧
      (dev.pushEnvelope lock cmdKind epoch payload).1.cmdSeq = dev.cmdSeq + 1 := by
  rcases dev.pushEnvelope_cases lock cmdKind epoch payload with
    ⟨hfailed, -⟩ | ⟨rfl, hnewest, hpush⟩ | ⟨rfl, hnewest, hfull, hpush⟩ | ⟨hfull, hpush⟩
  · exact absurd hret hfailed
  · obtain ⟨l, old, rfl, hold⟩ := h.newestIsStop_iff.mp hnewest
    obtain ⟨env, hkind, hepoch, hseq, hqueues⟩ := h.coalesce epoch payload
    have hstop : env.isStop = true := by
      rw [Envelope.isStop, hkind]
      exact hold
    rw [hpush]
    exact ⟨env, l ++ [env], beq_iff_eq.mp hstop, hepoch, hseq,
      .coalesce rfl hold hstop, hqueues, rfl⟩
  · obtain ⟨l, d, r, rfl, hd, hqueues, hseq⟩ := h.dropOldest (h.exists_drop hnewest hfull)
    have hroom : (l ++ r).length + 1 < cmdRingDepth := by
      have hroom := h.room
      simp only [length_append, length_cons] at hroom ⊢
      omega
    have hstored := hqueues.store hroom .stop epoch payload
    rw [hseq] at hstored
    rw [hpush]
    exact ⟨_, _, rfl, rfl, rfl, .compact rfl hd rfl, hstored, congrArg (· + 1) hseq⟩
  · have hroom := h.room_of_not_full hfull
    rw [hpush]
    exact ⟨_, _, rfl, rfl, rfl, .append hroom, h.store hroom cmdKind epoch payload, rfl⟩

theorem push_failed (h : dev.Queues q) {cmdKind : Cmd} {epoch : UInt32} {payload : List UInt8}
    (hret : (dev.pushEnvelope lock cmdKind epoch payload).2 ≠ 0) :
    (dev.pushEnvelope lock cmdKind epoch payload).1.Queues q ∧
      (dev.pushEnvelope lock cmdKind epoch payload).1.cmdSeq = dev.cmdSeq := by
  rcases dev.pushEnvelope_cases lock cmdKind epoch payload with
    ⟨-, status, hpush⟩ | ⟨rfl, -, hpush⟩ | ⟨rfl, -, -, hpush⟩ | ⟨-, hpush⟩
  · rw [hpush]
    exact ⟨⟨h.depth, h.holds, h.room⟩, rfl⟩
  all_goals exact absurd (congrArg Prod.snd hpush) hret

/-! ### Pops -/

theorem pop (h : dev.Queues q) (outOk : Bool) (lock : Int) :
    (∃ ret, (dev.popEnvelope outOk lock).2 = .error ret) ∨
      ∃ env q', q = env :: q' ∧ (dev.popEnvelope outOk lock).2 = .ok env ∧
        (dev.popEnvelope outOk lock).1.Queues q' ∧
        (dev.popEnvelope outOk lock).1.cmdSeq = dev.cmdSeq := by
  unfold popEnvelope
  by_cases hout : outOk = false
  · rw [if_pos hout]
    exact .inl ⟨_, rfl⟩
  · rw [if_neg hout]
    by_cases hlock : lock < 0
    · rw [if_pos hlock]
      exact .inl ⟨_, rfl⟩
    · rw [if_neg hlock]
      by_cases hempty : dev.cmdHead = dev.cmdTail
      · rw [if_pos hempty]
        exact .inl ⟨_, rfl⟩
      · rw [if_neg hempty]
        cases q with
        | nil => exact absurd rfl (h.head_ne_tail_iff.mp hempty)
        | cons env q =>
          obtain ⟨holdest, hrest⟩ := h.holds.pop
          rw [h.depth] at hrest
          refine .inr ⟨env, q, rfl, congrArg Except.ok holdest, ⟨h.depth, hrest, ?_⟩, rfl⟩
          exact Nat.lt_of_succ_lt h.room

end Queues

end Dev

end Brickwright.Drivebase.Chardev
