import Brickwright.Btsensor.Modern.Basic
import Brickwright.Lump.Engine

/-!
# The port backend of the modern service (`btsensor_modern_backend.c`)

An operation opens the port's device, checks what is attached and drives it. Who commands a motor is
kept in three arrays beside the descriptors; every entry point holds `g_owner_lock` from its first
look at them to its end, so an entry point is one step. Opening, `ioctl` and closing are calls to
the system, answered with anything.

Only the production callbacks are modelled, so `same_io` always holds. The encoder is left out: it
shares no more than the descriptors with the rest.
-/

namespace Brickwright.Btsensor.Backend

open Calls

def EAGAIN : Int := 11
def EBUSY : Int := 16
def ENODEV : Int := 19
def EINVAL : Int := 22
def ERANGE : Int := 34
def ENOTSUP : Int := 95
def ESTALE : Int := 116

/-- `BOARD_LEGOPORT_COUNT`. -/
def portCount : Nat := 6

/-- `enum brickwright_hub_link`; an argument of this type can be any number. -/
def linkClassic : Nat := 0
def linkBle : Nat := 1

/-- `struct btsensor_modern_operation`, with the fields that the tunnel leaves alone. -/
structure Operation extends Modern.Operation where
  color : UInt8 := 0
  frame : Vector UInt8 25 := .replicate 25 0

/-! ## The system -/

/-- The requests made of a device, with what their argument points to. -/
inductive Ioctl where
  | getDeviceInfo
  | lumpGetInfo
  | lumpSend (mode : UInt8) (data : List UInt8)
  | pwmGetStatus
  | pwmSetDuty (duty : Int16)
  | pwmCoast
  | pwmBrake
  | rgbledSetDuty (channel : UInt8) (value : UInt16)
  deriving DecidableEq

inductive IoCall where
  /-- `BOARD_LEGOPORT_DEVPATH_FMT` with the number of the port. -/
  | openPort (port : Nat)
  | openRgbled
  | ioctl (fd : Int) (command : Ioctl)
  | close (fd : Int)
  deriving DecidableEq

/-- The result, and what the structure behind the argument is left with: of
`struct legoport_info_s` and `struct legoport_pwm_status_s` the fields that are read. -/
structure IoResult where
  rc : Int
  deviceType : UInt8 := 0
  flags : UInt8 := 0
  lump : Lump.DeviceInfo := .zero
  pwmFlags : UInt8 := 0

abbrev Io := Calls IoCall IoResult

/-- `g_port_fds` and `g_port_io_valid`. -/
structure Ports where
  fds : Nat → Int
  ioValid : Bool

namespace Ports

/-- `close_all_ports`, from the port `port` on. -/
def closeFrom (ports : Ports) : List Nat → Io Ports
  | [] => pure { ports with ioValid := false }
  | port :: rest =>
    if ports.fds port ≥ 0 then do
      let _ ← perform (.ioctl (ports.fds port) .pwmCoast)
      let _ ← perform (.close (ports.fds port))
      closeFrom { ports with fds := Function.update ports.fds port (-1) } rest
    else closeFrom ports rest

/-- `close_all_ports`. -/
def closeAll (ports : Ports) : Io Ports :=
  if ports.ioValid then ports.closeFrom (List.range portCount) else pure ports

/-- `port_open`. -/
def openPort (ports : Ports) (port : Nat) : Io (Int × Ports) :=
  let ports := { ports with ioValid := true }
  if ports.fds port ≥ 0 then pure (ports.fds port, ports)
  else do
    let opened ← perform (.openPort port)
    if opened.rc ≥ 0 then
      pure (opened.rc, { ports with fds := Function.update ports.fds port opened.rc })
    else pure (opened.rc, ports)

end Ports

/-! ## Operations -/

def flagConnected : UInt8 := 1
def flagIsUart : UInt8 := 2
def pwmFlagPinned : UInt8 := 1

/-- `passive_motor`: `LEGOPORT_TYPE_LPF2_MMOTOR` and so on. -/
def passiveMotor (type : UInt8) : Bool := type ∈ [1, 2, 3, 4, 6, 7]

/-- `LPF2_TYPE_SPIKE_MEDIUM_MOTOR` and `LPF2_TYPE_SPIKE_LARGE_MOTOR`. -/
def mediumMotor : UInt8 := 48
def largeMotor : UInt8 := 49

/-- The last part of `validate_motor`. -/
def validatePwm (fd : Int) : Io Int := do
  let pwm ← perform (.ioctl fd .pwmGetStatus)
  if pwm.rc < 0 then pure pwm.rc
  else pure (if pwm.pwmFlags &&& pwmFlagPinned ≠ 0 then -EBUSY else 0)

def validateMotor (fd : Int) : Io Int := do
  let port ← perform (.ioctl fd .getDeviceInfo)
  if port.rc < 0 then pure port.rc
  else if port.flags &&& flagConnected = 0 then pure (-ENODEV)
  else if passiveMotor port.deviceType then validatePwm fd
  else if port.flags &&& flagIsUart = 0 then pure (-ENODEV)
  else do
    let device ← perform (.ioctl fd .lumpGetInfo)
    if device.rc < 0 then pure device.rc
    else if device.lump.typeId ≠ mediumMotor ∧ device.lump.typeId ≠ largeMotor then pure (-ENODEV)
    else validatePwm fd

/-- The arguments that `motor_operation` refuses, and its result. -/
def motorArguments (operation : Operation) : Int :=
  if operation.port.toNat ≥ portCount ∨ operation.speed < -100 ∨ operation.speed > 100 then -ERANGE
  else if operation.speed ≠ 0 ∧ operation.hasEndState then -EINVAL
  else if operation.hasEndState ∧ operation.endState > 2 then -ERANGE
  else if operation.hasEndState ∧ operation.endState = 2 then -ENOTSUP
  else 0

/-- What `motor_operation` asks of a motor that is there. -/
def motorCommand (operation : Operation) : Ioctl :=
  if operation.speed ≠ 0 ∨ operation.hasEndState = false then
    .pwmSetDuty (operation.speed.toInt16 * 100)
  else if operation.endState = 0 then .pwmCoast
  else .pwmBrake

def motorOperation (ports : Ports) (operation : Operation) : Io (Int × Ports) :=
  if motorArguments operation ≠ 0 then pure (motorArguments operation, ports)
  else do
    let (fd, ports) ← ports.openPort operation.port.toNat
    if fd < 0 then pure (fd, ports)
    else do
      let rc ← validateMotor fd
      if rc < 0 then pure (rc, ports)
      else do
        let set ← perform (.ioctl fd (motorCommand operation))
        pure (set.rc, ports)

/-- `MATRIX_TYPE_ID`, `MATRIX_PIXELS_MODE` and `LUMP_DATA_INT8`. -/
def matrixTypeId : UInt8 := 64
def matrixPixelsMode : UInt8 := 2
def lumpDataInt8 : UInt8 := 0

/-- The device takes nine bytes of pixels. -/
def takesPixels (device : Lump.DeviceInfo) : Bool :=
  let mode := device.modes.getD matrixPixelsMode.toNat .zero
  device.numModes > matrixPixelsMode ∧ mode.writable ≠ 0 ∧ mode.numValues = 9 ∧
    mode.dataType = lumpDataInt8

def matrixOperation (ports : Ports) (operation : Operation) : Io (Int × Ports) :=
  if operation.port.toNat ≥ portCount ∨
      ∃ pixel ∈ operation.pixels.toList, pixel >>> 4 > 10 ∨ pixel &&& 0x0f > 10 then
    pure (-ERANGE, ports)
  else do
    let (fd, ports) ← ports.openPort operation.port.toNat
    if fd < 0 then pure (fd, ports)
    else do
      let device ← perform (.ioctl fd .lumpGetInfo)
      if device.rc < 0 then pure (device.rc, ports)
      else if device.lump.typeId ≠ matrixTypeId then pure (-ENODEV, ports)
      else if takesPixels device.lump = false then pure (-ENOTSUP, ports)
      else do
        let sent ← perform (.ioctl fd (.lumpSend matrixPixelsMode operation.pixels.toList))
        pure (sent.rc, ports)

/-- The loops that set one channel after the other while all goes well. -/
def setDuties (fd : Int) : List (UInt8 × UInt16) → Io Int
  | [] => pure 0
  | (channel, value) :: rest => do
    let set ← perform (.ioctl fd (.rgbledSetDuty channel value))
    if set.rc = 0 then setDuties fd rest else pure set.rc

/-- The lights are opened for one operation; a failed one hides how the close went. -/
def withRgbled (body : Int → Io Int) : Io Int := do
  let opened ← perform .openRgbled
  if opened.rc < 0 then pure opened.rc
  else do
    let rc ← body opened.rc
    let closed ← perform (.close opened.rc)
    pure (if rc < 0 then rc else closed.rc)

/-- `g_matrix5_channels`, row by row. -/
def matrix5Channels : List UInt8 :=
  [38, 36, 41, 46, 33, 37, 28, 39, 47, 21, 24, 29, 31, 45, 23, 26, 27, 32, 34, 22, 25,
    40, 30, 35, 9]

def brightnessDuty (brightness : UInt8) : UInt16 := (brightness.toUInt32 * 65535 / 100).toUInt16

def matrix5Operation (operation : Operation) : Io Int :=
  withRgbled fun fd =>
    match operation.kind with
    | .matrix5Pixel =>
      if operation.x > 4 ∨ operation.y > 4 ∨ operation.brightness > 100 then pure (-ERANGE)
      else
        setDuties fd [(matrix5Channels.getD (operation.y.toNat * 5 + operation.x.toNat) 0,
          brightnessDuty operation.brightness)]
    | .matrix5Frame =>
      if ∃ brightness ∈ operation.frame.toList, brightness > 100 then pure (-ERANGE)
      else setDuties fd (matrix5Channels.zip (operation.frame.toList.map brightnessDuty))
    | _ => setDuties fd (matrix5Channels.map fun channel => (channel, 0))

/-- `g_status_colors`. -/
def statusColors : List (List UInt8) :=
  [[0, 0, 0], [255, 64, 160], [150, 0, 255], [0, 0, 255], [0, 200, 255],
    [64, 255, 128], [0, 255, 0],
    [255, 220, 0], [255, 120, 0], [255, 0, 0], [255, 255, 255]]

/-- `TLC5955_CH_STATUS_TOP_R` and so on, of the top light and of the bottom one. -/
def statusChannels : List UInt8 := [5, 4, 3, 8, 7, 6]

def statusLightOperation (operation : Operation) : Io Int :=
  if operation.color > 10 then pure (-ERANGE)
  else
    let color := (statusColors.getD operation.color.toNat []).map fun c => c.toUInt16 * 257
    withRgbled fun fd => setDuties fd (statusChannels.zip (color ++ color))

/-- `btsensor_modern_backend_operation_with_io`, with the production callbacks. -/
def operationWithIo (ports : Ports) : Option Operation → Io (Int × Ports)
  | none => pure (-EINVAL, ports)
  | some operation =>
    match operation.kind with
    | .motor => motorOperation ports operation
    | .matrix3 => matrixOperation ports operation
    | .matrix5Pixel | .matrix5Clear | .matrix5Frame => do
      let rc ← matrix5Operation operation
      pure (rc, ports)
    | .statusLight => do
      let rc ← statusLightOperation operation
      pure (rc, ports)
    | .tunnelOpaque | .soundBeep | .soundStop => pure (-ENOTSUP, ports)

/-! ## Owners -/

/-- `g_commanded`, `g_generation`, `g_owner_token` and `g_next_owner_token`. -/
structure Owners where
  commanded : Nat → Nat → Bool
  generation : Nat → UInt32
  ownerToken : Nat → UInt32
  nextOwnerToken : UInt32

/-- The token behind one that was given out. -/
def nextToken (token : UInt32) : UInt32 := if token + 1 = 0 then token + 1 + 1 else token + 1

namespace Owners

def release (owners : Owners) (port : Nat) : Owners :=
  { owners with
    commanded := fun link => Function.update (owners.commanded link) port false
    ownerToken := Function.update owners.ownerToken port 0 }

/-- `set_motor_owner_locked`, with what it writes through `ownership_token`. -/
def setMotorOwner (owners : Owners) (link port : Nat) (running : Bool) : UInt32 × Owners :=
  let released := owners.release port
  if running then
    let token := nextToken owners.nextOwnerToken
    (token,
      { released with
        commanded := Function.update released.commanded link
          (Function.update (released.commanded link) port true)
        ownerToken := Function.update released.ownerToken port token
        nextOwnerToken := token })
  else (0, released)

/-- What `stop_owned_locked` clears before it stops the motor of a port. -/
def disown (owners : Owners) (link port : Nat) : Owners :=
  { owners with
    commanded := Function.update owners.commanded link
      (Function.update (owners.commanded link) port false)
    ownerToken := Function.update owners.ownerToken port 0 }

end Owners

structure State where
  ports : Ports
  owners : Owners

def boot : State where
  ports := ⟨fun _ => -1, false⟩
  owners := ⟨fun _ _ => false, fun _ => 0, fun _ => 0, 0⟩

/-- The operation that stops a motor with an end action. -/
def stopOperation (port : Nat) (endState : UInt8) : Operation where
  kind := .motor
  port := port.toUInt8
  speed := 0
  hasEndState := true
  endState := endState

/-! ## Entry points -/

/-- The result, what a tagged operation wrote through its `ownership_token`, and the ports for which
a stop was issued on behalf of a link that is gone. -/
structure Answer where
  rc : Int := 0
  token : Option UInt32 := none
  stops : List Nat := []

inductive Request where
  /-- `btsensor_modern_backend_operation_for_link`, or its tagged variant. -/
  | operation (link : Nat) (operation : Option Operation) (tagged : Bool)
  | endMotorIfOwned (link port : Nat) (token : UInt32) (endState : UInt8)
  | linkState (link : Nat) (connected : Bool) (generation : UInt32)
  | setMotorOwner (link port : Nat) (running : Bool)
  | shutdown

namespace State

/-- `btsensor_modern_backend_operation_for_link_tagged`; without a tag `ownership_token` is null. -/
def operationForLink (s : State) (link : Nat) (operation : Option Operation) (tagged : Bool) :
    Io (Answer × State) :=
  if link > linkBle then pure ({ rc := -EINVAL }, s)
  else do
    let (rc, ports) ← operationWithIo s.ports operation
    match operation with
    | some op =>
      if rc = 0 ∧ op.kind = .motor then
        let (token, owners) := s.owners.setMotorOwner link op.port.toNat (op.speed ≠ 0)
        pure ({ rc := rc, token := if tagged then some token else none }, ⟨ports, owners⟩)
      else pure ({ rc := rc }, ⟨ports, s.owners⟩)
    | none => pure ({ rc := rc }, ⟨ports, s.owners⟩)

/-- The cleanup of a motor whose attachment is lost: whether it was left without power. -/
def coastUnpinned (fd : Int) : Io Bool := do
  let status ← perform (.ioctl fd .pwmGetStatus)
  if status.rc = 0 ∧ status.pwmFlags &&& pwmFlagPinned = 0 then do
    let coasted ← perform (.ioctl fd .pwmCoast)
    pure (coasted.rc = 0)
  else pure false

/-- `btsensor_modern_backend_end_motor_if_owned`. -/
def endMotorIfOwned (s : State) (link port : Nat) (token : UInt32) (endState : UInt8) :
    Io (Answer × State) :=
  if link > linkBle ∨ port ≥ portCount ∨ token = 0 then pure ({ rc := -EINVAL }, s)
  else if s.owners.commanded link port = false ∨ s.owners.ownerToken port ≠ token then
    pure ({ rc := -ESTALE }, s)
  else do
    let (rc, ports) ← operationWithIo s.ports (some (stopOperation port endState))
    let ended := (s.owners.setMotorOwner link port false).2
    if (rc = -ENODEV ∨ rc = -EAGAIN) ∧ ports.fds port ≥ 0 then do
      let coasted ← coastUnpinned (ports.fds port)
      pure ({ rc := rc }, ⟨ports, if coasted then ended else s.owners⟩)
    else pure ({ rc := rc }, ⟨ports, if rc = 0 then ended else s.owners⟩)

/-- The loop of `stop_owned_locked`: the ports it stops, in order. -/
def stopOwned (s : State) (link : Nat) : List Nat → Io (List Nat × State)
  | [] => pure ([], s)
  | port :: rest =>
    if s.owners.commanded link port then do
      let (_, ports) ← operationWithIo s.ports (some (stopOperation port 0))
      let (stops, s) ← stopOwned ⟨ports, s.owners.disown link port⟩ link rest
      pure (port :: stops, s)
    else stopOwned s link rest

/-- A `stop_owned_locked` of an entry point that goes on with `f`. -/
def stopOwnedThen (s : State) (link : Nat) (f : Owners → Owners) : Io (Answer × State) := do
  let (stops, s) ← s.stopOwned link (List.range portCount)
  pure ({ stops := stops }, ⟨s.ports, f s.owners⟩)

/-- `btsensor_modern_backend_link_state`. -/
def linkState (s : State) (link : Nat) (connected : Bool) (generation : UInt32) :
    Io (Answer × State) :=
  let connect := fun owners : Owners =>
    { owners with generation := Function.update owners.generation link generation }
  if link > linkBle then pure ({}, s)
  else if connected then
    if s.owners.generation link ≠ 0 ∧ s.owners.generation link ≠ generation then
      s.stopOwnedThen link connect
    else pure ({}, ⟨s.ports, connect s.owners⟩)
  else if s.owners.generation link = generation then s.stopOwnedThen link id
  else pure ({}, s)

/-- `btsensor_modern_backend_set_motor_owner`. -/
def setMotorOwner (s : State) (link port : Nat) (running : Bool) : Answer × State :=
  if link > linkBle ∨ port ≥ portCount then ({}, s)
  else ({}, ⟨s.ports, (s.owners.setMotorOwner link port running).2⟩)

/-- The two loops of `btsensor_modern_backend_shutdown`, over the links and ports that are left;
`stopped` are the ports that have had their stop. -/
def shutdownFrom (s : State) (stopped : List Nat) : List (Nat × Nat) → Io (List Nat × State)
  | [] => pure (stopped, s)
  | (link, port) :: rest =>
    if s.owners.commanded link port then
      if port ∈ stopped then
        shutdownFrom ⟨s.ports, s.owners.disown link port⟩ stopped rest
      else do
        let (_, ports) ← operationWithIo s.ports (some (stopOperation port 0))
        shutdownFrom ⟨ports, s.owners.disown link port⟩ (stopped ++ [port]) rest
    else shutdownFrom s stopped rest

/-- `btsensor_modern_backend_shutdown`. -/
def shutdown (s : State) : Io (Answer × State) := do
  let (stops, s) ← s.shutdownFrom []
    ([linkClassic, linkBle].flatMap fun link => (List.range portCount).map (Prod.mk link))
  let ports ← s.ports.closeAll
  pure ({ stops := stops }, ⟨ports, s.owners⟩)

def serve (s : State) : Request → Io (Answer × State)
  | .operation link operation tagged => s.operationForLink link operation tagged
  | .endMotorIfOwned link port token endState => s.endMotorIfOwned link port token endState
  | .linkState link connected generation => s.linkState link connected generation
  | .setMotorOwner link port running => pure (s.setMotorOwner link port running)
  | .shutdown => s.shutdown

end State

end Brickwright.Btsensor.Backend
