import Brickwright.Btsensor.Neutral.Lines
import Brickwright.Text.Decimal

/-!
# What a line is answered (`apps/btsensor/btsensor_cmd_neutral.c`)

A line is a C string, which `strtok_r` cuts at the spaces; `save` is the list of the tokens that
have not been taken. Every path through `process` sends one reply and returns, so a function here is
its reply, as the bytes before the zero.

What the peripheral operations return while a line is processed is data, and so is the text that
`%.6g` gives a number.
-/

namespace Brickwright.Btsensor.Neutral

open Decimal
open Tx (Link EBUSY EINVAL ENOTSUP E2BIG)

def EIO : Int := 5

abbrev Token := List UInt8

/-- `BTSENSOR_CMD_REPLY_MAX`. -/
def replyMax : Nat := 64

/-- `snprintf` into a buffer of `size` bytes: what fits before the zero. -/
def snprintf (size : Nat) (s : List UInt8) : List UInt8 := s.take (size - 1)

/-- The tokens of the C string in the buffer. -/
def tokens (line : List UInt8) : List Token :=
  ((line.takeWhile (· ≠ 0)).splitOnP (· = 32)).filter (· ≠ [])

def tolower (c : UInt8) : UInt8 := if 65 ≤ c ∧ c ≤ 90 then c + 32 else c

/-- `!strcasecmp(s, name)`. -/
def equalFold (s : Token) (name : String) : Bool := s.map tolower = (text name).map tolower

/-! ## Arguments -/

def isspace (c : UInt8) : Bool := c = 32 || (9 ≤ c && c ≤ 13)

/-- What `strtol` and `strtoull` read in base 10: the sign, the digits, and what is left. -/
def strto (s : List UInt8) : Option (Bool × Nat × List UInt8) :=
  let s := s.dropWhile isspace
  let negative := s.head? = some 45
  let s := if s.head? = some 45 ∨ s.head? = some 43 then s.tail else s
  let digits := s.takeWhile (IsDigit ·)
  if digits = [] then none else some (negative, value 0 digits, s.dropWhile (IsDigit ·))

/-- `number`. A value out of the range of `long` is out of every range asked for. -/
def number (s : Option Token) (min max : Int) : Option Int :=
  match s.bind strto with
  | some (negative, n, []) =>
    let value : Int := if negative then -n else n
    if value < min ∨ max < value then none else some value
  | _ => none

/-- `unsigned_number`. `strtoull` negates modulo 2^64 what has a sign behind a space. -/
def unsignedNumber (s : Token) : Option UInt32 :=
  if s.head? = some 45 then none
  else
    match strto s with
    | some (negative, n, []) =>
      let value := if negative then (2 ^ 64 - n) % 2 ^ 64 else n
      if 2 ^ 64 ≤ n ∨ 4294967295 < value then none else some (UInt32.ofNat value)
    | _ => none

def classNames : List String := ["color", "ultrasonic", "force", "motor_m", "motor_r", "motor_l"]

def classId (s : Option Token) : Option UInt8 :=
  match s with
  | none => none
  | some t =>
    match classNames.findIdx? (equalFold t) with
    | some i => some (UInt8.ofNat i)
    | none => (number s 0 5).map fun value => UInt8.ofNat value.toNat

/-- The value of a hexadecimal digit; `none` where `isxdigit` is false. -/
def xdigit (c : UInt8) : Option UInt8 :=
  if 48 ≤ c ∧ c ≤ 57 then some (c - 48)
  else if 97 ≤ tolower c ∧ tolower c ≤ 102 then some (tolower c - 87)
  else none

/-- The inner loop of `hex_bytes`, over a token of even length. -/
def hexPairs (cap : Nat) (data : List UInt8) : Token → Except Int (List UInt8)
  | a :: b :: rest =>
    match xdigit a, xdigit b with
    | some high, some low =>
      if data.length = cap then .error (-E2BIG)
      else hexPairs cap (data ++ [high * 16 + low]) rest
    | _, _ => .error (-EINVAL)
  | _ => .ok data

def hexBytes (cap : Nat) (data : List UInt8) : List Token → Except Int (List UInt8)
  | [] => if data.length = 0 then .error (-EINVAL) else .ok data
  | s :: save =>
    if s.length % 2 ≠ 0 then .error (-EINVAL)
    else
      match hexPairs cap data s with
      | .error rc => .error rc
      | .ok data => hexBytes cap data save

def pwmValues (cap : Nat) (values : List Int16) : List Token → Except Int (List Int16)
  | [] => if values.length = 0 then .error (-EINVAL) else .ok values
  | s :: save =>
    if values.length = cap then .error (-E2BIG)
    else
      match number (some s) (-10000) 10000 with
      | none => .error (-EINVAL)
      | some value => pwmValues cap (values ++ [Int16.ofInt value]) save

def cardinalComponent (token : Token) : Option Int :=
  if token = text "-1" then some (-1)
  else if token = text "0" then some 0
  else if token = text "1" then some 1
  else none

/-! ## The peripherals -/

/-- A `float`, by its bits. -/
abbrev Float32Bits := UInt32

def Finite (x : Float32Bits) : Prop := x >>> 23 &&& 0xff ≠ 0xff

instance (x : Float32Bits) : Decidable (Finite x) := inferInstanceAs (Decidable (_ ≠ _))

/-- How `printf` writes a number for `%.6g`. -/
structure Formatter where
  g6 : Float32Bits → List UInt8
  /-- A finite number is written with digits, signs, a point and an exponent. -/
  plain : ∀ x, Finite x → ∀ b ∈ g6 x, IsDigit b ∨ b ∈ text "+-.e"

/-- `imu_fusion_snapshot_t`. -/
structure Snapshot where
  timestampUs : UInt64
  sequence : UInt64
  valid : Bool
  ready : Bool
  accelMms2 : Vector Float32Bits 3
  gyroDps : Vector Float32Bits 3
  orientation : Vector Float32Bits 9
  heading1d : Float32Bits
  heading3d : Float32Bits
  upSide : UInt32

/-- `struct btsensor_peripheral_ops`: what each operation returns, with what it stores. -/
structure PeripheralOps where
  setImuEnabled : Option (Bool → Int32)
  setSensorEnabled : Option (Bool → Int32)
  setImuOdrHz : Option (UInt32 → Int32)
  setAccelFsr : Option (UInt32 → Int32)
  setGyroFsr : Option (UInt32 → Int32)
  getImuOdrIdx : Option (Int32 × UInt32)
  getAccelFsrIdx : Option (Int32 × UInt32)
  getGyroFsrIdx : Option (Int32 × UInt32)
  sensorSelectMode : Option (UInt8 → UInt8 → Int32)
  sensorSend : Option (UInt8 → UInt8 → List UInt8 → Int32)
  sensorSetPwm : Option (Link → UInt8 → List Int16 → Int32)
  imuCaptureStart : Option (UInt32 → Int32)
  imuCaptureStop : Option Int32
  fusionStart : Option Int32
  fusionStop : Option Int32
  fusionStatus : Option (Int32 × Bool × Bool × Bool)
  fusionSnapshot : Option (Int32 × Snapshot)
  fusionCalibrationSave : Option Int32
  fusionCalibrationLoad : Option Int32
  fusionSetBaseAxes : Option (List Int → List Int → Int32)

/-- What a line meets: the table of operations, if there is one, and the formatter. -/
structure World where
  ops : Option PeripheralOps
  format : Formatter
  /-- `btsensor_classic_receive` takes the line. -/
  taken : Bool

namespace World

variable (w : World)

/-- `g_ops && g_ops->op ? … : -ENOTSUP`. -/
def ask (op : PeripheralOps → Option Int32) : Int32 := (w.ops.bind op).getD (Int32.ofInt (-ENOTSUP))

/-- The same for an operation that stores something as well, in `stored`. -/
def fetch {α : Type} (op : PeripheralOps → Option (Int32 × α)) (stored : α) : Int32 × α :=
  (w.ops.bind op).getD (Int32.ofInt (-ENOTSUP), stored)

end World

/-! ## Replies -/

def replyRc (rc : Int32) (what : List UInt8) : List UInt8 :=
  if rc = 0 then text "OK\n"
  else if rc.toInt = -EBUSY then text "ERR busy\n"
  else if rc.toInt = -EINVAL then snprintf replyMax (text "ERR invalid " ++ what ++ text "\n")
  else snprintf replyMax (text "ERR errno=" ++ signed (-rc).toInt ++ text "\n")

/-- `sensor`, with its verb the first of the tokens. -/
def sensor (w : World) (link : Link) : List Token → List UInt8
  | [] => text "ERR invalid SENSOR\n"
  | verb :: save =>
    if equalFold verb "ON" ∨ equalFold verb "OFF" then
      let on := equalFold verb "ON"
      if save ≠ [] then text "ERR invalid SENSOR\n"
      else
        replyRc (w.ask fun ops => ops.setSensorEnabled.map (· on))
          (text (if on then "SENSOR ON" else "SENSOR OFF"))
    else if ¬ equalFold verb "MODE" ∧ ¬ equalFold verb "SEND" ∧ ¬ equalFold verb "PWM" then
      snprintf replyMax (text "ERR invalid " ++ verb ++ text "\n")
    else
      match classId save.head? with
      | none => text "ERR invalid class\n"
      | some cls =>
        let save := save.tail
        if equalFold verb "PWM" then
          match pwmValues 4 [] save with
          | .error n =>
            text (if n = -E2BIG then "ERR too many channels\n" else "ERR invalid pwm\n")
          | .ok values =>
            replyRc (w.ask fun ops => ops.sensorSetPwm.map (· link cls values)) (text "SENSOR PWM")
        else
          match number save.head? 0 7 with
          | none => text "ERR invalid mode\n"
          | some mode =>
            let mode := UInt8.ofNat mode.toNat
            let save := save.tail
            if equalFold verb "MODE" then
              if save ≠ [] then text "ERR invalid mode\n"
              else
                replyRc (w.ask fun ops => ops.sensorSelectMode.map (· cls mode))
                  (text "SENSOR MODE")
            else
              -- the verb is `SEND`: the source's last branch is never taken
              match hexBytes 32 [] save with
              | .error n =>
                text (if n = -E2BIG then "ERR payload too long\n" else "ERR invalid hex\n")
              | .ok data =>
                replyRc (w.ask fun ops => ops.sensorSend.map (· cls mode data))
                  (text "SENSOR SEND")

def fusionBase (w : World) (link : Link) (save : List Token) : List UInt8 :=
  match (save.take 6).mapM cardinalComponent with
  | some [fx, fy, fz, tx, ty, tz] =>
    if save.drop 6 ≠ [] ∨ fx * fx + fy * fy + fz * fz ≠ 1 ∨ tx * tx + ty * ty + tz * tz ≠ 1 ∨
        fx * tx + fy * ty + fz * tz ≠ 0 then
      text "ERR invalid FUSION BASE\n"
    else if link ≠ .classic then replyRc (Int32.ofInt (-ENOTSUP)) (text "FUSION BASE")
    else
      replyRc (w.ask fun ops => ops.fusionSetBaseAxes.map (· [fx, fy, fz] [tx, ty, tz]))
        (text "FUSION BASE")
  | _ => text "ERR invalid FUSION BASE\n"

/-- The values of `imu_side_t`. -/
def sides : List UInt32 := [0, 1, 2, 4, 5, 6]

def Snapshot.zero : Snapshot where
  timestampUs := 0
  sequence := 0
  valid := false
  ready := false
  accelMms2 := .replicate 3 0
  gyroDps := .replicate 3 0
  orientation := .replicate 9 0
  heading1d := 0
  heading3d := 0
  upSide := 0

namespace Snapshot

variable (snap : Snapshot)

/-- The numbers of a snapshot, in the order in which they are printed. -/
def numbers : List Float32Bits :=
  snap.accelMms2.toList ++ snap.gyroDps.toList ++ [snap.heading1d, snap.heading3d] ++
    snap.orientation.toList

def Usable : Prop :=
  snap.valid = true ∧ snap.timestampUs ≠ 0 ∧ snap.upSide ∈ sides ∧ ∀ x ∈ snap.numbers, Finite x

instance : Decidable snap.Usable := inferInstanceAs (Decidable (_ ∧ _ ∧ _ ∧ _))

/-- The whole text of `FUSION GET`. -/
def print (format : Formatter) : List UInt8 :=
  text "FUSION SNAP " ++ decimal snap.sequence.toNat ++ text " " ++
    decimal snap.timestampUs.toNat ++ text " " ++ decimal snap.ready.toNat ++ text " " ++
    decimal snap.upSide.toNat ++ (snap.numbers.flatMap fun x => text " " ++ format.g6 x) ++
    text "\n"

end Snapshot

/-- `fusion`, with its verb the first of the tokens. -/
def fusion (w : World) (link : Link) (save : List Token) : List UInt8 :=
  let verb := save.head?
  let save := save.tail
  if verb = some (text "BASE") then fusionBase w link save
  else if verb = some (text "CAL") then
    if (save ≠ [text "SAVE"] ∧ save ≠ [text "LOAD"]) then text "ERR invalid FUSION CAL\n"
    else
      let rc :=
        if link ≠ .classic then Int32.ofInt (-ENOTSUP)
        else if save = [text "SAVE"] then w.ask (·.fusionCalibrationSave)
        else w.ask (·.fusionCalibrationLoad)
      replyRc rc (text "FUSION CAL")
  else if verb = none ∨ save ≠ [] then text "ERR invalid FUSION\n"
  else if link ≠ .classic then replyRc (Int32.ofInt (-ENOTSUP)) (text "FUSION")
  else if verb = some (text "START") then replyRc (w.ask (·.fusionStart)) (text "FUSION")
  else if verb = some (text "STOP") then replyRc (w.ask (·.fusionStop)) (text "FUSION")
  else if verb = some (text "STATUS") then
    let (rc, starting, running, stopping) := w.fetch (·.fusionStatus) (false, false, false)
    if rc ≠ 0 then replyRc rc (text "FUSION")
    else
      snprintf replyMax (text "FUSION STATUS " ++ decimal starting.toNat ++ text " " ++
        decimal running.toNat ++ text " " ++ decimal stopping.toNat ++ text "\n")
  else if verb = some (text "GET") then
    let (rc, snap) := w.fetch (·.fusionSnapshot) .zero
    if rc ≠ 0 then replyRc rc (text "FUSION")
    else if ¬ snap.Usable then replyRc (Int32.ofInt (- EIO)) (text "FUSION")
    else if (snap.print w.format).length ≥ Tx.responseMaxLen + 1 then
      replyRc (Int32.ofInt (-E2BIG)) (text "FUSION")
    else snap.print w.format
  else text "ERR invalid FUSION\n"

/-- The branch `SET` of `process`. -/
def processSet (w : World) : List Token → List UInt8
  | [what, arg] =>
    match unsignedNumber arg with
    | none => text "ERR invalid value\n"
    | some setting =>
      if what = text "ODR" then replyRc (w.ask fun ops => ops.setImuOdrHz.map (· setting)) what
      else if what = text "ACCEL_FSR" then
        replyRc (w.ask fun ops => ops.setAccelFsr.map (· setting)) what
      else if what = text "GYRO_FSR" then
        replyRc (w.ask fun ops => ops.setGyroFsr.map (· setting)) what
      else snprintf replyMax (text "ERR invalid " ++ what ++ text "\n")
  | _ => text "ERR invalid SET\n"

/-- What `GET` says of an index. -/
def replyIndex (r : Int32 × UInt32) : List UInt8 :=
  if r.1 < 0 then snprintf replyMax (text "ERR errno=" ++ signed (-r.1).toInt ++ text "\n")
  else snprintf replyMax (text "OK " ++ decimal r.2.toNat ++ text "\n")

/-- The branch `GET` of `process`. -/
def processGet (w : World) : List Token → List UInt8
  | [what] =>
    if what = text "ODR" then replyIndex (w.fetch (·.getImuOdrIdx) 0)
    else if what = text "ACCEL_FSR" then replyIndex (w.fetch (·.getAccelFsrIdx) 0)
    else if what = text "GYRO_FSR" then replyIndex (w.fetch (·.getGyroFsrIdx) 0)
    else snprintf replyMax (text "ERR invalid " ++ what ++ text "\n")
  | _ => text "ERR invalid GET\n"

/-- The branch `IMU` of `process`. -/
def processImu (w : World) : List Token → List UInt8
  | [] => text "ERR invalid IMU\n"
  | arg :: save =>
    if arg ≠ text "ON" ∧ arg ≠ text "OFF" then
      snprintf replyMax (text "ERR invalid " ++ arg ++ text "\n")
    else if save ≠ [] then text "ERR invalid IMU\n"
    else
      replyRc (w.ask fun ops => ops.setImuEnabled.map (· (arg = text "ON")))
        (text (if arg = text "ON" then "IMU ON" else "IMU OFF"))

/-- The branch `_IMU_CAP` of `process`. -/
def processImuCap (w : World) : List Token → List UInt8
  | [] => text "ERR invalid _IMU_CAP\n"
  | sub :: save =>
    if equalFold sub "STOP" then
      if save ≠ [] then text "ERR invalid _IMU_CAP\n"
      else replyRc (w.ask (·.imuCaptureStop)) (text "_IMU_CAP STOP")
    else if equalFold sub "START" then
      let duration :=
        match save.head? with
        | none => some 0
        | arg => number arg 0 86400
      match duration with
      | none => text "ERR invalid duration\n"
      | some value =>
        if save.tail ≠ [] then text "ERR invalid _IMU_CAP\n"
        else
          replyRc (w.ask fun ops => ops.imuCaptureStart.map (· (UInt32.ofNat value.toNat)))
            (text "_IMU_CAP START")
    else snprintf replyMax (text "ERR invalid _IMU_CAP " ++ sub ++ text "\n")

/-- `process`; a line without a token is not answered. -/
def process (w : World) (link : Link) (line : List UInt8) : Option (List UInt8) :=
  match tokens line with
  | [] => none
  | cmd :: save =>
    if equalFold cmd "PING" then
      some (text (if save ≠ [] then "ERR invalid PING\n" else "OK PONG\n"))
    else if cmd = text "FUSION" then some (fusion w link save)
    else if cmd = text "IMU" then some (processImu w save)
    else if cmd = text "SENSOR" then some (sensor w link save)
    else if cmd = text "SET" then some (processSet w save)
    else if cmd = text "GET" then some (processGet w save)
    else if equalFold cmd "_IMU_CAP" then some (processImuCap w save)
    else some (snprintf replyMax (text "ERR unknown " ++ cmd ++ text "\n"))

/-- The string handed to `btsensor_tx_enqueue_response_for_link`, if there is one. -/
def Handled.reply (w : World) (link : Link) : Handled → Option (List UInt8)
  | .overflow => some (text "ERR overflow\n")
  | .line bytes => if w.taken then none else process w link bytes

end Brickwright.Btsensor.Neutral
