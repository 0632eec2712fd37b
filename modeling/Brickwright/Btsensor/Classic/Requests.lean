import Brickwright.Btsensor.Backend.Basic

/-!
# The lines of the Classic adapter (`btsensor_classic.c`)

A line is one of two texts of the older sound commands, or a JSON object with an identifier, a
method and its parameters, in exactly one spelling. A parser is a cursor on the bytes that are left;
one that fails makes the C function return false.

`Todo` is what a request comes to before anything outside the adapter is asked.
-/

namespace Brickwright.Btsensor.Classic

open Decimal Backend

def EOVERFLOW : Int := 75
def ETIMEDOUT : Int := 110

/-- A port below `CLASSIC_PORT_COUNT`. -/
abbrev Port := Fin 6

/-- `CLASSIC_TIMED_MAX_MS`. -/
def timedMaxMs : Nat := 60000

abbrev Cursor := StateT (List UInt8) Option

def take (literal : List UInt8) : Cursor Unit := fun rest =>
  if literal <+: rest then some ((), rest.drop literal.length) else none

/-- At least `n` bytes are left. -/
def need (n : Nat) : Cursor Unit := fun rest => if rest.length < n then none else some ((), rest)

/-- The parser on all of the bytes: `p != end` is refused. -/
def whole {α : Type} (parser : Cursor α) (bytes : List UInt8) : Option α :=
  match parser bytes with
  | some (a, []) => some a
  | _ => none

/-- The loop over the digits, which stops before a number that has passed 1000000 grows. -/
def digits (result : Nat) : List UInt8 → Option (Nat × List UInt8)
  | [] => some (result, [])
  | b :: rest =>
    if IsDigit b then
      if result > 1000000 then none else digits (shift result b) rest
    else some (result, b :: rest)

-- the byte that is there is looked at, not all bytes
attribute [local instance (high)] Option.decidableForallMem

/-- `parse_integer` behind the sign. -/
def parseUnsigned : Cursor Nat := fun p =>
  if ∀ b ∈ p.head?, ¬ IsDigit b then none
  else if p.head? = some 48 ∧ ∃ b ∈ p.tail.head?, IsDigit b then none
  else digits 0 p

def parseInteger (minimum maximum : Int) : Cursor Int := do
  let negative := (← get).head? = some 45
  if negative then modify List.tail
  let result ← parseUnsigned
  let value : Int := if negative then -result else result
  if value < minimum ∨ value > maximum then failure
  pure value

/-- `*p < 'A' || *p > 'F'`, and the port. -/
def parsePort : Cursor Port
  | [] => none
  | b :: rest => if h : (b - 65).toNat < 6 then some (⟨(b - 65).toNat, h⟩, rest) else none

def parseStall : Cursor Bool :=
  (do take (text "true\x7d"); pure true) <|> (do take (text "false\x7d"); pure false)

/-! ## Requests -/

/-- `struct request`. -/
structure Request where
  method : List UInt8
  params : List UInt8
  id : Option (List UInt8)
  deriving DecidableEq

def IdByte (b : UInt8) : Prop := 48 ≤ b ∧ b ≤ 57 ∨ 97 ≤ b ∧ b ≤ 122

instance (b : UInt8) : Decidable (IdByte b) := inferInstanceAs (Decidable (_ ∨ _))

def MethodByte (b : UInt8) : Prop := 97 ≤ b ∧ b ≤ 122 ∨ b = 46 ∨ b = 95

instance (b : UInt8) : Decidable (MethodByte b) := inferInstanceAs (Decidable (_ ∨ _))

/-- `"i":"…","m":"` or `"m":"`. -/
def parseId : Cursor (Option (List UInt8)) := do
  if text "\"i\":\"" <+: (← get) then
    take (text "\"i\":\"")
    need 10
    let id := (← get).take 4
    if ∃ b ∈ id, ¬ IdByte b then failure
    modify (List.drop 4)
    take (text "\",\"m\":\"")
    pure (some id)
  else
    take (text "\"m\":\"")
    pure none

def parseMethod : Cursor (List UInt8) := do
  let method := (← get).takeWhile (· ≠ 34)
  if method = [] ∨ ∃ b ∈ method, ¬ MethodByte b then failure
  modify (List.dropWhile (· ≠ 34))
  pure method

/-- The parameters are what is left up to the last byte, which closes the object. -/
def parseParams : Cursor (List UInt8) := do
  let rest ← get
  if rest.getLast? ≠ some 125 ∨ rest.dropLast = [] then failure
  set ([] : List UInt8)
  pure rest.dropLast

def parseRequest (line : List UInt8) : Option Request := flip whole line do
  need 15
  take (text "\x7b")
  let id ← parseId
  let method ← parseMethod
  need 7
  take (text "\",\"p\":")
  let params ← parseParams
  pure ⟨method, params, id⟩

/-! ## Parameters -/

/-- `{"port":"…","speed":…`, with which the motor methods but one begin. -/
def parsePortSpeed : Cursor (Port × Operation) := do
  take (text "\x7b\"port\":\"")
  let port ← parsePort
  take (text "\",\"speed\":")
  let speed ← parseInteger (-100) 100
  pure (port, { kind := .motor, port := port.val.toUInt8, speed := Int8.ofInt speed })

def parseMotorStart : Cursor ((Port × Operation) × Bool) := do
  let motor ← parsePortSpeed
  take (text ",\"stall\":")
  let stall ← parseStall
  pure (motor, stall)

def parseMotorStop : Cursor (Port × Operation) := do
  take (text "\x7b\"port\":\"")
  let port ← parsePort
  take (text "\",\"stop\":")
  let stop ← parseInteger 0 2
  take (text "\x7d")
  pure (port, stopOperation port stop.toNat.toUInt8)

/-- `,"<field>":…,"stop":…,"stall":…`, with which the two kinds of runs end. -/
def parseRunEnd (field : List UInt8) (minimum maximum : Int) : Cursor (Int × UInt8 × Bool) := do
  take field
  let value ← parseInteger minimum maximum
  take (text ",\"stop\":")
  let stop ← parseInteger 0 2
  take (text ",\"stall\":")
  let stall ← parseStall
  pure (value, stop.toNat.toUInt8, stall)

def parseMotorTimed : Cursor ((Port × Operation) × Int × UInt8 × Bool) := do
  let motor ← parsePortSpeed
  let run ← parseRunEnd (text ",\"time\":") 0 timedMaxMs
  pure (motor, run)

def parseMotorDegrees : Cursor ((Port × Operation) × Int × UInt8 × Bool) := do
  let motor ← parsePortSpeed
  let run ← parseRunEnd (text ",\"degrees\":") (-1000000) 1000000
  pure (motor, run)

def beep (frequency duration : Int) : Operation where
  kind := .soundBeep
  frequencyHz := frequency.toNat.toUInt16
  durationMs := duration.toNat.toUInt16

def parseSoundBeep : Cursor Operation := do
  take (text "\x7b\"frequency\":")
  let frequency ← parseInteger 100 10000
  take (text ",\"duration\":")
  let duration ← parseInteger 0 60000
  take (text "\x7d")
  pure (beep frequency duration)

/-- The levels 0 to 9 become percent, rounded to the nearest. -/
def parseDisplaySetPixel : Cursor Operation := do
  take (text "\x7b\"x\":")
  let x ← parseInteger 0 4
  take (text ",\"y\":")
  let y ← parseInteger 0 4
  take (text ",\"brightness\":")
  let brightness ← parseInteger 0 9
  take (text "\x7d")
  pure { kind := .matrix5Pixel, x := x.toNat.toUInt8, y := y.toNat.toUInt8,
         brightness := ((brightness.toNat * 100 + 4) / 9).toUInt8 }

/-- `g_glyphs`: a character and its five rows. -/
def glyphs : List (UInt8 × List UInt8) :=
  [(32, [0, 0, 0, 0, 0]), (33, [4, 4, 4, 0, 4]), (34, [10, 10, 0, 0, 0]), (39, [4, 4, 0, 0, 0]),
    (43, [0, 4, 14, 4, 0]), (44, [0, 0, 0, 4, 8]), (45, [0, 0, 14, 0, 0]), (46, [0, 0, 0, 0, 4]),
    (47, [1, 2, 4, 8, 16]), (48, [14, 19, 21, 25, 14]), (49, [4, 12, 4, 4, 14]),
    (50, [14, 1, 6, 8, 31]), (51, [30, 1, 14, 1, 30]), (52, [6, 10, 18, 31, 2]),
    (53, [31, 16, 30, 1, 30]), (54, [14, 16, 30, 17, 14]), (55, [31, 2, 4, 8, 16]),
    (56, [14, 17, 14, 17, 14]), (57, [14, 17, 15, 1, 14]), (58, [0, 4, 0, 4, 0]),
    (61, [0, 14, 0, 14, 0]), (63, [14, 17, 6, 0, 4]), (65, [14, 17, 31, 17, 17]),
    (66, [30, 17, 30, 17, 30]), (67, [15, 16, 16, 16, 15]), (68, [30, 17, 17, 17, 30]),
    (69, [31, 16, 30, 16, 31]), (70, [31, 16, 30, 16, 16]), (71, [15, 16, 19, 17, 14]),
    (72, [17, 17, 31, 17, 17]), (73, [14, 4, 4, 4, 14]), (74, [7, 2, 2, 18, 12]),
    (75, [17, 18, 28, 18, 17]), (76, [16, 16, 16, 16, 31]), (77, [17, 27, 21, 17, 17]),
    (78, [17, 25, 21, 19, 17]), (79, [14, 17, 17, 17, 14]), (80, [30, 17, 30, 16, 16]),
    (81, [14, 17, 21, 18, 13]), (82, [30, 17, 30, 18, 17]), (83, [15, 16, 14, 1, 30]),
    (84, [31, 4, 4, 4, 4]), (85, [17, 17, 17, 17, 14]), (86, [17, 17, 17, 10, 4]),
    (87, [17, 17, 21, 27, 17]), (88, [17, 10, 4, 10, 17]), (89, [17, 10, 4, 4, 4]),
    (90, [31, 2, 4, 8, 31])]

/-- `btsensor_font5_glyph`. -/
def glyph (c : UInt8) : Option (List UInt8) :=
  glyphs.lookup (if 97 ≤ c ∧ c ≤ 122 then c - 32 else c)

/-- The loop of `parse_display_text`: the first character, and what is left from the quote on. -/
def parseText (first : Option UInt8) : List UInt8 → Option (Option UInt8 × List UInt8)
  | [] => some (first, [])
  | 34 :: rest => some (first, 34 :: rest)
  | [92] => none
  | 92 :: 117 :: _ :: _ :: _ :: _ :: rest => parseText (some (first.getD 63)) rest
  | 92 :: c :: rest =>
    if c = 34 ∨ c = 92 ∨ c = 47 then parseText (some (first.getD c)) rest else none
  | c :: rest => parseText (some (first.getD c)) rest

/-- The lit columns of a row, from the left. -/
def rowFrame (row : UInt8) : List UInt8 :=
  [4, 3, 2, 1, 0].map fun x => if row >>> x &&& 1 = 1 then 100 else 0

/-- The first character on the display; `?` stands for one without a glyph. -/
def textFrame (first : Option UInt8) : Vector UInt8 25 :=
  let rows := first.elim [] fun c => (glyph c).getD ((glyph 63).getD [])
  Vector.ofFn fun i => (rows.flatMap rowFrame).getD i 0

def parseDisplayText : Cursor Operation := do
  take (text "\x7b\"text\":\"")
  let first ← parseText none
  take (text "\"\x7d")
  pure { kind := .matrix5Frame, frame := textFrame first }

def parseCenterButtonLights : Cursor Operation := do
  take (text "\x7b\"color\":")
  let color ← parseInteger 0 10
  take (text "\x7d")
  pure { kind := .statusLight, color := color.toNat.toUInt8 }

def parseLegacySound (line : List UInt8) : Option Operation :=
  if line = text "import hub; hub.sound.stop()" then some { kind := .soundStop }
  else flip whole line do
    take (text "import hub; hub.sound.beep(")
    let frequency ← parseInteger 100 10000
    take (text ", ")
    let duration ← parseInteger 0 60000
    take (text ", hub.sound.SOUND_SIN)")
    pure (beep frequency duration)

/-! ## What a request comes to -/

/-- How far a run goes: for a time, or by an angle. -/
inductive Goal where
  | timed (timeMs : UInt64)
  | degrees (angle : Int)
  deriving DecidableEq

inductive Todo where
  | reply (rc : Int)
  | currentState
  /-- The operation, after which the run of `cancel` is cancelled if it went well. -/
  | operate (operation : Operation) (cancel : Option Port)
  /-- The operation, unless a run is active on the port. -/
  | operateIdle (port : Port) (operation : Operation)
  | start (port : Port) (operation : Operation) (goal : Goal) (endState : UInt8)

/-- An operation on its own, with the parameters of a parser. -/
def operateWith (parser : Cursor Operation) (params : List UInt8) : Todo :=
  match whole parser params with
  | none => .reply (-EINVAL)
  | some operation => .operate operation none

def motorStart (params : List UInt8) : Todo :=
  match whole parseMotorStart params with
  | none => .reply (-EINVAL)
  | some ((port, operation), stall) =>
    if stall then .reply (-ENOTSUP) else .operateIdle port operation

def motorStop (params : List UInt8) : Todo :=
  match whole parseMotorStop params with
  | none => .reply (-EINVAL)
  | some (port, operation) => .operate operation (some port)

/-- `start_timed`, up to its lock. -/
def startTimed (port : Port) (operation : Operation) (timeMs : UInt64) (endState : UInt8) : Todo :=
  if endState = 2 then .reply (-ENOTSUP)
  else if timeMs = 0 then .operate (stopOperation port endState) (some port)
  else .start port operation (.timed timeMs) endState

/-- `start_degrees`, up to its lock. -/
def startDegrees (port : Port) (operation : Operation) (angle : Int) (endState : UInt8) : Todo :=
  if endState = 2 then .reply (-ENOTSUP)
  else if angle = 0 then startTimed port operation 0 endState
  else if operation.speed = 0 then .reply (-EINVAL)
  else .start port operation (.degrees angle) endState

def motorRunTimed (params : List UInt8) : Todo :=
  match whole parseMotorTimed params with
  | none => .reply (-EINVAL)
  | some ((port, operation), time, endState, stall) =>
    if stall then .reply (-ENOTSUP) else startTimed port operation time.toNat.toUInt64 endState

def motorRunForDegrees (params : List UInt8) : Todo :=
  match whole parseMotorDegrees params with
  | none => .reply (-EINVAL)
  | some ((port, operation), angle, endState, stall) =>
    if stall then .reply (-ENOTSUP) else startDegrees port operation angle endState

def displayClear (params : List UInt8) : Todo :=
  if params = text "\x7b\x7d" then .operate { kind := .matrix5Clear } none else .reply (-EINVAL)

/-- The methods of `btsensor_classic_receive`; one that it does not know is refused with a reply. -/
def Request.todo (request : Request) : Todo :=
  let params := request.params
  if request.method = text "trigger_current_state" ∧ params = text "\x7b\x7d" then .currentState
  else if request.method = text "scratch.motor_start" then motorStart params
  else if request.method = text "scratch.motor_stop" then motorStop params
  else if request.method = text "scratch.motor_run_timed" then motorRunTimed params
  else if request.method = text "scratch.sound_beep" then operateWith parseSoundBeep params
  else if request.method = text "scratch.display_clear" then displayClear params
  else if request.method = text "scratch.display_set_pixel" then
    operateWith parseDisplaySetPixel params
  else if request.method = text "scratch.display_text" then operateWith parseDisplayText params
  else if request.method = text "scratch.center_button_lights" then
    operateWith parseCenterButtonLights params
  else if request.method = text "scratch.motor_run_for_degrees" then motorRunForDegrees params
  else .reply (-ENOTSUP)

theorem todo_motorRunForDegrees (params : List UInt8) (id : Option (List UInt8)) :
    Request.todo ⟨text "scratch.motor_run_for_degrees", params, id⟩ =
      motorRunForDegrees params := by
  rw [Request.todo]
  repeat rw [text_ofList]
  rfl

end Brickwright.Btsensor.Classic
