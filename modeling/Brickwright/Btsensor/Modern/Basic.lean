import Brickwright.Machine.Calls
import Brickwright.Text.Decimal

/-!
# The tunnel of the modern service (`btsensor_modern.c`)

`dispatch_tunnel` matches a payload against a few fixed command texts and calls the operation
callback with what it found. Its cursor and the operation it fills are the state of a recogniser,
which leaves by `goto opaque` or with `-ERANGE`; both keep what it has written so far.

The message types other than the tunnel, and the fields `color` and `frame`, which only other
services fill, are left out.
-/

namespace Brickwright.Btsensor.Modern

open Decimal

/-- `BTSENSOR_MODERN_MAX_MESSAGE`. -/
def maxMessage : Nat := 1024

def ERANGE : Int := 34

def EMSGSIZE : Int := 90

def ENOTSUP : Int := 95

/-- `enum btsensor_modern_operation_kind`. -/
inductive OperationKind where
  | motor | matrix3 | matrix5Pixel | matrix5Clear | soundBeep | soundStop | tunnelOpaque
  | statusLight | matrix5Frame
  deriving DecidableEq, Repr

/-- `struct btsensor_modern_operation`, with what `op = {0}` sets it to. -/
structure Operation where
  kind : OperationKind := .motor
  opaqueBytes : List UInt8 := []
  port : UInt8 := 0
  speed : Int8 := 0
  endState : UInt8 := 0
  hasEndState : Bool := false
  pixels : Vector UInt8 9 := .replicate 9 0
  x : UInt8 := 0
  y : UInt8 := 0
  brightness : UInt8 := 0
  frequencyHz : UInt16 := 0
  durationMs : UInt16 := 0
  deriving DecidableEq, Repr

/-- How the recogniser leaves before its end. -/
inductive Exit where
  | gotoOpaque
  | outOfRange
  deriving DecidableEq, Repr

/-- What `c.p` points at up to `c.end`, and the operation. -/
structure Scan where
  rest : List UInt8
  op : Operation
  deriving DecidableEq, Repr

abbrev Recogniser := EStateM Exit Scan

/-- The cursor moves only if the literal is there. -/
def takeLiteral (literal : List UInt8) : Recogniser Bool := fun c =>
  if literal <+: c.rest then .ok true { c with rest := c.rest.drop literal.length }
  else .ok false c

/-- The `do` loop: the number read so far, unless it passes 100000, and where the cursor is left. -/
def takeDigits (value : Nat) : List UInt8 → Option Nat × List UInt8
  | [] => (some value, [])
  | b :: rest =>
    if IsDigit b then
      if shift value b > 100000 then (none, rest) else takeDigits (shift value b) rest
    else (some value, b :: rest)

-- the byte that is there is looked at, not all bytes
attribute [local instance (high)] Option.decidableForallMem

/-- The number behind the sign, if `start` has one: the number of bytes taken, the sign among them,
and the first digit decide whether it is canonical. -/
def takeUnsigned (negative : Bool) (start : List UInt8) : Option Int × List UInt8 :=
  if ∀ b ∈ start.head?, ¬ IsDigit b then (none, start)
  else
    match takeDigits 0 start with
    | (none, rest) => (none, rest)
    | (some value, rest) =>
      if negative.toNat + (start.length - rest.length) > 1 ∧ start.head? = some 48 then (none, rest)
      else (some (if negative then -(value : Int) else value), rest)

/-- The function `take_integer` on the bytes at the cursor. -/
def takeIntegerAt (start : List UInt8) : Option Int × List UInt8 :=
  if start.head? = some 45 then takeUnsigned true start.tail else takeUnsigned false start

def takeInteger : Recogniser (Option Int) := fun c =>
  .ok (takeIntegerAt c.rest).1 { c with rest := (takeIntegerAt c.rest).2 }

/-- `c.p == c.end`. -/
def atEnd : Recogniser Bool := fun c => .ok c.rest.isEmpty c

/-- `if (!take_literal(&c, …)) goto opaque;` -/
def expect (literal : List UInt8) : Recogniser Unit := do
  if !(← takeLiteral literal) then throw .gotoOpaque

/-- `if (!take_integer(&c, &value)) goto opaque; if (value < lo || value > hi) return -ERANGE;` and
the assignment to the operation. -/
def number (lo hi : Int) (store : Int → Operation → Operation) : Recogniser Unit := do
  let some value ← takeInteger | throw .gotoOpaque
  if value < lo ∨ value > hi then throw .outOfRange
  modify fun c => { c with op := store value c.op }

/-- `if (c.p != c.end) goto opaque;` -/
def expectEnd : Recogniser Unit := do
  if !(← atEnd) then throw .gotoOpaque

/-- `if (c.p == c.end || *c.p < 'A' || *c.p > 'F') goto opaque;` and the assignment to the port. -/
def portLetter (store : UInt8 → Operation → Operation) : Recogniser Unit := fun c =>
  match c.rest with
  | [] => .error .gotoOpaque c
  | b :: rest =>
    if b < 65 ∨ b > 70 then .error .gotoOpaque c else .ok () ⟨rest, store (b - 65) c.op⟩

def store (f : Operation → Operation) : Recogniser Unit := modify fun c => { c with op := f c.op }

/-! ## The command forms -/

def motorLiteral : List UInt8 := text "\x7b\"m\":\"motor\",\"p\":\x7b\"port\":"

/-- Behind the first literal, as in the forms below. -/
def motor : Recogniser Unit := do
  number 0 5 fun value op => { op with kind := .motor, port := value.toNat.toUInt8 }
  expect (text ",\"speed\":")
  number (-100) 100 fun value op => { op with speed := Int8.ofInt value }
  if ← takeLiteral (text ",\"end_state\":") then
    number 0 2 fun value op => { op with hasEndState := true, endState := value.toNat.toUInt8 }
  expect (text "\x7d\x7d")
  expectEnd

def display3x3Literal : List UInt8 := text "\x7b\"m\":\"display_3x3\",\"p\":\x7b\"port\":"

def display3x3 : Recogniser Unit := do
  number 0 5 fun value op => { op with kind := .matrix3, port := value.toNat.toUInt8 }
  expect (text ",\"data\":[")
  (List.finRange 9).forM fun i => do
    number 0 255 fun value op => { op with pixels := op.pixels.set i value.toNat.toUInt8 }
    if i ≠ 8 then expect (text ",")
  expect (text "]\x7d\x7d")
  expectEnd

def storePixel (i : Fin 9) (value : Int) (op : Operation) : Operation :=
  { op with pixels := op.pixels.set i value.toNat.toUInt8 }

def lastPixel : Fin 9 := 8

def motorRunLiteral : List UInt8 := text "import motor\nfrom hub import port\nmotor.run(port."

def motorRun : Recogniser Unit := do
  portLetter fun port op => { op with kind := .motor, port := port }
  if ← takeLiteral (text ", 750)") then store fun op => { op with speed := 75 }
  else if ← takeLiteral (text ", -750)") then store fun op => { op with speed := -75 }
  else throw .gotoOpaque
  expectEnd

def motorStopLiteral : List UInt8 := text "import motor\nfrom hub import port\nmotor.stop(port."

def motorStop : Recogniser Unit := do
  portLetter fun port op =>
    { op with kind := .motor, port := port, hasEndState := true, endState := 0 }
  expect (text ")")
  expectEnd

def setPixelLiteral : List UInt8 :=
  text "from hub import light_matrix\nlight_matrix.set_pixel("

def setPixel : Recogniser Unit := do
  store fun op => { op with kind := .matrix5Pixel }
  number 0 4 fun value op => { op with x := value.toNat.toUInt8 }
  expect (text ", ")
  number 0 4 fun value op => { op with y := value.toNat.toUInt8 }
  expect (text ", ")
  number 0 100 fun value op => { op with brightness := value.toNat.toUInt8 }
  expect (text ")")
  expectEnd

def clearLiteral : List UInt8 := text "from hub import light_matrix\nlight_matrix.clear()"

def beepLiteral : List UInt8 := text "from hub import sound\nsound.beep("

def beep : Recogniser Unit := do
  store fun op => { op with kind := .soundBeep }
  number 100 10000 fun value op => { op with frequencyHz := value.toNat.toUInt16 }
  expect (text ", ")
  number 0 60000 fun value op => { op with durationMs := value.toNat.toUInt16 }
  expect (text ", 100)")
  expectEnd

/-- The chain of alternatives. That of `clear()` has moved the cursor when bytes follow it. -/
def recognise : Recogniser Unit := do
  if ← takeLiteral motorLiteral then motor
  else if ← takeLiteral display3x3Literal then display3x3
  else if ← takeLiteral motorRunLiteral then motorRun
  else if ← takeLiteral motorStopLiteral then motorStop
  else if ← takeLiteral setPixelLiteral then setPixel
  else if ← takeLiteral clearLiteral <&&> atEnd then
    store fun op => { op with kind := .matrix5Clear }
  else if ← takeLiteral beepLiteral then beep
  else throw .gotoOpaque

/-- `dispatch_tunnel`: the call of `service->operation`, if there is one. -/
def dispatchTunnel (installed : Bool) (payload : List UInt8) : Calls Operation Int Int :=
  if !installed then .ret (-ENOTSUP)
  else if payload.length > maxMessage then .ret (-EMSGSIZE)
  else
    match recognise ⟨payload, {}⟩ with
    | .ok _ c => .call c.op .ret
    | .error .outOfRange _ => .ret (-ERANGE)
    | .error .gotoOpaque c =>
      .call { c.op with kind := .tunnelOpaque, opaqueBytes := payload } .ret

end Brickwright.Btsensor.Modern
