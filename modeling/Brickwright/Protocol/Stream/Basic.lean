import Brickwright.Protocol.Codec.Basic

/-!
# The stream decoder (`bw_spike_stream_feed`)

Two frames can be under way at once: one of low priority and, begun by a byte 1 at any moment, one
of high priority that is finished first. The model keeps the two buffers as the bytes they hold.
-/

namespace Brickwright.Protocol

/-- `BW_SPIKE_STREAM_MAX_FRAME`. -/
def streamMaxFrame : Nat := 1026

/-- `struct bw_spike_stream`. -/
structure Stream where
  low : List UInt8
  high : List UInt8
  highActive : Bool
  deriving DecidableEq, Repr

/-- What `bw_spike_stream_reset` leaves. -/
def Stream.reset : Stream := ⟨[], [], false⟩

def Stream.frame (s : Stream) : List UInt8 := if s.highActive then s.high else s.low

def Stream.setFrame (s : Stream) (frame : List UInt8) : Stream :=
  if s.highActive then { s with high := frame } else { s with low := frame }

theorem Stream.frame_setFrame (s : Stream) (frame : List UInt8) :
    (s.setFrame frame).frame = frame := by
  unfold Stream.setFrame Stream.frame
  split <;> simp_all

theorem Stream.setFrame_setFrame (s : Stream) (frame frame' : List UInt8) :
    (s.setFrame frame).setFrame frame' = s.setFrame frame' := by
  unfold Stream.setFrame
  split <;> simp_all

theorem Stream.setFrame_frame (s : Stream) : s.setFrame s.frame = s := by
  unfold Stream.setFrame Stream.frame
  split <;> rfl

/-- The local `payload`, of whose contents only what `bw_spike_unpack` writes is read. -/
def Stream.payload : Region where
  cells := List.replicate streamMaxFrame 0
  capacity := streamMaxFrame
  fits := Nat.le_of_eq List.length_replicate.symm

/-- What a call leaves behind: its status, the stream and the callback's context. -/
structure Fed (σ : Type) where
  status : Int
  stream : Stream
  context : σ

variable {σ : Type} (callback : List UInt8 → Bool → σ → Int × σ)

/-- The body of the `for` loop. Every `return` in it has a status other than 0, so 0 stands for
going on with the next byte. -/
def feedByte (s : Stream) (context : σ) (byte : UInt8) : Fed σ :=
  if byte = 1 then ⟨0, { s with high := [], highActive := true }, context⟩
  else if byte = C.delimiterEnd then
    if s.frame.length ≠ 0 then
      let w := C.unpack (s.frame ++ [C.delimiterEnd]) Stream.payload
      let s' := { s.setFrame [] with highActive := false }
      if w.status ≠ .ok then ⟨w.status.code, Stream.reset, context⟩
      else
        let r := callback (w.cells.take w.length) s.highActive context
        ⟨r.1, s', r.2⟩
    else ⟨0, { s with highActive := false }, context⟩
  else if byte = C.xor ∨ s.frame.length ≥ streamMaxFrame - 1 then
    ⟨if byte = C.xor then Status.invalid.code else Status.noSpace.code, Stream.reset, context⟩
  else ⟨0, s.setFrame (s.frame ++ [byte]), context⟩

/-- `bw_spike_stream_feed`. -/
def feed (s : Stream) (context : σ) : List UInt8 → Fed σ
  | [] => ⟨Status.ok.code, s, context⟩
  | byte :: data =>
    let r := feedByte callback s context byte
    if r.status ≠ 0 then r else feed r.stream r.context data

/-- One call for each chunk, with the statuses they return. -/
def feedAll (s : Stream) (context : σ) : List (List UInt8) → List Int × Stream × σ
  | [] => ([], s, context)
  | chunk :: chunks =>
    let r := feed callback s context chunk
    let rest := feedAll r.stream r.context chunks
    (r.status :: rest.1, rest.2)

end Brickwright.Protocol

/-!
## The stream decoder in JavaScript (`FrameDecoder` of `protocol/js/spike-codec.js`)

As in C, a frame of high priority may come in the middle of one of low priority. A push that throws
leaves the decoder as it stands then, and gives nothing back. A time is any number.
-/

namespace Brickwright.Protocol.Js

/-- Why `push` throws. -/
inductive PushError where
  | controlByte
  | tooLarge
  /-- `unpack` has thrown. -/
  | unpack
  deriving DecidableEq, Repr

structure FrameDecoder (τ : Type) where
  maxFrameSize : Nat
  timeoutMs : τ
  low : List UInt8
  high : Option (List UInt8)
  lastByteAt : Option τ
  deriving DecidableEq, Repr

namespace FrameDecoder

variable {τ : Type} (d : FrameDecoder τ)

def reset : FrameDecoder τ := { d with low := [], high := none, lastByteAt := none }

def new (maxFrameSize : Nat) (timeoutMs : τ) : FrameDecoder τ :=
  ⟨maxFrameSize, timeoutMs, [], none, none⟩

def expire [Sub τ] [LE τ] [DecidableLE τ] (nowMs : τ) : FrameDecoder τ × Bool :=
  match d.lastByteAt with
  | some at_ => if nowMs - at_ ≥ d.timeoutMs then (d.reset, true) else (d, false)
  | none => (d, false)

def active : List UInt8 := d.high.getD d.low

def close : FrameDecoder τ :=
  match d.high with
  | none => { d with low := [] }
  | some _ => { d with high := none }

def append (byte : UInt8) : FrameDecoder τ :=
  match d.high with
  | none => { d with low := d.low ++ [byte] }
  | some high => { d with high := some (high ++ [byte]) }

/-- The body of the `for` loop: the payload that is pushed, or what is thrown. -/
def pushByte (nowMs : τ) (byte : UInt8) : FrameDecoder τ × Except PushError (List (List UInt8)) :=
  let d := { d with lastByteAt := some nowMs }
  if byte = 1 then ({ d with high := some [] }, .ok [])
  else if byte = END then
    if d.active.length > 0 then
      match unpack (d.active ++ [END]) with
      | none => (d, .error .unpack)
      | some payload => (d.close, .ok [payload])
    else (d.close, .ok [])
  else if byte = 3 then (d.reset, .error .controlByte)
  else if (d.append byte).active.length > d.maxFrameSize then (d.reset, .error .tooLarge)
  else (d.append byte, .ok [])

/-- `push`, with the payloads so far. -/
def pushFrom (nowMs : τ) (payloads : List (List UInt8)) :
    FrameDecoder τ → List UInt8 → FrameDecoder τ × Except PushError (List (List UInt8))
  | d, [] => (d, .ok payloads)
  | d, byte :: chunk =>
    match d.pushByte nowMs byte with
    | (d, .ok more) => pushFrom nowMs (payloads ++ more) d chunk
    | (d, .error e) => (d, .error e)

def push (chunk : List UInt8) (nowMs : τ) : FrameDecoder τ × Except PushError (List (List UInt8)) :=
  pushFrom nowMs [] d chunk

end FrameDecoder

end Brickwright.Protocol.Js
