import Brickwright.Bytes.Buffers
import Brickwright.Stuffing.Basic

/-!
# The two codecs

The C codec, the JavaScript codec, and the stuffing scheme that both implement.
-/

/-!
## The C codec (`protocol/c/spike_codec.c`)

The functions write through pointers into memory they were given, up to a capacity, so the model
keeps the memory: a `Region` is what a caller hands over, and every function returns the memory as
it leaves it, also where it fails. A list is never the null pointer; the null checks fall away.
-/

namespace Brickwright.Protocol

/-- `enum bw_codec_status`. -/
inductive Status where
  | ok
  | invalid
  | noSpace
  deriving DecidableEq, Repr

def Status.code : Status → Int
  | .ok => 0
  | .invalid => -1
  | .noSpace => -2

/-- Memory of which `capacity` bytes may be written. -/
structure Region where
  cells : List UInt8
  capacity : Nat
  fits : capacity ≤ cells.length

/-- What a call leaves behind: its status, the memory, and the length it reports, which only counts
when the status is `ok`. -/
structure Written where
  status : Status
  cells : List UInt8
  length : Nat
  deriving DecidableEq, Repr

namespace C

def delimiterEnd : UInt8 := 2
def xor : UInt8 := 3
def blockMax : Nat := 84

/-! ### Encoding -/

/-- The locals of `bw_cobs_encode`. -/
structure Encoder where
  dst : List UInt8
  codeIndex : Nat
  out : Nat
  block : Nat

/-- Leave room for the code of the next block. -/
def Encoder.open (e : Encoder) : Encoder :=
  { dst := e.dst.set e.out 0xff, codeIndex := e.out, out := e.out + 1, block := 1 }

/-- The `for` loop of `bw_cobs_encode`. -/
def encodeLoop (capacity : Nat) : List UInt8 → Encoder → Status × Encoder
  | [], e => (.ok, e)
  | byte :: src, e =>
    if byte ≤ 2 then
      let e := { e with
        dst := e.dst.set e.codeIndex (UInt8.ofNat (e.block + 2 + byte.toNat * blockMax)) }
      if e.out ≥ capacity then (.noSpace, e) else encodeLoop capacity src e.open
    else if e.out ≥ capacity then (.noSpace, e)
    else
      let e := { e with dst := e.dst.set e.out byte, out := e.out + 1, block := e.block + 1 }
      if e.block > blockMax then
        if e.out ≥ capacity then (.noSpace, e) else encodeLoop capacity src e.open
      else encodeLoop capacity src e

/-- `bw_cobs_encode`. -/
def cobsEncode (src dst : List UInt8) (capacity : Nat) : Written :=
  if capacity < 1 then ⟨.noSpace, dst, 0⟩
  else
    let r := encodeLoop capacity src ⟨dst.set 0 0xff, 0, 1, 1⟩
    if r.1 = .ok then ⟨.ok, r.2.dst.set r.2.codeIndex (UInt8.ofNat (r.2.block + 2)), r.2.out⟩
    else ⟨r.1, r.2.dst, 0⟩

/-- `bw_spike_pack`. -/
def pack (payload : List UInt8) (highPriority : Bool) (frame : Region) : Written :=
  let start := if highPriority then 1 else 0
  if frame.capacity < start + 2 then ⟨.noSpace, frame.cells, 0⟩
  else
    let cells := if highPriority then frame.cells.set 0 1 else frame.cells
    let e := cobsEncode payload (cells.drop start) (frame.capacity - start - 1)
    let cells := cells.take start ++ e.cells
    if e.status ≠ .ok then ⟨e.status, cells, 0⟩
    else
      let cells := (List.range e.length).foldl (fun c i => c.modify (start + i) (· ^^^ xor)) cells
      ⟨.ok, cells.set (start + e.length) delimiterEnd, start + e.length + 1⟩

/-! ### Decoding -/

/-- What a code byte says: the number of literals, and the delimiter unless it is -1. -/
def blockOf (code : UInt8) : Nat × Option Nat :=
  if code = 0xff then (blockMax, none)
  else ((code.toNat - 3) % blockMax, some ((code.toNat - 3) / blockMax))

/-- The `while` loop of `bw_cobs_decode`, from read position `i` and write position `out`. -/
def decodeLoop (src : List UInt8) (capacity i out : Nat) (dst : List UInt8) : Written :=
  if i < src.length then
    let code := src.getD i 0
    let block := (blockOf code).1
    let delimiter := (blockOf code).2
    let i := i + 1
    if code ≤ 2 then ⟨.invalid, dst, 0⟩
    else if delimiter.any (· > 2) then ⟨.invalid, dst, 0⟩
    else if i + block > src.length then ⟨.invalid, dst, 0⟩
    else if out + block + (if delimiter.isSome ∧ i + block < src.length then 1 else 0) > capacity
    then ⟨.noSpace, dst, 0⟩
    else
      let dst := dst.overlay out ((src.drop i).take block)
      match delimiter with
      | some d =>
        if i + block < src.length then
          decodeLoop src capacity (i + block) (out + block + 1)
            (dst.set (out + block) (UInt8.ofNat d))
        else decodeLoop src capacity (i + block) (out + block) dst
      | none => decodeLoop src capacity (i + block) (out + block) dst
  else ⟨.ok, dst, out⟩
termination_by src.length - i

/-- `bw_cobs_decode`. -/
def cobsDecode (src : List UInt8) (dst : Region) : Written :=
  if src.length = 0 then ⟨.invalid, dst.cells, 0⟩ else decodeLoop src dst.capacity 0 0 dst.cells

/-- The loop of `bw_spike_unpack` that fills `scratch`; `none` is its early return. -/
def unescape : List UInt8 → Option (List UInt8)
  | [] => some []
  | b :: bs =>
    if b = 1 ∨ b = 2 ∨ b = 3 then none else (unescape bs).map ((b ^^^ xor) :: ·)

def scratchSize : Nat := 1024

/-- `bw_spike_unpack`. -/
def unpack (frame : List UInt8) (payload : Region) : Written :=
  if frame.length < 2 ∨ frame.getD (frame.length - 1) 0 ≠ delimiterEnd then
    ⟨.invalid, payload.cells, 0⟩
  else
    let start := if frame.getD 0 0 = 1 then 1 else 0
    let encodedLen := frame.length - start - 1
    if encodedLen = 0 ∨ encodedLen > scratchSize then ⟨.invalid, payload.cells, 0⟩
    else
      match unescape ((frame.drop start).take encodedLen) with
      | none => ⟨.invalid, payload.cells, 0⟩
      | some scratch => cobsDecode scratch payload

end C

end Brickwright.Protocol

/-!
## The JavaScript codec (`protocol/js/spike-codec.js`)

Arrays grow and a number is any number: the encoder computes its code bytes without a bound, and
`Uint8Array.from` at the end keeps the low eight bits. A thrown error is `none`.
-/

namespace Brickwright.Protocol.Js

def blockMax : Nat := 84
def xor : UInt8 := 3
def END : UInt8 := 2

/-- `Uint8Array.from`. -/
def toBytes (output : List Nat) : List UInt8 := output.map UInt8.ofNat

/-! ### Encoding -/

/-- The locals of `cobsEncode`. -/
structure Encoder where
  output : List Nat
  codeIndex : Nat
  block : Nat

/-- Push the placeholder of the next block's code. -/
def Encoder.open (e : Encoder) : Encoder :=
  { output := e.output ++ [0xff], codeIndex := e.output.length, block := 1 }

/-- The body of the `for` loop of `cobsEncode`. -/
def Encoder.push (e : Encoder) (byte : UInt8) : Encoder :=
  if byte ≤ 2 then
    { e with output := e.output.set e.codeIndex (e.block + 2 + byte.toNat * blockMax) }.open
  else
    let e := { e with output := e.output ++ [byte.toNat], block := e.block + 1 }
    if e.block > blockMax then e.open else e

def Encoder.finish (e : Encoder) : List UInt8 :=
  toBytes (e.output.set e.codeIndex (e.block + 2))

def cobsEncode (input : List UInt8) : List UInt8 :=
  (input.foldl Encoder.push ⟨[0xff], 0, 1⟩).finish

def pack (payload : List UInt8) (highPriority : Bool) : List UInt8 :=
  (if highPriority then [1] else []) ++ (cobsEncode payload).map (· ^^^ xor) ++ [END]

/-! ### Decoding -/

/-- What a code byte says: the number of literals, and the delimiter if there is one. -/
def blockOf (code : UInt8) : Nat × Option Nat :=
  if code = 0xff then (blockMax, none)
  else ((code.toNat - 3) % blockMax, some ((code.toNat - 3) / blockMax))

/-- The `for` loop of `cobsDecode`. -/
def decodeLoop (input : List UInt8) (offset : Nat) (output : List UInt8) : Option (List UInt8) :=
  if offset < input.length then
    let code := input.getD offset 0
    let block := (blockOf code).1
    let delimiter := (blockOf code).2
    let offset := offset + 1
    if code ≤ 2 then none
    else if delimiter.any (· > 2) then none
    else if offset + block > input.length then none
    else
      let output := output ++ (input.drop offset).take block
      match delimiter with
      | some d =>
        if offset + block < input.length then
          decodeLoop input (offset + block) (output ++ [UInt8.ofNat d])
        else decodeLoop input (offset + block) output
      | none => decodeLoop input (offset + block) output
  else some output
termination_by input.length - offset

def cobsDecode (input : List UInt8) : Option (List UInt8) :=
  if input.length = 0 then none else decodeLoop input 0 []

/-- The loop of `unpack`; `none` is its error. -/
def unescape : List UInt8 → Option (List UInt8)
  | [] => some []
  | b :: bs => if b ≥ 1 ∧ b ≤ 3 then none else (unescape bs).map ((b ^^^ xor) :: ·)

def unpack (frame : List UInt8) : Option (List UInt8) :=
  if frame.length < 2 ∨ frame.getD (frame.length - 1) 0 ≠ END then none
  else
    let start := if frame.getD 0 0 = 1 then 1 else 0
    if frame.length - start - 1 = 0 then none
    else
      match unescape (frame.drop start).dropLast with
      | none => none
      | some encoded => cobsDecode encoded

end Brickwright.Protocol.Js

/-!
## The stuffing scheme of the protocol

Both codecs implement one `Stuffing`: bytes 0, 1 and 2 are reserved, a full block has 84 literals,
and the code of a block with fewer is `n + 3 + 84 * d`. This file gives the scheme and shows that
the JavaScript encoder and decoder are `scheme.stuff` and `scheme.unstuff`.
-/

namespace Brickwright.Protocol

open List

/-! ### The scheme -/

def uncode (c : UInt8) : Option (Nat × Option UInt8) :=
  if c ≤ 2 then none
  else if c = 0xff then some (84, none)
  else some ((c.toNat - 3) % 84, some (UInt8.ofNat ((c.toNat - 3) / 84)))

theorem toNat_code {n : Nat} {d : UInt8} (hn : n < 84) (hd : d ≤ 2) :
    (UInt8.ofNat (n + 3 + d.toNat * 84)).toNat = n + 3 + d.toNat * 84 := by
  have hd : d.toNat ≤ 2 := hd
  rw [UInt8.toNat_ofNat']
  omega

def scheme : Stuffing UInt8 where
  limit := 84
  reserved b := decide (b ≤ 2)
  code n d := UInt8.ofNat (n + 3 + d.toNat * 84)
  full := 0xff
  pseudo := 0
  uncode := uncode
  limit_pos := by decide
  pseudo_reserved := by decide
  uncode_code n d hn hd := by
    have hd : d ≤ 2 := of_decide_eq_true hd
    have hnat := toNat_code hn hd
    have hle : d.toNat ≤ 2 := hd
    have hplain : ¬ UInt8.ofNat (n + 3 + d.toNat * 84) ≤ 2 := by
      intro h
      have h : (UInt8.ofNat (n + 3 + d.toNat * 84)).toNat ≤ 2 := h
      omega
    have hshort : UInt8.ofNat (n + 3 + d.toNat * 84) ≠ 0xff := by
      intro h
      have h : (UInt8.ofNat (n + 3 + d.toNat * 84)).toNat = 255 := congrArg UInt8.toNat h
      omega
    have hmod : (n + 3 + d.toNat * 84 - 3) % 84 = n := by omega
    have hdiv : (n + 3 + d.toNat * 84 - 3) / 84 = d.toNat := by omega
    rw [uncode, if_neg hplain, if_neg hshort, hnat, hmod, hdiv, UInt8.ofNat_toNat]
  uncode_full := rfl
  code_plain n d hn hd := by
    have hd : d ≤ 2 := of_decide_eq_true hd
    have hnat := toNat_code hn hd
    apply decide_eq_false
    intro h
    have h : (UInt8.ofNat (n + 3 + d.toNat * 84)).toNat ≤ 2 := h
    omega
  full_plain := by decide

theorem reserved_iff {b : UInt8} : scheme.reserved b = true ↔ b ≤ 2 := decide_eq_true_iff

/-! ### The JavaScript encoder -/

namespace Js

/-- The loop's state while a block is open: what is finished, the placeholder, the literals so
far. -/
def opened (done cur : List UInt8) : Encoder :=
  ⟨(done ++ 0xff :: cur).map UInt8.toNat, done.length, cur.length + 1⟩

theorem toBytes_map_toNat (bytes : List UInt8) : toBytes (bytes.map UInt8.toNat) = bytes := by
  simp [toBytes, Function.comp_def]

theorem opened_set (done cur : List UInt8) {v : Nat} (hv : v < 256) :
    (opened done cur).output.set done.length v =
      (done ++ UInt8.ofNat v :: cur).map UInt8.toNat := by
  have hnat : (UInt8.ofNat v).toNat = v := by
    exact Nat.mod_eq_of_lt hv
  simp only [opened, map_append, map_cons]
  rw [set_append_right _ _ (by simp), length_map, Nat.sub_self, set_cons_zero, hnat]

theorem push_reserved {b : UInt8} (hb : b ≤ 2) {done cur : List UInt8} (hcur : cur.length < 84) :
    (opened done cur).push b = opened (done ++ scheme.code cur.length b :: cur) [] := by
  have hle : b.toNat ≤ 2 := hb
  have hset := opened_set done cur (v := cur.length + 1 + 2 + b.toNat * blockMax)
    (by unfold blockMax; omega)
  rw [Encoder.push, if_pos hb]
  show Encoder.open { opened done cur with output := (opened done cur).output.set done.length _ } =
    _
  rw [show (opened done cur).block = cur.length + 1 from rfl, hset]
  simp only [Encoder.open, opened, scheme, blockMax, length_map]
  simp

theorem push_full {b : UInt8} (hb : ¬ b ≤ 2) (done : List UInt8) {cur : List UInt8}
    (hfull : cur.length + 1 = 84) :
    (opened done cur).push b = opened (done ++ 0xff :: (cur ++ [b])) [] := by
  have hblock : (opened done cur).block + 1 > blockMax := by
    show cur.length + 1 + 1 > 84
    omega
  simp only [Encoder.push, if_neg hb, if_pos hblock]
  simp [opened, Encoder.open]

theorem push_literal {b : UInt8} (hb : ¬ b ≤ 2) (done : List UInt8) {cur : List UInt8}
    (hopen : cur.length + 1 < 84) : (opened done cur).push b = opened done (cur ++ [b]) := by
  have hblock : ¬ (opened done cur).block + 1 > blockMax := by
    show ¬ cur.length + 1 + 1 > 84
    omega
  simp only [Encoder.push, if_neg hb, if_neg hblock]
  simp [opened]

/-- **The encoder**, from any open block. -/
theorem encode_from (src done cur : List UInt8) (hcur : cur.length < 84) :
    (src.foldl Encoder.push (opened done cur)).finish = done ++ scheme.stuffFrom cur src := by
  induction src generalizing done cur with
  | nil =>
    have hset := opened_set done cur (v := cur.length + 1 + 2) (by omega)
    show toBytes ((opened done cur).output.set done.length (cur.length + 1 + 2)) = _
    rw [hset, toBytes_map_toNat]
    rfl
  | cons b src ih =>
    rw [foldl_cons, Stuffing.stuffFrom]
    by_cases hb : b ≤ 2
    · rw [if_pos (reserved_iff.mpr hb), push_reserved hb hcur, ih _ _ (by decide)]
      simp
    · rw [if_neg (fun h => hb (reserved_iff.mp h))]
      by_cases hfull : cur.length + 1 = scheme.limit
      · rw [if_pos hfull, push_full hb done hfull, ih _ _ (by decide)]
        simp [scheme]
      · have hopen : cur.length + 1 < 84 := by
          have : cur.length + 1 ≠ 84 := hfull
          omega
        rw [if_neg hfull, push_literal hb done hopen, ih]
        rwa [length_append, length_singleton]

theorem cobsEncode_eq (input : List UInt8) : cobsEncode input = scheme.stuff input := by
  exact encode_from input [] [] (by decide)

end Js

/-! ### Reading a code byte -/

/-- Both decoders divide the code byte alike; the test for a delimiter above 2 never fires. -/
theorem uncode_eq {c : UInt8} (hc : ¬ c ≤ 2) :
    scheme.uncode c = some ((Js.blockOf c).1, (Js.blockOf c).2.map UInt8.ofNat) := by
  show uncode c = _
  rw [uncode, if_neg hc, Js.blockOf]
  split <;> rfl

theorem uncode_reserved {c : UInt8} (hc : c ≤ 2) : scheme.uncode c = none := if_pos hc

theorem blockOf_delimiter (c : UInt8) : (Js.blockOf c).2.any (· > 2) = false := by
  unfold Js.blockOf
  split
  · rfl
  · next hc =>
    have hlt := c.toNat_lt
    have hne : c.toNat ≠ 255 := fun h => hc (UInt8.toNat_inj.mp h)
    have hle : ¬ (c.toNat - 3) / Js.blockMax > 2 := by unfold Js.blockMax; omega
    simpa using hle

theorem blockOf_eq (c : UInt8) : C.blockOf c = Js.blockOf c := rfl

/-! ### The JavaScript decoder -/

theorem getElem?_of_lt {src : List UInt8} {i : Nat} (h : i < src.length) :
    src[i]? = some (src.getD i 0) := by
  rw [getD_eq_getElem?_getD, List.getElem?_eq_getElem h]
  rfl

namespace Js

/-- **The decoder**, from any read position. -/
theorem decode_from (input : List UInt8) (offset : Nat) (output : List UInt8) :
    decodeLoop input offset output = (scheme.unstuff (input.drop offset)).map (output ++ ·) := by
  fun_induction decodeLoop input offset output with
  | case1 offset output hlt code hres =>
    rw [scheme.unstuff_drop_none (getElem?_of_lt hlt) (uncode_reserved hres)]
    rfl
  | case2 offset output hlt code delimiter hres hbad => simp [delimiter, blockOf_delimiter] at hbad
  | case3 offset output hlt code block delimiter next hres hgood hshort =>
    rw [scheme.unstuff_drop_short (getElem?_of_lt hlt) (uncode_eq hres) hshort]
    rfl
  | case4 offset output hlt code block delimiter next hres hgood hfit output' d hd hmore ih =>
    have hd : (blockOf (input.getD offset 0)).2 = some d := hd
    rw [ih, scheme.unstuff_drop_block (getElem?_of_lt hlt) (uncode_eq hres) (Nat.not_lt.mp hfit),
      if_pos hmore, hd, Option.map_map]
    simp [output', block, code, next, Function.comp_def]
  | case5 offset output hlt code block delimiter next hres hgood hfit output' d hd hlast ih =>
    rw [ih, scheme.unstuff_drop_block (getElem?_of_lt hlt) (uncode_eq hres) (Nat.not_lt.mp hfit),
      if_neg hlast, Option.map_map]
    simp [output', block, code, next, Function.comp_def]
  | case6 offset output hlt code block delimiter next hres hgood hfit output' hd ih =>
    have hd : (blockOf (input.getD offset 0)).2 = none := hd
    rw [ih, scheme.unstuff_drop_block (getElem?_of_lt hlt) (uncode_eq hres) (Nat.not_lt.mp hfit),
      hd, Option.map_map]
    simp [output', block, code, next, Function.comp_def]
  | case7 offset output hend =>
    rw [drop_of_length_le (by omega), scheme.unstuff_nil]
    simp

theorem cobsDecode_eq (input : List UInt8) :
    cobsDecode input = if input = [] then none else scheme.unstuff input := by
  rw [cobsDecode, decode_from]
  simp [Option.map_id']

end Js

end Brickwright.Protocol
