import Mathlib.Data.List.Basic
import Mathlib.Data.Nat.Digits.Defs

/-!
# Buffers of bytes

Little-endian numbers, and what is written into a buffer.
-/

/-!
## Little-endian numbers

`leNat` reads a byte string as a number, least significant byte first, and `leBytes n` writes a
number in `n` bytes. Writing what was read gives the bytes back. Reading is Mathlib's `Nat.ofDigits`
at base 256.

`int32` is the two's complement reading of four bytes, and `int32Bytes` the bytes a little-endian
machine stores for such a value.
-/

namespace Bytes

/-- The number a byte string spells, least significant byte first. -/
def leNat (bs : List UInt8) : Nat := Nat.ofDigits 256 (bs.map UInt8.toNat)

/-- The `n` low bytes of a number, least significant first. -/
def leBytes : Nat → Nat → List UInt8
  | 0, _ => []
  | n + 1, v => UInt8.ofNat v :: leBytes n (v / 256)

@[simp] theorem leNat_nil : leNat [] = 0 := rfl

@[simp] theorem leNat_cons (b : UInt8) (bs : List UInt8) :
    leNat (b :: bs) = b.toNat + 256 * leNat bs := Nat.ofDigits_cons

@[simp] theorem length_leBytes (n v : Nat) : (leBytes n v).length = n := by
  induction n generalizing v with
  | zero => rfl
  | succ n ih => simp [leBytes, ih]

theorem or_shiftLeft_eq_add {a b i : Nat} (h : a < 2 ^ i) : a ||| b <<< i = a + 2 ^ i * b := by
  rw [Nat.or_comm, ← Nat.shiftLeft_add_eq_or_of_lt h, Nat.shiftLeft_eq]
  rw [Nat.add_comm, Nat.mul_comm]

theorem leNat_lt (bs : List UInt8) : leNat bs < 256 ^ bs.length := by
  have h := Nat.ofDigits_lt_base_pow_length (b := 256) (l := bs.map UInt8.toNat) (by omega) (by
    intro x hx
    obtain ⟨b, -, rfl⟩ := List.mem_map.mp hx
    exact b.toNat_lt)
  simpa [leNat] using h

theorem leBytes_leNat (bs : List UInt8) : leBytes bs.length (leNat bs) = bs := by
  induction bs with
  | nil => rfl
  | cons b bs ih =>
    have hb := b.toNat_lt
    have hdiv : (b.toNat + 256 * leNat bs) / 256 = leNat bs := by omega
    have hlow : UInt8.ofNat (b.toNat + 256 * leNat bs) = b := by
      rw [← UInt8.toNat_inj, UInt8.toNat_ofNat']
      omega
    rw [List.length_cons, leNat_cons, leBytes, hdiv, hlow, ih]

theorem leNat_leBytes (n v : Nat) : leNat (leBytes n v) = v % 256 ^ n := by
  induction n generalizing v with
  | zero => rw [leBytes, leNat_nil, Nat.pow_zero, Nat.mod_one]
  | succ n ih =>
    have hlow : (UInt8.ofNat v).toNat = v % 256 := UInt8.toNat_ofNat'
    rw [leBytes, leNat_cons, ih, hlow, Nat.pow_succ', Nat.mod_mul]

/-! ### Two's complement words -/

/-- The 32-bit two's complement value of four little-endian bytes. -/
def int32 (bs : List UInt8) : Int := Int.bmod (leNat bs) (2 ^ 32)

/-- The four bytes a little-endian machine stores for a 32-bit value. -/
def int32Bytes (v : Int) : List UInt8 := leBytes 4 (v % 2 ^ 32).toNat

@[simp] theorem length_int32Bytes (v : Int) : (int32Bytes v).length = 4 := length_leBytes 4 _

theorem int32Bytes_int32 {bs : List UInt8} (h : bs.length = 4) : int32Bytes (int32 bs) = bs := by
  have hlt : leNat bs < 2 ^ 32 := by simpa [h] using leNat_lt bs
  have hmod : (int32 bs % 2 ^ 32).toNat = leNat bs := by
    have hb : int32 bs % ((2 ^ 32 : Nat) : Int) = leNat bs % ((2 ^ 32 : Nat) : Int) :=
      Int.bmod_emod
    omega
  rw [int32Bytes, hmod, ← h, leBytes_leNat]

/-- The range of 32-bit two's complement. -/
def Fits32 (v : Int) : Prop := -2 ^ 31 ≤ v ∧ v < 2 ^ 31

/-- Loading a stored word gives the value, if it fits. -/
theorem int32_int32Bytes {v : Int} (h : Fits32 v) : int32 (int32Bytes v) = v := by
  obtain ⟨hlo, hhi⟩ := h
  have hnonneg : 0 ≤ v % 2 ^ 32 := Int.emod_nonneg v (by decide)
  have hread : ((leNat (int32Bytes v) : Nat) : Int) = v % 2 ^ 32 := by
    rw [int32Bytes, leNat_leBytes, Nat.mod_eq_of_lt, Int.toNat_of_nonneg hnonneg]
    omega
  unfold int32
  rw [hread, Int.bmod_def]
  split <;> omega

theorem int32_fits (bs : List UInt8) : Fits32 (int32 bs) := by
  have hlo : -(((2 ^ 32 : Nat) : Int) / 2) ≤ int32 bs := Int.le_bmod (by omega)
  have hhi : int32 bs < (((2 ^ 32 : Nat) : Int) + 1) / 2 := Int.bmod_lt (by omega)
  constructor <;> omega

end Bytes

/-!
## Overwriting a window of a buffer

`overlay l off bs` is what `memcpy (l + off, bs, bs.length)` leaves in the buffer `l`: the cells
before and after the window are untouched. What an in-place buffer needs to know about such a write
is here: its length, what the buffer holds up to the end of the window, and that writing back what
is already there changes nothing. `window l off n` reads the `n` cells from `off` on.
-/

universe u

namespace List

variable {α : Type u}

/-- The buffer `l` with the cells from `off` on replaced by `bs`. -/
def overlay (l : List α) (off : Nat) (bs : List α) : List α :=
  l.take off ++ bs ++ l.drop (off + bs.length)

variable {l : List α} {off : Nat}

theorem length_overlay {bs : List α} (h : off + bs.length ≤ l.length) :
    (l.overlay off bs).length = l.length := by
  simp only [overlay, length_append, length_take, length_drop]
  omega

theorem overlay_length (l bs : List α) : l.overlay l.length bs = l ++ bs := by
  simp [overlay]

theorem take_overlay (bs : List α) (h : off ≤ l.length) :
    (l.overlay off bs).take (off + bs.length) = l.take off ++ bs := by
  have hlen : (l.take off ++ bs).length = off + bs.length := by
    rw [length_append, length_take, Nat.min_eq_left h]
  rw [overlay, take_append_of_le_length (by omega), ← hlen, take_length]

theorem overlay_nil (l : List α) (off : Nat) : l.overlay off [] = l := by
  rw [overlay, append_nil]
  exact take_append_drop off l

theorem overlay_set (h : off < l.length) (b : α) (bs : List α) :
    (l.set off b).overlay (off + 1) bs = l.overlay off (b :: bs) := by
  have htake : (l.set off b).take (off + 1) = l.take off ++ [b] := by
    rw [take_add_one, getElem?_set_self h, take_set_of_le (Nat.le_refl off)]
    rfl
  have hdrop : (l.set off b).drop (off + 1 + bs.length) = l.drop (off + 1 + bs.length) :=
    drop_set_of_lt (by omega)
  have hend : off + 1 + bs.length = off + (b :: bs).length := by
    rw [length_cons]
    omega
  rw [overlay, overlay, htake, hdrop, hend, append_assoc (l.take off)]
  rfl

/-- **Writing back what is there changes nothing.** -/
theorem overlay_self {bs : List α}
    (heq : (l.drop off).take bs.length = bs) : l.overlay off bs = l := by
  have hsplit : l.drop off = bs ++ l.drop (off + bs.length) := by
    conv_lhs => rw [← take_append_drop bs.length (l.drop off), heq, drop_drop]
  rw [overlay, append_assoc, ← hsplit, take_append_drop]

/-- The `n` cells of the buffer `l` from `off` on. -/
def window (l : List α) (off n : Nat) : List α := (l.drop off).take n

theorem window_append (pre bs post : List α) :
    (pre ++ (bs ++ post)).window pre.length bs.length = bs := by
  rw [window, drop_left, take_left]

theorem window_append_add (pre l : List α) (off n : Nat) :
    (pre ++ l).window (pre.length + off) n = l.window off n := by
  rw [window, window, drop_length_add_append]

theorem window_append_left {off n : Nat} (h : off + n ≤ l.length) (more : List α) :
    (l ++ more).window off n = l.window off n := by
  rw [window, drop_append_of_le_length (by omega),
    take_append_of_le_length (by rw [length_drop]; omega), window]

/-- Lists with a window in common agree on every window inside it. -/
theorem window_of_window {l l' : List α} {off n i m : Nat} (h : l'.window off n = l.window off n)
    (hoff : off ≤ i) (hend : i + m ≤ off + n) : l'.window i m = l.window i m := by
  have hpart : ∀ l : List α, ((l.window off n).drop (i - off)).take m = l.window i m := by
    intro l
    rw [window, window, drop_take, drop_drop, take_take, Nat.add_sub_cancel' hoff,
      Nat.min_eq_left (by omega)]
  rw [← hpart l', h, hpart]

theorem length_window {off n : Nat} (h : off + n ≤ l.length) :
    (l.window off n).length = n := by
  rw [window, length_take, length_drop]
  omega

end List

/-!
## Filling a buffer from the front

A `Writer n` is a buffer of `n` bytes, reused from one message to the next, with the offset up to
which it holds the message at hand. `put` writes at the offset and moves it past what was written,
`skip` leaves room for a field that is only known later, and `patch` fills that room in. `written`
is the message so far. As long as it stays inside the buffer, a `put` appends to it, whatever an
earlier message left behind.
-/

namespace Bytes

open List

structure Writer (n : Nat) where
  cells : List UInt8
  fits : cells.length = n
  off : Nat
  deriving DecidableEq

namespace Writer

variable {n : Nat} {α : Type*}

/-- Bytes over the cells from `i` on. What does not fit is lost. -/
def patch (w : Writer n) (i : Nat) (bs : List UInt8) : Writer n where
  cells := (w.cells.overlay i bs).take n
  fits := by
    have hfits := w.fits
    simp only [List.overlay, length_take, length_append, length_drop]
    omega
  off := w.off

def skip (w : Writer n) (k : Nat) : Writer n := { w with off := w.off + k }

def put (w : Writer n) (bs : List UInt8) : Writer n := (w.patch w.off bs).skip bs.length

def written (w : Writer n) : List UInt8 := w.cells.take w.off

def rewind (w : Writer n) : Writer n := { w with off := 0 }

@[simp] theorem off_put (w : Writer n) (bs : List UInt8) : (w.put bs).off = w.off + bs.length := rfl

@[simp] theorem written_rewind (w : Writer n) : w.rewind.written = [] := take_zero

theorem written_put {w : Writer n} {bs : List UInt8} (h : w.off + bs.length ≤ n) :
    (w.put bs).written = w.written ++ bs := by
  have hoff : w.off ≤ w.cells.length := by
    rw [w.fits]
    omega
  show ((w.cells.overlay w.off bs).take n).take (w.off + bs.length) = _
  rw [take_take, Nat.min_eq_left h, take_overlay bs hoff, written]

theorem written_skip (w : Writer n) {k : Nat} (h : w.off + k ≤ n) :
    ∃ stale : List UInt8, stale.length = k ∧ (w.skip k).written = w.written ++ stale := by
  refine ⟨(w.cells.drop w.off).take k, ?_, take_add⟩
  rw [length_take, length_drop, w.fits]
  omega

theorem written_patch {w : Writer n} {i : Nat} {bs : List UInt8} (h : i + bs.length ≤ w.off)
    (hoff : w.off ≤ n) : (w.patch i bs).written = w.written.overlay i bs := by
  have hfits := w.fits
  show ((w.cells.overlay i bs).take n).take w.off = (w.cells.take w.off).overlay i bs
  rw [take_take, Nat.min_eq_left hoff]
  have hi : (w.cells.take i).length = i := by
    rw [length_take]
    omega
  have hsplit : w.off = (w.cells.take i ++ bs).length + (w.off - (i + bs.length)) := by
    rw [length_append, hi]
    omega
  rw [List.overlay, List.overlay, take_take, Nat.min_eq_left (by omega : i ≤ w.off)]
  conv_lhs => rw [hsplit, take_length_add_append]
  rw [drop_take]

theorem off_foldl_put (f : α → List UInt8) (w : Writer n) (records : List α) :
    (records.foldl (fun w a => w.put (f a)) w).off = w.off + (records.flatMap f).length := by
  induction records generalizing w with
  | nil => rfl
  | cons a rest ih =>
    rw [foldl_cons, ih, off_put, flatMap_cons, length_append, Nat.add_assoc]

theorem written_foldl_put (f : α → List UInt8) (w : Writer n) (records : List α)
    (h : w.off + (records.flatMap f).length ≤ n) :
    (records.foldl (fun w a => w.put (f a)) w).written = w.written ++ records.flatMap f := by
  induction records generalizing w with
  | nil => exact (append_nil _).symm
  | cons a rest ih =>
    rw [flatMap_cons, length_append, ← Nat.add_assoc] at h
    rw [foldl_cons, ih _ h, written_put (by omega), flatMap_cons, append_assoc]

end Writer

end Bytes
