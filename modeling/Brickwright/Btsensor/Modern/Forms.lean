import Brickwright.Btsensor.Modern.Basic

/-!
# What the recogniser reads

`take_integer` reads a canonical number and nothing else, unless the number is too large for it. A
command form is a list of pieces, each a literal or a number with a range; `render` writes it with
given numbers, `readAll` reads it.

* `takeIntegerAt_signed`, `takeIntegerAt_large` and `takeIntegerAt_some` — a number.
* `readAll_ok` — what was read is the form with numbers in their ranges.
* `readAll_render` — the form with any numbers: the first one out of its range decides.
-/

namespace Brickwright.Btsensor.Modern

open Decimal

def Stops (rest : List UInt8) : Prop := ∀ b ∈ rest.head?, ¬ IsDigit b

theorem takeDigits_cons {value : Nat} {b : UInt8} {rest : List UInt8} (h : IsDigit b) :
    takeDigits value (b :: rest) =
      if shift value b > 100000 then (none, rest) else takeDigits (shift value b) rest := by
  rw [takeDigits, if_pos h]

theorem takeDigits_of_stops {value : Nat} {rest : List UInt8} (h : Stops rest) :
    takeDigits value rest = (some value, rest) := by
  cases rest with
  | nil => rfl
  | cons b rest => rw [takeDigits, if_neg (h b rfl)]

theorem takeDigits_append {digits rest : List UInt8} (hdigits : ∀ b ∈ digits, IsDigit b)
    (hstop : Stops rest) {start : Nat} (hvalue : value start digits ≤ 100000) :
    takeDigits start (digits ++ rest) = (some (value start digits), rest) := by
  induction digits generalizing start with
  | nil => exact takeDigits_of_stops hstop
  | cons b digits ih =>
    have hle : shift start b ≤ 100000 := (le_value _ _).trans hvalue
    rw [List.cons_append, takeDigits_cons (hdigits b List.mem_cons_self), if_neg (by omega)]
    exact ih (fun c hc => hdigits c (List.mem_cons_of_mem _ hc)) hvalue

theorem takeDigits_large {digits : List UInt8} (rest : List UInt8)
    (hdigits : ∀ b ∈ digits, IsDigit b)
    {start : Nat} (hstart : start ≤ 100000) (hvalue : 100000 < value start digits) :
    (takeDigits start (digits ++ rest)).1 = none := by
  induction digits generalizing start with
  | nil => exact absurd hvalue (by rw [value_nil]; omega)
  | cons b digits ih =>
    rw [List.cons_append, takeDigits_cons (hdigits b List.mem_cons_self)]
    split
    · rfl
    · next hle =>
      exact ih (fun c hc => hdigits c (List.mem_cons_of_mem _ hc)) (Nat.le_of_not_lt hle) hvalue

theorem takeDigits_some {start n : Nat} {bytes rest : List UInt8} (hstart : start ≤ 100000)
    (h : takeDigits start bytes = (some n, rest)) :
    ∃ digits, bytes = digits ++ rest ∧ (∀ b ∈ digits, IsDigit b) ∧ n = value start digits ∧
      n ≤ 100000 ∧ Stops rest := by
  induction bytes generalizing start with
  | nil =>
    cases h
    exact ⟨[], rfl, by simp, rfl, hstart, by simp [Stops]⟩
  | cons b bytes ih =>
    by_cases hb : IsDigit b
    · rw [takeDigits_cons hb] at h
      split at h
      · cases h
      · next hle =>
        obtain ⟨digits, rfl, hdigits, hn, hmax, hstop⟩ := ih (Nat.le_of_not_lt hle) h
        exact ⟨b :: digits, rfl, by simp [hb]; exact hdigits, hn, hmax, hstop⟩
    · have hstop : Stops (b :: bytes) := by
        intro c hc
        cases hc
        exact hb
      rw [takeDigits_of_stops hstop] at h
      cases h
      exact ⟨[], rfl, by simp, rfl, hstart, hstop⟩

/-! ## One number -/

variable {negative : Bool}

theorem takeUnsigned_of_digit {b : UInt8} {start : List UInt8} (h : IsDigit b) :
    takeUnsigned negative (b :: start) =
      match takeDigits 0 (b :: start) with
      | (none, rest) => (none, rest)
      | (some value, rest) =>
        if negative.toNat + ((b :: start).length - rest.length) > 1 ∧
            (b :: start).head? = some 48 then (none, rest)
        else (some (if negative then -(value : Int) else value), rest) := by
  exact if_neg (by simpa using h)

theorem takeUnsigned_decimal {n : Nat} {rest : List UInt8} (hstop : Stops rest)
    (hmax : n ≤ 100000) (hzero : negative = true → n ≠ 0) :
    takeUnsigned negative (decimal n ++ rest) =
      (some (if negative then -(n : Int) else n), rest) := by
  have hread := takeDigits_append (fun b => isDigit_of_mem_decimal (n := n)) hstop
    (Nat.le_trans (Nat.le_of_eq (value_decimal n)) hmax)
  obtain ⟨b, digits, hcons, hb⟩ := exists_decimal_eq_cons n
  rw [value_decimal, hcons, List.cons_append] at hread
  rw [hcons, List.cons_append, takeUnsigned_of_digit hb, hread]
  refine if_neg fun h => ?_
  -- a leading zero is the number zero, which stands alone
  have hn : n = 0 := by
    by_contra hn
    exact head?_decimal hn (by rw [hcons]; exact h.2)
  subst hn
  cases hcons
  cases negative with
  | false => simp at h
  | true => exact hzero rfl rfl

theorem takeUnsigned_large {n : Nat} (rest : List UInt8) (h : 100000 < n) :
    (takeUnsigned negative (decimal n ++ rest)).1 = none := by
  have hread := takeDigits_large rest (fun b => isDigit_of_mem_decimal (n := n))
    (Nat.zero_le _) (by rwa [value_decimal])
  obtain ⟨b, digits, hcons, hb⟩ := exists_decimal_eq_cons n
  rw [hcons, List.cons_append] at hread
  rw [hcons, List.cons_append, takeUnsigned_of_digit hb]
  rcases hdigits : takeDigits 0 (b :: (digits ++ rest)) with ⟨_ | value, rest'⟩
  · rfl
  · rw [hdigits] at hread
    cases hread

theorem takeUnsigned_some {start rest : List UInt8} {v : Int}
    (h : takeUnsigned negative start = (some v, rest)) :
    ∃ n : Nat, start = decimal n ++ rest ∧ v = (if negative then -(n : Int) else n) ∧
      n ≤ 100000 ∧ (negative = true → n ≠ 0) := by
  cases start with
  | nil => simp [takeUnsigned] at h
  | cons b start =>
    by_cases hb : IsDigit b
    · rw [takeUnsigned_of_digit hb] at h
      rcases hread : takeDigits 0 (b :: start) with ⟨_ | n, rest'⟩
      · rw [hread] at h
        cases h
      · rw [hread] at h
        dsimp only at h
        split at h
        · cases h
        · next hcanonical =>
          cases h
          obtain ⟨digits, hstart, hdigits, hn, hmax, hstop⟩ :=
            takeDigits_some (Nat.zero_le _) hread
          have hne : digits ≠ [] := by
            rintro rfl
            rw [List.nil_append] at hstart
            exact hstop b (by rw [← hstart]; rfl) hb
          obtain ⟨c, digits, rfl⟩ := List.exists_cons_of_ne_nil hne
          cases hstart
          have hdecimal := decimal_value hdigits hne fun hlong hhead => hcanonical
            ⟨by simp at hlong ⊢; omega, hhead⟩
          refine ⟨n, ?_, rfl, hmax, fun hneg hzero => hcanonical ?_⟩
          · rw [hn, hdecimal]
            rfl
          · -- the value is zero, so the digits are its rendering
            rw [← hn, hzero] at hdecimal
            cases hdecimal
            simp [hneg]
    · rw [takeUnsigned, if_pos (by simpa using hb)] at h
      cases h

theorem takeIntegerAt_of_digit {b : UInt8} {start : List UInt8} (h : IsDigit b) :
    takeIntegerAt (b :: start) = takeUnsigned false (b :: start) := by
  rw [takeIntegerAt, if_neg]
  intro hminus
  cases Option.some.inj hminus
  exact absurd h (by decide)

theorem takeIntegerAt_signed {v : Int} {rest : List UInt8} (hstop : Stops rest)
    (hmax : v.natAbs ≤ 100000) : takeIntegerAt (signed v ++ rest) = (some v, rest) := by
  cases v with
  | ofNat n =>
    obtain ⟨b, digits, hcons, hb⟩ := exists_decimal_eq_cons n
    have hread : takeUnsigned false (decimal n ++ rest) = (some (n : Int), rest) :=
      takeUnsigned_decimal hstop hmax nofun
    rw [Int.ofNat_eq_natCast, signed_ofNat, hcons, List.cons_append, takeIntegerAt_of_digit hb,
      ← List.cons_append, ← hcons, hread]
  | negSucc n =>
    exact takeUnsigned_decimal hstop hmax fun _ => Nat.succ_ne_zero n

theorem takeIntegerAt_large {v : Int} (rest : List UInt8) (h : 100000 < v.natAbs) :
    (takeIntegerAt (signed v ++ rest)).1 = none := by
  cases v with
  | ofNat n =>
    obtain ⟨b, digits, hcons, hb⟩ := exists_decimal_eq_cons n
    rw [Int.ofNat_eq_natCast, signed_ofNat, hcons, List.cons_append, takeIntegerAt_of_digit hb,
      ← List.cons_append, ← hcons]
    exact takeUnsigned_large rest h
  | negSucc n =>
    exact takeUnsigned_large rest h

theorem takeIntegerAt_some {start rest : List UInt8} {v : Int}
    (h : takeIntegerAt start = (some v, rest)) :
    start = signed v ++ rest ∧ v.natAbs ≤ 100000 := by
  rw [takeIntegerAt] at h
  split at h
  · next hminus =>
    obtain ⟨n, hstart, rfl, hmax, hzero⟩ := takeUnsigned_some h
    obtain ⟨tail, rfl⟩ : ∃ tail, start = 45 :: tail := by
      cases start with
      | nil => cases hminus
      | cons b tail => exact ⟨tail, by rw [Option.some.inj hminus]⟩
    rw [List.tail_cons] at hstart
    refine ⟨?_, by simpa using hmax⟩
    rw [if_pos rfl, signed_neg (hzero rfl), hstart]
    rfl
  · obtain ⟨n, rfl, rfl, hmax, -⟩ := takeUnsigned_some h
    exact ⟨rfl, hmax⟩

/-! ## The steps of the recogniser -/

variable {α β : Type} {c c' : Scan} {rest : List UInt8} {op : Operation}

variable {x : Recogniser α}

theorem bind_of_ok {a : α} (h : x c = .ok a c') (f : α → Recogniser β) :
    (x >>= f) c = f a c' := by
  change EStateM.bind x f c = _
  rw [EStateM.bind, h]

theorem bind_of_error {e : Exit} (h : x c = .error e c')
    (f : α → Recogniser β) : (x >>= f) c = .error e c' := by
  change EStateM.bind x f c = _
  rw [EStateM.bind, h]

theorem bind_ok {f : α → Recogniser β} {b : β} (h : (x >>= f) c = .ok b c') :
    ∃ a c1, x c = .ok a c1 ∧ f a c1 = .ok b c' := by
  cases hx : x c with
  | ok a c1 =>
    rw [bind_of_ok hx] at h
    exact ⟨a, c1, rfl, h⟩
  | error e c1 =>
    rw [bind_of_error hx] at h
    cases h

theorem takeLiteral_bind (literal : List UInt8) (f : Bool → Recogniser α) (c : Scan) :
    (takeLiteral literal >>= f) c =
      if literal <+: c.rest then f true { c with rest := c.rest.drop literal.length }
      else f false c := by
  change EStateM.bind (takeLiteral literal) f c = _
  by_cases h : literal <+: c.rest
  · rw [EStateM.bind, takeLiteral, if_pos h, if_pos h]
  · rw [EStateM.bind, takeLiteral, if_neg h, if_neg h]

theorem takeLiteral_append (literal rest : List UInt8) (op : Operation) :
    takeLiteral literal ⟨literal ++ rest, op⟩ = .ok true ⟨rest, op⟩ := by
  rw [takeLiteral, if_pos (List.prefix_append ..), List.drop_left]

theorem expect_append (literal rest : List UInt8) (op : Operation) :
    expect literal ⟨literal ++ rest, op⟩ = .ok () ⟨rest, op⟩ := by
  rw [expect, bind_of_ok (takeLiteral_append ..)]
  rfl

theorem expect_ok {literal : List UInt8} (h : expect literal c = .ok () c') :
    c.rest = literal ++ c'.rest ∧ c'.op = c.op := by
  rw [expect, takeLiteral_bind] at h
  split at h
  · next hbegins =>
    obtain ⟨rest, hrest⟩ := hbegins
    cases h
    exact ⟨by rw [← hrest, List.drop_left], rfl⟩
  · cases h

theorem atEnd_bind (f : Bool → Recogniser α) (c : Scan) :
    (atEnd >>= f) c = f c.rest.isEmpty c := rfl

theorem expectEnd_ok (h : expectEnd c = .ok () c') : c.rest = [] ∧ c' = c := by
  obtain ⟨rest, op⟩ := c
  cases rest with
  | nil =>
    cases h
    exact ⟨rfl, rfl⟩
  | cons b rest => cases h

variable {lo hi v : Int} {put : Int → Operation → Operation}

theorem number_eq (lo hi : Int) (put : Int → Operation → Operation) (c : Scan) :
    number lo hi put c =
      match takeIntegerAt c.rest with
      | (none, rest) => .error .gotoOpaque { c with rest := rest }
      | (some v, rest) =>
        if v < lo ∨ v > hi then .error .outOfRange { c with rest := rest }
        else .ok () ⟨rest, put v c.op⟩ := by
  change EStateM.bind takeInteger (fun r => _) c = _
  rw [EStateM.bind, takeInteger]
  rcases takeIntegerAt c.rest with ⟨_ | v, rest⟩
  · rfl
  · by_cases hrange : v < lo ∨ v > hi
    · simp only [hrange, if_true]
      rfl
    · simp only [hrange, if_false]
      rfl

theorem number_signed (hstop : Stops rest) (hmax : v.natAbs ≤ 100000) (hrange : lo ≤ v ∧ v ≤ hi) :
    number lo hi put ⟨signed v ++ rest, op⟩ = .ok () ⟨rest, put v op⟩ := by
  rw [number_eq, takeIntegerAt_signed hstop hmax]
  exact if_neg (by omega)

/-- How the recogniser leaves for a number out of its range. -/
def exitFor (v : Int) : Exit := if v.natAbs ≤ 100000 then .outOfRange else .gotoOpaque

theorem number_outOfRange (put : Int → Operation → Operation) (op : Operation)
    (hstop : Stops rest) (hrange : ¬ (lo ≤ v ∧ v ≤ hi)) : ∃ c,
    number lo hi put ⟨signed v ++ rest, op⟩ = .error (exitFor v) c := by
  rw [number_eq, exitFor]
  by_cases hmax : v.natAbs ≤ 100000
  · rw [takeIntegerAt_signed hstop hmax, if_pos hmax]
    exact ⟨_, if_pos (by omega)⟩
  · rw [if_neg hmax]
    rcases hread : takeIntegerAt (signed v ++ rest) with ⟨_ | w, rest'⟩
    · exact ⟨_, rfl⟩
    · exact absurd (takeIntegerAt_large rest (Nat.lt_of_not_le hmax)) (by rw [hread]; nofun)

theorem number_ok (h : number lo hi put c = .ok () c') :
    ∃ v, c.rest = signed v ++ c'.rest ∧ (lo ≤ v ∧ v ≤ hi) ∧ c'.op = put v c.op := by
  rw [number_eq] at h
  rcases hread : takeIntegerAt c.rest with ⟨_ | v, rest'⟩
  · rw [hread] at h
    cases h
  · rw [hread] at h
    dsimp only at h
    split at h
    · cases h
    · next hrange =>
      cases h
      exact ⟨v, (takeIntegerAt_some hread).1, by omega, rfl⟩

/-! ## Command forms -/

inductive Piece where
  | literal (text : List UInt8)
  | number (lo hi : Int) (put : Int → Operation → Operation)

/-- A number of a command, with its range. -/
structure Field where
  value : Int
  lo : Int
  hi : Int
  deriving DecidableEq, Repr

def Field.InRange (f : Field) : Prop := f.lo ≤ f.value ∧ f.value ≤ f.hi

instance (f : Field) : Decidable f.InRange := inferInstanceAs (Decidable (_ ∧ _))

namespace Piece

def take : Piece → Recogniser Unit
  | literal text => expect text
  | number lo hi put => Modern.number lo hi put

def readAll : List Piece → Recogniser Unit
  | [] => pure ()
  | p :: ps => p.take >>= fun _ => readAll ps

theorem readAll_append (ps qs : List Piece) :
    readAll (ps ++ qs) = readAll ps >>= fun _ => readAll qs := by
  induction ps with
  | nil => rfl
  | cons p ps ih => rw [List.cons_append, readAll, readAll, ih, bind_assoc]

theorem readAll_flatMap {ι : Type} (f : ι → List Piece) (is : List ι) :
    readAll (is.flatMap f) = is.forM fun i => readAll (f i) := by
  induction is with
  | nil => rfl
  | cons i is ih =>
    rw [List.flatMap_cons, readAll_append, ih]
    rfl

def holes : List Piece → Nat
  | [] => 0
  | literal _ :: ps => holes ps
  | number .. :: ps => holes ps + 1

def render : List Piece → List Int → List UInt8
  | literal text :: ps, vs => text ++ render ps vs
  | number .. :: ps, v :: vs => signed v ++ render ps vs
  | _, _ => []

def fill : List Piece → List Int → Operation → Operation
  | literal _ :: ps, vs, op => fill ps vs op
  | number _ _ put :: ps, v :: vs, op => fill ps vs (put v op)
  | _, _, op => op

def fields : List Piece → List Int → List Field
  | literal _ :: ps, vs => fields ps vs
  | number lo hi _ :: ps, v :: vs => ⟨v, lo, hi⟩ :: fields ps vs
  | _, _ => []

/-- What the pieces begin with, before `rest`. -/
def next : List Piece → Option UInt8 → Option UInt8
  | [], rest => rest
  | literal text :: ps, rest => text.head? <|> next ps rest
  | number .. :: _, _ => some 48

/-- No digit follows a number, and the ranges are within those of `take_integer`. -/
def Separated : List Piece → Option UInt8 → Prop
  | [], _ => True
  | literal _ :: ps, rest => Separated ps rest
  | number lo hi _ :: ps, rest =>
    (-100000 ≤ lo ∧ hi ≤ 100000) ∧ (∀ b ∈ next ps rest, ¬ IsDigit b) ∧ Separated ps rest

instance : ∀ (ps : List Piece) (rest : Option UInt8), Decidable (Separated ps rest)
  | [], _ => isTrue trivial
  | literal _ :: ps, rest => instDecidableSeparated ps rest
  | number .. :: ps, rest =>
    have := instDecidableSeparated ps rest
    inferInstanceAs (Decidable (_ ∧ _ ∧ _))

variable {ps : List Piece} {vs : List Int} {rest : List UInt8} {op : Operation}

theorem stops_render (vs : List Int) {rest : List UInt8}
    (h : ∀ b ∈ next ps rest.head?, ¬ IsDigit b) :
    Stops (render ps vs ++ rest) := by
  induction ps with
  | nil => exact h
  | cons p ps ih =>
    cases p with
    | literal text =>
      cases text with
      | nil => exact ih h
      | cons b text => exact h
    | number lo hi put => exact absurd (h 48 rfl) (by decide)

theorem readAll_literal (text rest : List UInt8) (op : Operation) :
    readAll (literal text :: ps) ⟨text ++ rest, op⟩ = readAll ps ⟨rest, op⟩ :=
  bind_of_ok (expect_append ..) _

theorem readAll_number {lo hi v : Int} {put : Int → Operation → Operation} (hstop : Stops rest)
    (hmax : v.natAbs ≤ 100000) (hrange : lo ≤ v ∧ v ≤ hi) :
    readAll (number lo hi put :: ps) ⟨signed v ++ rest, op⟩ = readAll ps ⟨rest, put v op⟩ :=
  bind_of_ok (number_signed hstop hmax hrange) _

/-- **The form with numbers in their ranges.** -/
theorem readAll_render (hsep : Separated ps rest.head?) (hlen : vs.length = holes ps)
    (hrange : ∀ f ∈ fields ps vs, f.InRange) :
    readAll ps ⟨render ps vs ++ rest, op⟩ = .ok () ⟨rest, fill ps vs op⟩ := by
  induction ps generalizing vs op with
  | nil =>
    cases vs with
    | nil => rfl
    | cons v vs => cases hlen
  | cons p ps ih =>
    cases p with
    | literal text =>
      rw [render, List.append_assoc, readAll_literal]
      exact ih hsep hlen hrange
    | number lo hi put =>
      cases vs with
      | nil => cases hlen
      | cons v vs =>
        obtain ⟨⟨hlo, hhi⟩, hnext, hsep⟩ := hsep
        obtain ⟨hv, hrange⟩ := List.forall_mem_cons.mp hrange
        have hbounds : lo ≤ v ∧ v ≤ hi := hv
        rw [render, List.append_assoc, readAll_number (stops_render vs hnext) (by omega) hbounds]
        exact ih hsep (Nat.succ.inj hlen) hrange

def firstOutOfRange (fs : List Field) : Option Field := fs.find? fun f => ¬ f.InRange

theorem firstOutOfRange_eq_none {fs : List Field} :
    firstOutOfRange fs = none ↔ ∀ f ∈ fs, f.InRange := by
  simp [firstOutOfRange]

theorem not_inRange_of_firstOutOfRange {fs : List Field} {f : Field}
    (h : firstOutOfRange fs = some f) : ¬ ∀ f ∈ fs, f.InRange := by
  intro hall
  rw [firstOutOfRange_eq_none.mpr hall] at h
  cases h

/-- **The form with a number out of its range**: the first of them decides. -/
theorem readAll_outOfRange (op : Operation) {f : Field} (hsep : Separated ps rest.head?)
    (hlen : vs.length = holes ps) (hf : firstOutOfRange (fields ps vs) = some f) :
    ∃ c, readAll ps ⟨render ps vs ++ rest, op⟩ = .error (exitFor f.value) c := by
  induction ps generalizing vs op with
  | nil => cases hf
  | cons p ps ih =>
    cases p with
    | literal text =>
      rw [render, List.append_assoc, readAll_literal]
      exact ih op hsep hlen hf
    | number lo hi put =>
      cases vs with
      | nil => cases hlen
      | cons v vs =>
        obtain ⟨⟨hlo, hhi⟩, hnext, hsep⟩ := hsep
        rw [fields, firstOutOfRange, List.find?_cons] at hf
        rw [render, List.append_assoc]
        by_cases hv : Field.InRange ⟨v, lo, hi⟩
        · have hbounds : lo ≤ v ∧ v ≤ hi := hv
          rw [readAll_number (stops_render vs hnext) (by omega) hbounds]
          exact ih _ hsep (Nat.succ.inj hlen) (by simpa [hv, firstOutOfRange] using hf)
        · obtain rfl : ⟨v, lo, hi⟩ = f := by simpa [hv] using hf
          obtain ⟨c, hc⟩ := number_outOfRange put op (stops_render vs hnext) hv
          exact ⟨c, bind_of_error hc _⟩

/-- **What was read** is the form with numbers in their ranges. -/
theorem readAll_ok {c c' : Scan} (h : readAll ps c = .ok () c') :
    ∃ vs, vs.length = holes ps ∧ c.rest = render ps vs ++ c'.rest ∧
      (∀ f ∈ fields ps vs, f.InRange) ∧ c'.op = fill ps vs c.op := by
  induction ps generalizing c with
  | nil =>
    cases h
    exact ⟨[], rfl, rfl, nofun, rfl⟩
  | cons p ps ih =>
    obtain ⟨⟨⟩, c1, hread, h⟩ := bind_ok h
    obtain ⟨vs, hlen, hrest, hrange, hop⟩ := ih h
    cases p with
    | literal text =>
      obtain ⟨htext, hput⟩ := expect_ok hread
      refine ⟨vs, hlen, ?_, hrange, ?_⟩
      · rw [htext, hrest, render, List.append_assoc]
      · rw [hop, hput, fill]
    | number lo hi put =>
      obtain ⟨v, htext, hv, hput⟩ := number_ok hread
      refine ⟨v :: vs, congrArg (· + 1) hlen, ?_, List.forall_mem_cons.mpr ⟨hv, hrange⟩, ?_⟩
      · rw [htext, hrest, render, List.append_assoc]
      · rw [hop, hput, fill]

/-- The most bytes a form with numbers in their ranges takes. -/
def bound : List Piece → Nat
  | [] => 0
  | literal text :: ps => text.length + bound ps
  | number .. :: ps => 7 + bound ps

theorem length_render_le {next : Option UInt8} (hsep : Separated ps next)
    (hrange : ∀ f ∈ fields ps vs, f.InRange) : (render ps vs).length ≤ bound ps := by
  induction ps generalizing vs with
  | nil => exact Nat.le_refl 0
  | cons p ps ih =>
    cases p with
    | literal text =>
      rw [render, List.length_append]
      exact Nat.add_le_add_left (ih hsep hrange) _
    | number lo hi put =>
      cases vs with
      | nil => exact Nat.zero_le _
      | cons v vs =>
        obtain ⟨⟨hlo, hhi⟩, -, hsep⟩ := hsep
        obtain ⟨hv, hrange⟩ := List.forall_mem_cons.mp hrange
        have hbounds : lo ≤ v ∧ v ≤ hi := hv
        have hlen : (signed v).length ≤ 7 :=
          length_signed_le (k := 6) (by decide) (by omega)
        rw [render, List.length_append]
        exact Nat.add_le_add hlen (ih hsep hrange)

/-! ## A whole payload -/

def scan (ps : List Piece) : Recogniser Unit := readAll ps >>= fun _ => expectEnd

theorem scan_render (hsep : Separated ps none) (hlen : vs.length = holes ps)
    (hrange : ∀ f ∈ fields ps vs, f.InRange) :
    scan ps ⟨render ps vs, op⟩ = .ok () ⟨[], fill ps vs op⟩ := by
  have hread : readAll ps ⟨render ps vs ++ [], op⟩ = .ok () ⟨[], fill ps vs op⟩ :=
    readAll_render hsep hlen hrange
  rw [List.append_nil] at hread
  rw [scan, bind_of_ok hread]
  rfl

theorem scan_outOfRange {f : Field} (hsep : Separated ps none) (hlen : vs.length = holes ps)
    (hf : firstOutOfRange (fields ps vs) = some f) :
    ∃ c, scan ps ⟨render ps vs, op⟩ = .error (exitFor f.value) c := by
  obtain ⟨c, hread⟩ : ∃ c, readAll ps ⟨render ps vs ++ [], op⟩ = .error (exitFor f.value) c :=
    readAll_outOfRange op hsep hlen hf
  rw [List.append_nil] at hread
  exact ⟨c, bind_of_error hread _⟩

theorem scan_ok {c c' : Scan} (h : scan ps c = .ok () c') :
    ∃ vs, vs.length = holes ps ∧ c.rest = render ps vs ∧ (∀ f ∈ fields ps vs, f.InRange) ∧
      c'.op = fill ps vs c.op := by
  obtain ⟨⟨⟩, c1, hread, hend⟩ := bind_ok h
  obtain ⟨vs, hlen, hrest, hrange, hop⟩ := readAll_ok hread
  obtain ⟨hnil, rfl⟩ := expectEnd_ok hend
  exact ⟨vs, hlen, by rw [hrest, hnil, List.append_nil], hrange, hop⟩

end Piece

/-!
## The accepted commands

The commands of the wire grammar with any numbers in them, how each is written, the ranges its
numbers are documented to have, and the operation it stands for. Of a command in one of the texts
with numbers the recogniser reads the pieces behind the first literal: `Numbered` ties the two
together.
-/

open Piece

inductive Command where
  | motor (port speed : Int) (endState : Option Int)
  | display3x3 (port : Int) (data : Vector Int 9)
  | motorRun (port : Fin 6) (forward : Bool)
  | motorStop (port : Fin 6)
  | setPixel (x y brightness : Int)
  | clear
  | beep (frequency duration : Int)
  deriving DecidableEq, Repr

/-- The letter of a port, `A` to `F`. -/
def letter (port : Fin 6) : UInt8 := 65 + port.val.toUInt8

namespace Command

def render : Command → List UInt8
  | motor port speed none =>
    motorLiteral ++ signed port ++ text ",\"speed\":" ++ signed speed ++ text "\x7d\x7d"
  | motor port speed (some endState) =>
    motorLiteral ++ signed port ++ text ",\"speed\":" ++ signed speed ++
      text ",\"end_state\":" ++ signed endState ++ text "\x7d\x7d"
  | display3x3 port data =>
    display3x3Literal ++ signed port ++ text ",\"data\":[" ++
      (text ",").intercalate (data.toList.map signed) ++ text "]\x7d\x7d"
  | motorRun port true => motorRunLiteral ++ [letter port] ++ text ", 750)"
  | motorRun port false => motorRunLiteral ++ [letter port] ++ text ", -750)"
  | motorStop port => motorStopLiteral ++ [letter port] ++ text ")"
  | setPixel x y brightness =>
    setPixelLiteral ++ signed x ++ text ", " ++ signed y ++ text ", " ++ signed brightness ++
      text ")"
  | clear => clearLiteral
  | beep frequency duration =>
    beepLiteral ++ signed frequency ++ text ", " ++ signed duration ++ text ", 100)"

/-- The numbers of a command in the order of its text, with their documented ranges. -/
def fields : Command → List Field
  | motor port speed endState =>
    ⟨port, 0, 5⟩ :: ⟨speed, -100, 100⟩ :: endState.toList.map (⟨·, 0, 2⟩)
  | display3x3 port data => ⟨port, 0, 5⟩ :: data.toList.map (⟨·, 0, 255⟩)
  | motorRun .. => []
  | motorStop _ => []
  | setPixel x y brightness => [⟨x, 0, 4⟩, ⟨y, 0, 4⟩, ⟨brightness, 0, 100⟩]
  | clear => []
  | beep frequency duration => [⟨frequency, 100, 10000⟩, ⟨duration, 0, 60000⟩]

def InRange (c : Command) : Prop := ∀ f ∈ c.fields, f.InRange

instance (c : Command) : Decidable c.InRange := inferInstanceAs (Decidable (∀ f ∈ _, _))

def operation : Command → Operation
  | motor port speed none =>
    { kind := .motor, port := port.toNat.toUInt8, speed := Int8.ofInt speed }
  | motor port speed (some endState) =>
    { kind := .motor, port := port.toNat.toUInt8, speed := Int8.ofInt speed,
      hasEndState := true, endState := endState.toNat.toUInt8 }
  | display3x3 port data =>
    { kind := .matrix3, port := port.toNat.toUInt8, pixels := data.map (·.toNat.toUInt8) }
  | motorRun port forward =>
    { kind := .motor, port := port.val.toUInt8, speed := if forward then 75 else -75 }
  | motorStop port => { kind := .motor, port := port.val.toUInt8, hasEndState := true }
  | setPixel x y brightness =>
    { kind := .matrix5Pixel, x := x.toNat.toUInt8, y := y.toNat.toUInt8,
      brightness := brightness.toNat.toUInt8 }
  | clear => { kind := .matrix5Clear }
  | beep frequency duration =>
    { kind := .soundBeep, frequencyHz := frequency.toNat.toUInt16,
      durationMs := duration.toNat.toUInt16 }

end Command

/-! ### The pieces behind the first literals -/

def motorPieces : List Piece :=
  [.number 0 5 fun value op => { op with kind := .motor, port := value.toNat.toUInt8 },
    .literal (text ",\"speed\":"),
    .number (-100) 100 fun value op => { op with speed := Int8.ofInt value }]

def endStateLiteral : List UInt8 := text ",\"end_state\":"

def endStatePieces : List Piece :=
  [.number 0 2 fun value op =>
      { op with hasEndState := true, endState := value.toNat.toUInt8 },
    .literal (text "\x7d\x7d")]

def motorShort : List Piece := motorPieces ++ [.literal (text "\x7d\x7d")]

def motorLong : List Piece := motorPieces ++ .literal endStateLiteral :: endStatePieces

def pixelPieces (i : Fin 9) : List Piece :=
  .number 0 255 (storePixel i) :: if i ≠ lastPixel then [.literal (text ",")] else []

def display3x3Pieces : List Piece :=
  [.number 0 5 fun value op => { op with kind := .matrix3, port := value.toNat.toUInt8 },
    .literal (text ",\"data\":[")] ++ (List.finRange 9).flatMap pixelPieces ++
    [.literal (text "]\x7d\x7d")]

def setPixelPieces : List Piece :=
  [.number 0 4 fun value op => { op with x := value.toNat.toUInt8 }, .literal (text ", "),
    .number 0 4 fun value op => { op with y := value.toNat.toUInt8 }, .literal (text ", "),
    .number 0 100 fun value op => { op with brightness := value.toNat.toUInt8 },
    .literal (text ")")]

def beepPieces : List Piece :=
  [.number 100 10000 fun value op => { op with frequencyHz := value.toNat.toUInt16 },
    .literal (text ", "),
    .number 0 60000 fun value op => { op with durationMs := value.toNat.toUInt16 },
    .literal (text ", 100)")]

theorem setPixel_eq (rest : List UInt8) (op : Operation) :
    setPixel ⟨rest, op⟩ = scan setPixelPieces ⟨rest, { op with kind := .matrix5Pixel }⟩ := by
  simp [setPixel, scan, setPixelPieces, readAll, Piece.take, bind_assoc]
  rfl

theorem beep_eq (rest : List UInt8) (op : Operation) :
    beep ⟨rest, op⟩ = scan beepPieces ⟨rest, { op with kind := .soundBeep }⟩ := by
  simp [beep, scan, beepPieces, readAll, Piece.take, bind_assoc]
  rfl

theorem readAll_pixelPieces (i : Fin 9) : readAll (pixelPieces i) = (do
    number 0 255 (storePixel i)
    if i ≠ lastPixel then expect (text ",")) := by
  by_cases hi : i = lastPixel
  · simp [pixelPieces, readAll, Piece.take, hi]
  · simp [pixelPieces, readAll, Piece.take, hi]

theorem display3x3_eq (rest : List UInt8) (op : Operation) :
    display3x3 ⟨rest, op⟩ = scan display3x3Pieces ⟨rest, op⟩ := by
  have hpixels : readAll ((List.finRange 9).flatMap pixelPieces) = (List.finRange 9).forM _ :=
    readAll_flatMap ..
  simp only [readAll_pixelPieces] at hpixels
  rw [scan, display3x3Pieces, readAll_append, readAll_append, hpixels, display3x3]
  simp only [readAll, Piece.take, bind_assoc, pure_bind]
  rfl

/-! ### The motor form -/

theorem motor_eq : motor = readAll motorPieces >>= fun _ => takeLiteral endStateLiteral >>= fun b =>
    if b then scan endStatePieces else scan [.literal (text "\x7d\x7d")] := by
  simp only [motor, motorPieces, endStatePieces, readAll, Piece.take, scan, bind_assoc, pure_bind]
  rfl

variable {c : Scan}

theorem scan_motorShort : scan motorShort = readAll motorPieces >>= fun _ =>
    scan [.literal (text "\x7d\x7d")] := by
  rw [scan, motorShort, readAll_append, bind_assoc]
  rfl

theorem scan_motorLong : scan motorLong = readAll motorPieces >>= fun _ =>
    expect endStateLiteral >>= fun _ => scan endStatePieces := by
  rw [scan, motorLong, readAll_append, bind_assoc]
  simp only [readAll, Piece.take, scan, bind_assoc]

theorem motor_of_other_text
    (h : ∀ c', readAll motorPieces c = .ok () c' → ¬ endStateLiteral <+: c'.rest) :
    motor c = scan motorShort c := by
  rw [motor_eq, scan_motorShort]
  cases hread : readAll motorPieces c with
  | ok _ c' =>
    rw [bind_of_ok hread, bind_of_ok hread, takeLiteral_bind, if_neg (h c' hread),
      if_neg Bool.false_ne_true]
  | error e c' => rw [bind_of_error hread, bind_of_error hread]

theorem motor_of_text (h : ∀ c', readAll motorPieces c = .ok () c' → endStateLiteral <+: c'.rest) :
    motor c = scan motorLong c := by
  rw [motor_eq, scan_motorLong]
  cases hread : readAll motorPieces c with
  | ok _ c' =>
    obtain ⟨rest, hrest⟩ := h c' hread
    have hc' : c' = ⟨endStateLiteral ++ rest, c'.op⟩ := by rw [hrest]
    rw [bind_of_ok hread, bind_of_ok hread, hc', bind_of_ok (expect_append ..),
      bind_of_ok (takeLiteral_append ..), if_pos rfl]
  | error e c' => rw [bind_of_error hread, bind_of_error hread]

theorem motor_eq_or (c : Scan) : motor c = scan motorShort c ∨ motor c = scan motorLong c := by
  by_cases h : ∃ c', readAll motorPieces c = .ok () c' ∧ endStateLiteral <+: c'.rest
  · obtain ⟨c', hread, hbegins⟩ := h
    refine Or.inr (motor_of_text fun c'' hread' => ?_)
    rw [hread] at hread'
    cases hread'
    exact hbegins
  · exact Or.inl (motor_of_other_text fun c' hread hbegins => h ⟨c', hread, hbegins⟩)

/-- The text behind the speed decides, whatever the numbers before it. -/
theorem rest_of_motorPieces {vs : List Int} {rest : List UInt8} {op : Operation} {c' : Scan}
    (hstop : Stops rest) (hlen : vs.length = 2)
    (h : readAll motorPieces ⟨Piece.render motorPieces vs ++ rest, op⟩ = .ok () c') :
    c'.rest = rest := by
  have hsep : Separated motorPieces rest.head? := by
    refine ⟨by decide, fun b hb => ?_, by decide, hstop, trivial⟩
    cases hb
    decide
  cases hf : firstOutOfRange (Piece.fields motorPieces vs) with
  | none =>
    rw [readAll_render hsep hlen (firstOutOfRange_eq_none.mp hf)] at h
    cases h
    rfl
  | some f =>
    obtain ⟨c'', hc''⟩ := readAll_outOfRange op hsep hlen hf
    rw [hc''] at h
    cases h

theorem motor_render_short (port speed : Int) (op : Operation) :
    motor ⟨Piece.render motorShort [port, speed], op⟩ =
      scan motorShort ⟨Piece.render motorShort [port, speed], op⟩ := by
  have htext : Piece.render motorShort [port, speed] =
      Piece.render motorPieces [port, speed] ++ text "\x7d\x7d" := by
    simp [motorShort, motorPieces, Piece.render]
  rw [htext]
  refine motor_of_other_text fun c' hread => ?_
  have hstop : Stops (text "\x7d\x7d") := by
    intro b hb
    cases hb
    decide
  rw [rest_of_motorPieces hstop rfl hread]
  decide

theorem motor_render_long (port speed endState : Int) (op : Operation) :
    motor ⟨Piece.render motorLong [port, speed, endState], op⟩ =
      scan motorLong ⟨Piece.render motorLong [port, speed, endState], op⟩ := by
  have htext : Piece.render motorLong [port, speed, endState] =
      Piece.render motorPieces [port, speed] ++
        (endStateLiteral ++ Piece.render endStatePieces [endState]) := by
    simp [motorLong, motorPieces, Piece.render]
  rw [htext]
  refine motor_of_text fun c' hread => ?_
  have hstop : Stops (endStateLiteral ++ Piece.render endStatePieces [endState]) := by
    intro b hb
    cases hb
    decide
  rw [rest_of_motorPieces hstop rfl hread]
  exact List.prefix_append ..

end Brickwright.Btsensor.Modern
