import Brickwright.Protocol.Codec.Basic

/-!
# The C codec in its memory

The C functions compute what the scheme says and leave the rest of the caller's memory alone:
`Filled mem cells l` says that the memory `cells` is `mem` with `l` written at its start. A call
that succeeds has written its result so; a call that fails has written some prefix within the
capacity.
-/

namespace Brickwright.Protocol.C

open List

/-- `mem` with `l` written at its start. -/
def filled (mem l : List UInt8) : List UInt8 := l ++ mem.drop l.length

theorem take_filled (mem l : List UInt8) : (filled mem l).take l.length = l := take_left

variable {mem l : List UInt8}

theorem drop_filled {n : Nat} (h : l.length ≤ n) :
    (filled mem l).drop n = mem.drop n := by
  rw [filled, drop_append, drop_of_length_le h, nil_append, drop_drop]
  congr 1
  omega

theorem filled_set (h : l.length < mem.length) (x : UInt8) :
    (filled mem l).set l.length x = filled mem (l ++ [x]) := by
  rw [filled, set_append_right _ _ (Nat.le_refl _), Nat.sub_self, drop_eq_getElem_cons h,
    set_cons_zero, filled, length_append, append_assoc]
  rfl

theorem filled_reset (mem done cur : List UInt8) (x y : UInt8) :
    (filled mem (done ++ x :: cur)).set done.length y = filled mem (done ++ y :: cur) := by
  simp [filled, set_append_right]

/-! ## Encoding -/

/-- The loop's state while a block is open. -/
def opened (mem done cur : List UInt8) : Encoder :=
  ⟨filled mem (done ++ 0xff :: cur), done.length, (done ++ 0xff :: cur).length, cur.length + 1⟩

theorem open_filled (h : l.length < mem.length) (i n : Nat) :
    (Encoder.mk (filled mem l) i l.length n).open = opened mem l [] := by
  simp [Encoder.open, opened, filled_set h]

/-- What the loop leaves when it is to write `e`. -/
def Encodes (mem : List UInt8) (capacity : Nat) (e : List UInt8) (r : Status × Encoder) : Prop :=
  (e.length ≤ capacity → r.1 = .ok ∧ r.2.out = e.length ∧
    r.2.dst.set r.2.codeIndex (UInt8.ofNat (r.2.block + 2)) = filled mem e) ∧
  (capacity < e.length → r.1 = .noSpace ∧ ∃ l, r.2.dst = filled mem l ∧ l.length ≤ capacity)

theorem Encodes.full {mem e l : List UInt8} {capacity i n : Nat} (he : capacity < e.length)
    (hl : l.length ≤ capacity) :
    Encodes mem capacity e (.noSpace, ⟨filled mem l, i, l.length, n⟩) :=
  ⟨fun h => absurd he (Nat.not_lt.mpr h), fun _ => ⟨rfl, l, rfl, hl⟩⟩

/-- A block that is ended, and the next one opened if there is room. -/
def next (mem : List UInt8) (capacity : Nat) (src l : List UInt8) (i n : Nat) : Status × Encoder :=
  if capacity ≤ l.length then (.noSpace, ⟨filled mem l, i, l.length, n⟩)
  else encodeLoop capacity src (opened mem l [])

section Loop

variable {mem : List UInt8} {capacity : Nat} {b : UInt8} {src done cur : List UInt8}

theorem loop_reserved (hcap : capacity ≤ mem.length) (hb : b ≤ 2) :
    encodeLoop capacity (b :: src) (opened mem done cur)
      = next mem capacity src (done ++ scheme.code cur.length b :: cur) done.length
          (cur.length + 1) := by
  have hlen : (done ++ 0xff :: cur).length = (done ++ scheme.code cur.length b :: cur).length := by
    simp
  have hset : (opened mem done cur).dst.set done.length
      (UInt8.ofNat ((opened mem done cur).block + 2 + b.toNat * blockMax))
      = filled mem (done ++ scheme.code cur.length b :: cur) := by
    show (filled mem (done ++ 0xff :: cur)).set done.length _ = _
    rw [filled_reset]
    rfl
  rw [encodeLoop, if_pos hb, next]
  show (if (done ++ 0xff :: cur).length ≥ capacity then
      (Status.noSpace, Encoder.mk (List.set _ _ _) done.length (done ++ 0xff :: cur).length _)
    else encodeLoop capacity src (Encoder.mk (List.set _ _ _) done.length _ _).open) = _
  rw [hlen, show (opened mem done cur).codeIndex = done.length from rfl, hset]
  split
  · rfl
  · next hroom =>
    rw [show (opened mem done cur).out = (done ++ scheme.code cur.length b :: cur).length from hlen,
      open_filled (by omega)]

theorem loop_full (hb : ¬ b ≤ 2) (hfull : capacity ≤ (done ++ 0xff :: cur).length) :
    encodeLoop capacity (b :: src) (opened mem done cur) = (.noSpace, opened mem done cur) := by
  rw [encodeLoop, if_neg hb]
  exact if_pos hfull

theorem literal_set (hcap : capacity ≤ mem.length)
    (hroom : (done ++ 0xff :: cur).length < capacity) :
    (opened mem done cur).dst.set (opened mem done cur).out b
      = filled mem (done ++ 0xff :: (cur ++ [b])) := by
  show (filled mem (done ++ 0xff :: cur)).set (done ++ 0xff :: cur).length b = _
  rw [filled_set (by omega)]
  simp

theorem loop_literal (hcap : capacity ≤ mem.length)
    (hroom : (done ++ 0xff :: cur).length < capacity) (hb : ¬ b ≤ 2) (hopen : cur.length + 1 < 84) :
    encodeLoop capacity (b :: src) (opened mem done cur)
      = encodeLoop capacity src (opened mem done (cur ++ [b])) := by
  have hunder : ¬ (opened mem done cur).block + 1 > blockMax := by
    show ¬ cur.length + 1 + 1 > 84
    omega
  have hstate : Encoder.mk (filled mem (done ++ 0xff :: (cur ++ [b]))) done.length
      ((done ++ 0xff :: cur).length + 1) (cur.length + 1 + 1) = opened mem done (cur ++ [b]) := by
    simp [opened, Nat.add_assoc]
  rw [encodeLoop, if_neg hb, if_neg (Nat.not_le.mpr hroom : ¬ (opened mem done cur).out ≥ capacity)]
  simp only [literal_set hcap hroom, if_neg hunder]
  exact congrArg (encodeLoop capacity src) hstate

theorem loop_block (hcap : capacity ≤ mem.length)
    (hroom : (done ++ 0xff :: cur).length < capacity) (hb : ¬ b ≤ 2)
    (hblock : cur.length + 1 = 84) :
    encodeLoop capacity (b :: src) (opened mem done cur)
      = next mem capacity src (done ++ 0xff :: (cur ++ [b])) done.length (cur.length + 1 + 1) := by
  have hover : (opened mem done cur).block + 1 > blockMax := by
    show cur.length + 1 + 1 > 84
    omega
  have hlen : (done ++ 0xff :: (cur ++ [b])).length = (opened mem done cur).out + 1 := by
    simp [opened, Nat.add_assoc]
  rw [encodeLoop, if_neg hb, if_neg (Nat.not_le.mpr hroom : ¬ (opened mem done cur).out ≥ capacity)]
  simp only [literal_set hcap hroom, if_pos hover, ← hlen, next]
  split
  · rfl
  · next hmore => rw [open_filled (by omega)]

end Loop

variable {capacity : Nat}

/-- **The encoder**, from any open block: it succeeds exactly when the capacity holds the result. -/
theorem encode_from {mem : List UInt8} (hcap : capacity ≤ mem.length)
    (src done cur : List UInt8) (hcur : cur.length < 84)
    (hout : (done ++ 0xff :: cur).length ≤ capacity) :
    Encodes mem capacity (done ++ scheme.stuffFrom cur src)
      (encodeLoop capacity src (opened mem done cur)) := by
  induction src generalizing done cur with
  | nil =>
    rw [Stuffing.stuffFrom]
    have hlen : (done ++ scheme.code cur.length scheme.pseudo :: cur).length
        = (done ++ 0xff :: cur).length := by simp
    refine ⟨fun _ => ⟨rfl, hlen.symm, ?_⟩, fun h => by omega⟩
    show (filled mem (done ++ 0xff :: cur)).set done.length _ = _
    rw [filled_reset]
    rfl
  | cons b src ih =>
    -- However a block `l` ends, what is left is the same question for an empty block.
    have hnext : ∀ (l : List UInt8) (i n : Nat), l.length ≤ capacity →
        Encodes mem capacity (l ++ scheme.stuffFrom [] src) (next mem capacity src l i n) := by
      intro l i n hl
      have hlonger := scheme.length_lt_stuffFrom [] src
      rw [next]
      split
      · next hfull =>
        apply Encodes.full _ hl
        rw [length_append]
        omega
      · next hroom =>
        apply ih l [] (by decide)
        rw [length_append, length_singleton]
        omega
    by_cases hb : b ≤ 2
    · rw [Stuffing.stuffFrom, if_pos (reserved_iff.mpr hb), loop_reserved hcap hb]
      have h := hnext (done ++ scheme.code cur.length b :: cur) done.length (cur.length + 1)
        (by simpa using hout)
      simpa using h
    · by_cases hfull : capacity ≤ (done ++ 0xff :: cur).length
      · rw [loop_full hb hfull]
        apply Encodes.full _ hout
        have hlonger := scheme.length_lt_stuffFrom cur (b :: src)
        simp only [length_append, length_cons] at hfull hlonger ⊢
        omega
      · have hroom : (done ++ 0xff :: cur).length < capacity := Nat.not_le.mp hfull
        have hlen : (done ++ 0xff :: (cur ++ [b])).length ≤ capacity := by
          simp only [length_append, length_cons, length_nil] at hroom ⊢
          omega
        rw [Stuffing.stuffFrom, if_neg (fun h => hb (reserved_iff.mp h))]
        by_cases hblock : cur.length + 1 = scheme.limit
        · rw [if_pos hblock, loop_block hcap hroom hb hblock]
          have h := hnext (done ++ 0xff :: (cur ++ [b])) done.length (cur.length + 1 + 1) hlen
          simpa [scheme] using h
        · have hopen : cur.length + 1 < 84 := by
            have hblock : cur.length + 1 ≠ 84 := hblock
            omega
          rw [if_neg hblock, loop_literal hcap hroom hb hopen]
          apply ih _ _ _ hlen
          rwa [length_append, length_singleton]

theorem cobsEncode_fits (src dst : List UInt8) (hcap : capacity ≤ dst.length)
    (h : (scheme.stuff src).length ≤ capacity) :
    cobsEncode src dst capacity
      = ⟨.ok, filled dst (scheme.stuff src), (scheme.stuff src).length⟩ := by
  have hpos := scheme.length_lt_stuff src
  have hopen : Encoder.mk (dst.set 0 0xff) 0 1 1 = opened dst [] [] :=
    congrArg (Encoder.mk · 0 1 1) (filled_set (l := []) (by simp; omega) 0xff)
  obtain ⟨hok, hout, hset⟩ :=
    (encode_from hcap src [] [] (by decide) (by simp; omega)).1 h
  rw [cobsEncode, if_neg (by omega), hopen]
  simp only [if_pos hok]
  rw [hset, hout]
  rfl

theorem cobsEncode_overflows (src dst : List UInt8) (hcap : capacity ≤ dst.length)
    (h : capacity < (scheme.stuff src).length) :
    ∃ l, cobsEncode src dst capacity = ⟨.noSpace, filled dst l, 0⟩ ∧ l.length ≤ capacity := by
  by_cases hone : capacity < 1
  · exact ⟨[], by rw [cobsEncode, if_pos hone]; rfl, Nat.zero_le _⟩
  · have hopen : Encoder.mk (dst.set 0 0xff) 0 1 1 = opened dst [] [] :=
      congrArg (Encoder.mk · 0 1 1) (filled_set (l := []) (by simp; omega) 0xff)
    obtain ⟨hfull, l, hdst, hl⟩ :=
      (encode_from hcap src [] [] (by decide) (by simp; omega)).2 h
    refine ⟨l, ?_, hl⟩
    rw [cobsEncode, if_neg hone, hopen]
    simp [hfull, hdst]

/-! ### The frame around it -/

theorem modify_at (l : List UInt8) (x : UInt8) (tail : List UInt8) (f : UInt8 → UInt8) :
    (l ++ x :: tail).modify l.length f = l ++ f x :: tail :=
  modifyTailIdx_add (List.modifyHead f) 0 l (x :: tail)

theorem mask_loop (pre e tail : List UInt8) {n : Nat} (hn : n ≤ e.length) :
    (List.range n).foldl (fun c i => c.modify (pre.length + i) (· ^^^ xor)) (pre ++ e ++ tail)
      = pre ++ (e.take n).map (· ^^^ xor) ++ (e.drop n ++ tail) := by
  induction n with
  | zero => simp
  | succ n ih =>
    have hat : pre.length + n = (pre ++ (e.take n).map (· ^^^ xor)).length := by
      simp only [length_append, length_map, length_take]
      omega
    rw [range_succ, foldl_append, ih (by omega), drop_eq_getElem_cons (by omega),
      foldl_cons, foldl_nil, hat, cons_append, modify_at, take_add_one,
      List.getElem?_eq_getElem (by omega), Option.toList_some, map_append]
    simp only [map_cons, map_nil, append_assoc, cons_append, nil_append]

theorem append_filled (mem pre l : List UInt8) :
    pre ++ filled (mem.drop pre.length) l = filled mem (pre ++ l) := by
  rw [filled, filled, drop_drop, length_append, append_assoc]

theorem mask_filled (mem pre e : List UInt8) :
    (List.range e.length).foldl (fun c i => c.modify (pre.length + i) (· ^^^ xor))
        (pre ++ filled (mem.drop pre.length) e)
      = filled mem (pre ++ e.map (· ^^^ xor)) := by
  rw [filled, ← append_assoc, mask_loop _ _ _ (Nat.le_refl _), take_length,
    drop_length, nil_append, drop_drop, filled, length_append, length_map]

theorem jsPack_eq (payload : List UInt8) (high : Bool) :
    Js.pack payload high
      = (if high then [1] else []) ++ (scheme.stuff payload).map (· ^^^ xor) ++ [delimiterEnd] := by
  rw [Js.pack, Js.cobsEncode_eq]
  rfl

theorem filled_priority {mem : List UInt8} (h : 0 < mem.length) (high : Bool) :
    (if high then mem.set 0 1 else mem) = filled mem (if high then [1] else []) := by
  cases high with
  | false => rfl
  | true => exact filled_set (l := []) h 1

theorem pack_fits {payload : List UInt8} {high : Bool} {frame : Region}
    (h : (Js.pack payload high).length ≤ frame.capacity) :
    pack payload high frame
      = ⟨.ok, filled frame.cells (Js.pack payload high), (Js.pack payload high).length⟩ := by
  have hlonger := scheme.length_lt_stuff payload
  have hcap := frame.fits
  rw [jsPack_eq] at h ⊢
  generalize hpre : (if high then [1] else [] : List UInt8) = pre at h
  have hstart : (if high then 1 else 0) = pre.length := by
    rw [← hpre]
    split <;> rfl
  simp only [length_append, length_map, length_singleton] at h
  have hcells : (frame.cells.drop pre.length).length = frame.cells.length - pre.length :=
    length_drop
  have hroom : ¬ frame.capacity < pre.length + 2 := by omega
  have hpriority : (if high then frame.cells.set 0 1 else frame.cells) =
      filled frame.cells pre := by
    rw [filled_priority (by omega), hpre]
  have henc := cobsEncode_fits payload (frame.cells.drop pre.length)
    (show frame.capacity - pre.length - 1 ≤ _ by omega) (by omega)
  have hmask := mask_filled frame.cells pre (scheme.stuff payload)
  have hlen : pre.length + (scheme.stuff payload).length
      = (pre ++ (scheme.stuff payload).map (· ^^^ xor)).length := by
    rw [length_append, length_map]
  rw [pack, hstart, if_neg hroom]
  simp only [hpriority, take_filled, drop_filled (Nat.le_refl pre.length), henc]
  rw [if_neg (by simp), hmask, hlen, filled_set (by omega)]
  simp [Nat.add_assoc]

theorem pack_overflows {payload : List UInt8} {high : Bool} {frame : Region}
    (h : frame.capacity < (Js.pack payload high).length) :
    ∃ l, pack payload high frame = ⟨.noSpace, filled frame.cells l, 0⟩ ∧
      l.length ≤ frame.capacity := by
  have hcap := frame.fits
  rw [jsPack_eq] at h
  generalize hpre : (if high then [1] else [] : List UInt8) = pre at h
  have hstart : (if high then 1 else 0) = pre.length := by
    rw [← hpre]
    split <;> rfl
  simp only [length_append, length_map, length_singleton] at h
  have hcells : (frame.cells.drop pre.length).length = frame.cells.length - pre.length :=
    length_drop
  by_cases hroom : frame.capacity < pre.length + 2
  · refine ⟨[], ?_, Nat.zero_le _⟩
    rw [pack, hstart, if_pos hroom]
    rfl
  · have hpriority : (if high then frame.cells.set 0 1 else frame.cells)
        = filled frame.cells pre := by
      rw [filled_priority (by omega), hpre]
    obtain ⟨l, henc, hl⟩ := cobsEncode_overflows payload (frame.cells.drop pre.length)
      (show frame.capacity - pre.length - 1 ≤ _ by omega) (by omega)
    refine ⟨pre ++ l, ?_, ?_⟩
    · rw [pack, hstart, if_neg hroom]
      simp only [hpriority, take_filled, drop_filled (Nat.le_refl pre.length), henc]
      rw [if_pos (by simp), append_filled]
    · rw [length_append]
      omega

/-! ## Decoding -/

theorem filled_overlay (mem l bs : List UInt8) :
    (filled mem l).overlay l.length bs = filled mem (l ++ bs) := by
  rw [List.overlay, take_filled, drop_filled (by omega), filled, length_append]

/-- What a decoder leaves that has written `done` and has `p` to write. -/
structure Decodes (mem : List UInt8) (capacity : Nat) (done : List UInt8)
    (p : Option (List UInt8)) (w : Written) : Prop where
  fits : ∀ q, p = some q → (done ++ q).length ≤ capacity →
    w = ⟨.ok, filled mem (done ++ q), (done ++ q).length⟩
  overflows : ∀ q, p = some q → capacity < (done ++ q).length → w.status = .noSpace
  fails : p = none → w.status ≠ .ok
  bounded : ∃ l, w.cells = filled mem l ∧ l.length ≤ capacity

theorem Decodes.invalid {mem done : List UInt8} {capacity n : Nat} (h : done.length ≤ capacity) :
    Decodes mem capacity done none ⟨.invalid, filled mem done, n⟩ :=
  ⟨fun q hq => by simp at hq, fun q hq => by simp at hq, fun _ => by simp, done, rfl, h⟩

theorem Decodes.noSpace {mem done : List UInt8} {capacity n : Nat} {p : Option (List UInt8)}
    (h : done.length ≤ capacity) (hp : ∀ q, p = some q → capacity < (done ++ q).length) :
    Decodes mem capacity done p ⟨.noSpace, filled mem done, n⟩ :=
  ⟨fun q hq hle => absurd (hp q hq) (Nat.not_lt.mpr hle), fun _ _ _ => rfl, fun _ => by simp, done,
    rfl, h⟩

theorem Decodes.more {mem done bs : List UInt8} {p : Option (List UInt8)}
    {w : Written} (h : Decodes mem capacity (done ++ bs) p w) :
    Decodes mem capacity done (p.map (bs ++ ·)) w where
  fits q hq hle := by
    obtain ⟨r, hr, rfl⟩ := Option.map_eq_some_iff.mp hq
    rw [← append_assoc] at hle ⊢
    exact h.fits r hr hle
  overflows q hq hlong := by
    obtain ⟨r, hr, rfl⟩ := Option.map_eq_some_iff.mp hq
    rw [← append_assoc] at hlong
    exact h.overflows r hr hlong
  fails hnone := h.fails (Option.map_eq_none_iff.mp hnone)
  bounded := h.bounded

variable {src : List UInt8}

theorem length_lits {i n : Nat} (hfit : i + n ≤ src.length) :
    ((src.drop i).take n).length = n := by
  rw [length_take, length_drop]
  omega

/-- What the block at `i` adds to the output. -/
def piece (src : List UInt8) (i : Nat) : List UInt8 :=
  let block := blockOf (src.getD i 0)
  (src.drop (i + 1)).take block.1 ++
    (if i + 1 + block.1 < src.length then (block.2.map UInt8.ofNat).toList else [])

theorem length_piece {i : Nat} (hfit : i + 1 + (blockOf (src.getD i 0)).1 ≤ src.length) :
    (piece src i).length = (blockOf (src.getD i 0)).1 +
      if (blockOf (src.getD i 0)).2.isSome ∧ i + 1 + (blockOf (src.getD i 0)).1 < src.length then 1
      else 0 := by
  rw [piece, length_append, length_lits hfit]
  generalize blockOf (src.getD i 0) = block
  cases block.2 with
  | none => simp
  | some d => by_cases hmore : i + 1 + block.1 < src.length <;> simp [hmore]

theorem unstuff_piece {i : Nat} (hlt : i < src.length)
    (hres : ¬ src.getD i 0 ≤ 2) (hfit : i + 1 + (blockOf (src.getD i 0)).1 ≤ src.length) :
    scheme.unstuff (src.drop i)
      = (scheme.unstuff (src.drop (i + 1 + (blockOf (src.getD i 0)).1))).map (piece src i ++ ·) :=
  scheme.unstuff_drop_block (getElem?_of_lt hlt) (uncode_eq hres) hfit

theorem decode_plain {mem src done : List UInt8} {capacity i : Nat} {w : Written}
    (hlt : i < src.length) (hres : ¬ src.getD i 0 ≤ 2)
    (hfit : i + 1 + (blockOf (src.getD i 0)).1 ≤ src.length)
    (hpiece : piece src i = (src.drop (i + 1)).take (blockOf (src.getD i 0)).1)
    (hspace : done.length + (blockOf (src.getD i 0)).1 ≤ capacity)
    (ih : ∀ done', done'.length = done.length + (blockOf (src.getD i 0)).1 →
      filled mem done' = (filled mem done).overlay done.length
        ((src.drop (i + 1)).take (blockOf (src.getD i 0)).1) →
      done'.length ≤ capacity →
      Decodes mem capacity done'
        (scheme.unstuff (src.drop (i + 1 + (blockOf (src.getD i 0)).1))) w) :
    Decodes mem capacity done (scheme.unstuff (src.drop i)) w := by
  have hlen : (done ++ piece src i).length = done.length + (blockOf (src.getD i 0)).1 := by
    rw [length_append, hpiece, length_lits hfit]
  rw [unstuff_piece hlt hres hfit]
  apply Decodes.more
  apply ih _ hlen
  · rw [filled_overlay, hpiece]
  · rw [hlen]
    exact hspace

/-- **The decoder**, from any read position. -/
theorem decode_from {mem : List UInt8} (hcap : capacity ≤ mem.length)
    (src : List UInt8) (i out : Nat) (dst done : List UInt8) (hout : out = done.length)
    (hdst : dst = filled mem done) (hdone : done.length ≤ capacity) :
    Decodes mem capacity done (scheme.unstuff (src.drop i))
      (decodeLoop src capacity i out dst) := by
  -- The cases are the exits of the loop, a block with and without a delimiter, and the end.
  fun_induction decodeLoop src capacity i out dst generalizing done with
  | case1 i out dst hlt code hres =>
    rw [scheme.unstuff_drop_none (getElem?_of_lt hlt) (uncode_reserved hres), hdst]
    exact .invalid hdone
  | case2 i out dst hlt code delimiter hres hbad =>
    simp [delimiter, blockOf_eq, blockOf_delimiter] at hbad
  | case3 i out dst hlt code block delimiter next hres hgood hshort =>
    rw [scheme.unstuff_drop_short (getElem?_of_lt hlt) (uncode_eq hres) hshort, hdst]
    exact .invalid hdone
  | case4 i out dst hlt code block delimiter next hres hgood hfit hspace =>
    have hfit : i + 1 + (blockOf (src.getD i 0)).1 ≤ src.length := Nat.not_lt.mp hfit
    have hspace : capacity < out + (piece src i).length := by
      rw [length_piece hfit, ← Nat.add_assoc]
      exact hspace
    rw [unstuff_piece hlt hres hfit, hdst]
    apply Decodes.noSpace hdone
    intro q hq
    obtain ⟨r, -, rfl⟩ := Option.map_eq_some_iff.mp hq
    simp only [length_append]
    omega
  | case5 i out dst hlt code block delimiter next hres hgood hfit hspace dst' d hd hmore ih =>
    have hfit : i + 1 + (blockOf (src.getD i 0)).1 ≤ src.length := Nat.not_lt.mp hfit
    have hspace : out + (piece src i).length ≤ capacity := by
      rw [length_piece hfit, ← Nat.add_assoc]
      exact Nat.not_lt.mp hspace
    have hpiece : piece src i = (src.drop next).take block ++ [UInt8.ofNat d] := by
      have hd : (blockOf (src.getD i 0)).2 = some d := hd
      rw [piece, hd]
      exact congrArg _ (if_pos hmore)
    have hblock : ((src.drop next).take block).length = block := length_lits hfit
    have hlits : dst' = filled mem (done ++ (src.drop next).take block) := by
      show dst.overlay out _ = _
      rw [hdst, hout, filled_overlay]
    rw [hpiece, length_append, hblock, length_singleton] at hspace
    have hat : out + block = (done ++ (src.drop next).take block).length := by
      rw [length_append, hblock, hout]
    rw [unstuff_piece hlt hres hfit]
    apply Decodes.more
    rw [hpiece, ← append_assoc]
    apply ih
    · rw [length_append, ← hat, length_singleton]
    · rw [hlits, hat, filled_set (by omega)]
    · rw [length_append, ← hat, length_singleton]
      omega
  | case6 i out dst hlt code block delimiter next hres hgood hfit hspace dst' d hd hlast ih =>
    have hfit : i + 1 + (blockOf (src.getD i 0)).1 ≤ src.length := Nat.not_lt.mp hfit
    have hpiece : piece src i = (src.drop next).take block := by
      exact (congrArg _ (if_neg hlast)).trans (append_nil _)
    have hspace : done.length + (blockOf (src.getD i 0)).1 ≤ capacity := by
      rw [← hout]
      exact Nat.le_trans (Nat.le_add_right _ _) (Nat.not_lt.mp hspace)
    apply decode_plain hlt hres hfit hpiece hspace
    intro done' hlen hwritten
    exact ih done' ((congrArg (· + block) hout).trans hlen.symm) (by rw [hwritten, ← hdst, ← hout])
  | case7 i out dst hlt code block delimiter next hres hgood hfit hspace dst' hd ih =>
    have hfit : i + 1 + (blockOf (src.getD i 0)).1 ≤ src.length := Nat.not_lt.mp hfit
    have hpiece : piece src i = (src.drop next).take block := by
      have hd : (blockOf (src.getD i 0)).2 = none := hd
      rw [piece, hd]
      exact (congrArg _ (ite_self _)).trans (append_nil _)
    have hspace : done.length + (blockOf (src.getD i 0)).1 ≤ capacity := by
      rw [← hout]
      exact Nat.le_trans (Nat.le_add_right _ _) (Nat.not_lt.mp hspace)
    apply decode_plain hlt hres hfit hpiece hspace
    intro done' hlen hwritten
    exact ih done' ((congrArg (· + block) hout).trans hlen.symm) (by rw [hwritten, ← hdst, ← hout])
  | case8 i out dst hend =>
    rw [drop_of_length_le (by omega), scheme.unstuff_nil, hdst, hout]
    refine ⟨?_, ?_, fun h => by simp at h, done, rfl, hdone⟩
    · rintro q ⟨rfl⟩ _
      rw [append_nil]
    · rintro q ⟨rfl⟩ hlong
      rw [append_nil] at hlong
      omega

end Brickwright.Protocol.C
