import Brickwright.Btsensor.Tx.Basic

/-!
# The lines of the text commands (`apps/btsensor/btsensor_cmd_neutral.c`)

Each link has a stream of its own, in which bytes are collected up to a CR or an LF. What a line is
answered does not touch the streams, so a call gives the lines it hands on, and the overflows it
reports, as a list.
-/

namespace Brickwright.Btsensor.Neutral

open Tx (Link)

/-- `BTSENSOR_CMD_MAX_LINE`. -/
def maxLine : Nat := 128

/-- `struct stream`: the bytes of `line` up to `len`, which leave room for a zero behind them. -/
@[ext] structure Stream where
  line : List UInt8
  overflow : Bool
  fits : line.length < maxLine

inductive Handled where
  /-- The reply `ERR overflow`. -/
  | overflow
  /-- `btsensor_classic_receive`, and `process` if that does not take the line. -/
  | line (bytes : List UInt8)
  deriving DecidableEq

namespace Stream

/-- What `memset` leaves. -/
def empty : Stream := ⟨[], false, Nat.zero_lt_succ _⟩

theorem length_concat_lt {line : List UInt8} (h : line.length + 1 < maxLine) (c : UInt8) :
    (line ++ [c]).length < maxLine := by
  rw [List.length_append]
  exact h

def feedByte (stream : Stream) (c : UInt8) : Stream × List Handled :=
  if c = 13 ∨ c = 10 then
    (empty,
      if stream.overflow then [.overflow]
      else if stream.line.length ≠ 0 then [.line stream.line]
      else [])
  else if h : stream.line.length + 1 < maxLine then
    (⟨stream.line ++ [c], stream.overflow, length_concat_lt h c⟩, [])
  else ({ stream with overflow := true }, [])

def feed (stream : Stream) : List UInt8 → Stream × List Handled
  | [] => (stream, [])
  | c :: data =>
    let r := stream.feedByte c
    let rest := feed r.1 data
    (rest.1, r.2 ++ rest.2)

end Stream

/-- `g_streams`. -/
abbrev Streams := Link → Stream

/-- What `btsensor_cmd_init` leaves. -/
def Streams.init : Streams := fun _ => .empty

/-- The arguments of a call: a link that is neither is `none`, and so is a null pointer. -/
structure Call where
  link : Option Link
  data : Option (List UInt8)

/-- `btsensor_cmd_feed_link`. -/
def feedLink (streams : Streams) (call : Call) : Streams × List (Link × Handled) :=
  match call.link, call.data with
  | some link, some data =>
    let r := (streams link).feed data
    (Function.update streams link r.1, r.2.map (Prod.mk link))
  | _, _ => (streams, [])

def machine : Machine Streams Call (List (Link × Handled)) where
  step := feedLink

/-!
## The cut of a stream does not matter

What a link has received so far decides what was handed on (`feed_eq`): each run of bytes between
two terminators once, if it is not empty, and an overflow in place of one that is too long.
`line_assembly` says so of any calls on both links.
-/

open List

def isTerminator (c : UInt8) : Bool := c = 13 || c = 10

/-- The runs of bytes that a terminator has ended, less the empty ones. -/
def runs (bytes : List UInt8) : List (List UInt8) :=
  (bytes.splitOnP isTerminator).dropLast.filter (· ≠ [])

def handled (run : List UInt8) : Handled :=
  if run.length < maxLine then .line run else .overflow

namespace Stream

/-- The stream behind the bytes of a run that has not ended. -/
def holding (run : List UInt8) : Stream where
  line := run.take (maxLine - 1)
  overflow := decide (maxLine ≤ run.length)
  fits := Nat.lt_of_le_of_lt (length_take_le _ _) (by decide)

theorem holding_nil : holding [] = empty := rfl

theorem feed_append (stream : Stream) (xs ys : List UInt8) :
    stream.feed (xs ++ ys) =
      (((stream.feed xs).1.feed ys).1, (stream.feed xs).2 ++ ((stream.feed xs).1.feed ys).2) := by
  induction xs generalizing stream with
  | nil => rfl
  | cons x xs ih =>
    rw [cons_append, feed, ih, feed, append_assoc]

theorem feedByte_holding (run : List UInt8) {c : UInt8} (hc : isTerminator c = false) :
    (holding run).feedByte c = (holding (run ++ [c]), []) := by
  have hother : ¬ (c = 13 ∨ c = 10) := by simpa [isTerminator] using hc
  rw [feedByte, if_neg hother]
  have hmax : maxLine = 128 := rfl
  have hlen : (holding run).line.length = min 127 run.length := length_take
  by_cases hroom : run.length < 127
  · -- there is room for the byte and the zero
    rw [dif_pos (by omega)]
    refine Prod.ext (Stream.ext ?_ ?_) rfl
    · show run.take 127 ++ [c] = (run ++ [c]).take 127
      rw [take_of_length_le (Nat.le_of_lt hroom), take_of_length_le]
      rw [length_append]
      exact hroom
    · show decide (maxLine ≤ run.length) = decide (maxLine ≤ (run ++ [c]).length)
      rw [length_append, length_singleton, decide_eq_decide]
      omega
  · rw [dif_neg (by omega)]
    refine Prod.ext (Stream.ext ?_ ?_) rfl
    · show run.take 127 = (run ++ [c]).take 127
      rw [take_append_of_le_length (Nat.not_lt.mp hroom)]
    · show true = decide (maxLine ≤ (run ++ [c]).length)
      rw [length_append, length_singleton, eq_comm, decide_eq_true_eq]
      omega

theorem feedByte_terminator (run : List UInt8) {c : UInt8} (hc : isTerminator c = true) :
    (holding run).feedByte c = (empty, ([run].filter (· ≠ [])).map handled) := by
  have hends : c = 13 ∨ c = 10 := by simpa [isTerminator] using hc
  rw [feedByte, if_pos hends]
  congr 1
  by_cases hlong : maxLine ≤ run.length
  · have hne : run ≠ [] := by
      rintro rfl
      exact absurd hlong (by decide)
    have hoverflow : (holding run).overflow = true := decide_eq_true hlong
    rw [hoverflow, if_pos rfl, filter_singleton, decide_eq_true hne]
    show _ = [handled run]
    rw [handled, if_neg (Nat.not_lt.mpr hlong)]
  · have hoverflow : (holding run).overflow = false := decide_eq_false hlong
    have hall : (holding run).line = run :=
      take_of_length_le (Nat.le_sub_one_of_lt (Nat.not_le.mp hlong))
    rw [hoverflow, if_neg Bool.false_ne_true, hall, filter_singleton]
    by_cases hne : run = []
    · rw [hne]
      rfl
    · have hlen : run.length ≠ 0 := fun h => hne (length_eq_zero_iff.mp h)
      rw [if_pos hlen, decide_eq_true hne]
      show _ = [handled run]
      rw [handled, if_pos (Nat.not_le.mp hlong)]

theorem feed_from {run : List UInt8} (hrun : ∀ c ∈ run, isTerminator c = false)
    (bytes : List UInt8) : (holding run).feed bytes =
      (holding (((run ++ bytes).splitOnP isTerminator).getLast (splitOnP_ne_nil _ _)),
        (runs (run ++ bytes)).map handled) := by
  induction bytes generalizing run with
  | nil =>
    have hsingle : (run ++ []).splitOnP isTerminator = [run] := by
      rw [append_nil]
      exact splitOnP_eq_singleton hrun
    rw [feed, runs]
    simp only [hsingle]
    rfl
  | cons c bytes ih =>
    cases hc : isTerminator c with
    | false =>
      have hnext : ∀ b ∈ run ++ [c], isTerminator b = false :=
        forall_mem_append.mpr ⟨hrun, forall_mem_singleton.mpr hc⟩
      rw [feed, feedByte_holding run hc, ih hnext]
      simp only [append_assoc, singleton_append, nil_append]
    | true =>
      have hsplit : (run ++ c :: bytes).splitOnP isTerminator =
          run :: bytes.splitOnP isTerminator :=
        splitOnP_append_cons_of_forall_mem hrun c hc bytes
      have hne := splitOnP_ne_nil isTerminator bytes
      have hruns : runs (run ++ c :: bytes) = [run].filter (· ≠ []) ++ runs bytes := by
        rw [runs, hsplit, dropLast_cons_of_ne_nil hne, ← singleton_append,
          filter_append, runs]
      rw [feed, feedByte_terminator run hc, ← holding_nil, ih (forall_mem_nil _), hruns,
        map_append]
      simp only [hsplit, nil_append, getLast_cons hne]

/-- **A stream fed at once**: the runs that end, and the one that has not. -/
theorem feed_eq (bytes : List UInt8) : empty.feed bytes =
    (holding ((bytes.splitOnP isTerminator).getLast (splitOnP_ne_nil _ _)),
      (runs bytes).map handled) := feed_from (forall_mem_nil _) bytes

end Stream

/-! ### Both links -/

def received (link : Link) (calls : List Call) : List UInt8 :=
  calls.flatMap fun call => if call.link = some link then call.data.getD [] else []

theorem feedLink_apply (streams : Streams) (call : Call) (link : Link) :
    ((feedLink streams call).1 link,
      ((feedLink streams call).2.filter (·.1 = link)).map Prod.snd) =
        (streams link).feed (received link [call]) := by
  obtain ⟨target, data⟩ := call
  rw [received, flatMap_singleton]
  match target, data with
  | none, _ => rfl
  | some _, none =>
    rw [Option.getD_none, ite_self]
    rfl
  | some target, some data =>
    rw [feedLink]
    by_cases htarget : target = link
    · subst htarget
      simp [filter_map, Function.comp_def]
    · simp [Function.update_of_ne (Ne.symm htarget), filter_map, Function.comp_def, htarget,
        Stream.feed]

theorem run_apply (streams : Streams) (calls : List Call) (link : Link) :
    (machine.run streams calls link,
      ((machine.history streams calls).filter (·.1 = link)).map Prod.snd) =
        (streams link).feed (received link calls) := by
  induction calls generalizing streams with
  | nil => rfl
  | cons call calls ih =>
    have hfirst := feedLink_apply streams call link
    have hrest := ih (feedLink streams call).1
    have hreceived :
        received link (call :: calls) = received link [call] ++ received link calls := by
      rw [received, flatMap_cons, received, flatMap_singleton, received]
    rw [hreceived, Stream.feed_append, ← hfirst, ← hrest, Machine.history_cons, filter_append,
      map_append]
    rfl

/-- **Lines do not depend on the cut, nor on the other link.** Whatever the calls on both links,
what one link hands on is what its own bytes do in one call: each run that a terminator ended, once,
or an overflow if it is longer than a line. -/
theorem line_assembly (calls : List Call) (link : Link) :
    let bytes := received link calls
    let events := ((machine.history Streams.init calls).filter (·.1 = link)).map Prod.snd
    let whole := feedLink Streams.init ⟨some link, some bytes⟩
    events = whole.2.map Prod.snd ∧ machine.run Streams.init calls link = whole.1 link ∧
      events = (runs bytes).map handled := by
  intro bytes events whole
  obtain ⟨hstream, hevents⟩ := Prod.mk.inj (run_apply Streams.init calls link)
  have hwhole : whole.2.map Prod.snd = (Stream.empty.feed bytes).2 := by
    show List.map Prod.snd (List.map (Prod.mk link) (Stream.empty.feed bytes).2) = _
    rw [map_map]
    exact map_id _
  refine ⟨hevents.trans hwhole.symm, ?_, ?_⟩
  · rw [hstream]
    exact (Function.update_self link (Stream.empty.feed bytes).1 Streams.init).symm
  · exact hevents.trans (congrArg Prod.snd (Stream.feed_eq bytes))

end Brickwright.Btsensor.Neutral
