import Brickwright.Btsensor.Neutral.Commands

/-!
# Every reply is one line, if what it repeats is short

A reply that repeats a token of the client is built in a buffer of 64 bytes, and loses its newline
when the token is long. `repeated` says which token that is; `process_isLine_iff` that nothing else
goes wrong, and `replies_isLine_iff` the same of every run on both links.
-/

namespace Brickwright.Btsensor.Neutral

open Decimal
open Tx (Link EBUSY EINVAL ENOTSUP E2BIG)
open List

/-- A newline at the end and nowhere else, and no more than the transmit queue accepts. -/
def IsLine (s : List UInt8) : Prop :=
  s.getLast? = some 10 ∧ 10 ∉ s.dropLast ∧ s.length ≤ Tx.responseMaxLen

instance (s : List UInt8) : Decidable (IsLine s) := inferInstanceAs (Decidable (_ ∧ _ ∧ _))

theorem isLine_concat {s : List UInt8} (h : 10 ∉ s) (hlen : s.length < Tx.responseMaxLen) :
    IsLine (s ++ [10]) := by
  refine ⟨List.getLast?_concat, ?_, ?_⟩
  · rwa [dropLast_concat]
  · rw [length_append]
    exact hlen

theorem isLine_snprintf {size : Nat} (hsize : size ≤ Tx.responseMaxLen) {s : List UInt8}
    (h : 10 ∉ s) : IsLine (snprintf size (s ++ [10])) ↔ s.length + 1 < size := by
  rw [snprintf]
  constructor
  · rintro ⟨hlast, -, -⟩
    by_contra hlong
    have htake : (s ++ [10]).take (size - 1) = s.take (size - 1) :=
      take_append_of_le_length (by omega)
    rw [htake] at hlast
    exact h (mem_of_mem_take (mem_of_mem_getLast? hlast))
  · intro hshort
    have htake : (s ++ [10]).take (size - 1) = s ++ [10] :=
      take_of_length_le (by rw [length_append, length_singleton]; omega)
    rw [htake]
    exact isLine_concat h (by omega)

theorem isLine_ite {p : Prop} [Decidable p] {s t : List UInt8} (hs : p → IsLine s)
    (ht : ¬ p → IsLine t) : IsLine (if p then s else t) := by
  split
  · next h => exact hs h
  · next h => exact ht h

theorem text_newline : text "\n" = [10] := rfl

theorem newline_not_mem_decimal (n : Nat) : 10 ∉ decimal n := by
  intro h
  have hdigit := isDigit_of_mem_decimal h
  exact absurd hdigit (by decide)

theorem newline_not_mem_signed (v : Int) : 10 ∉ signed v := by
  cases v with
  | ofNat n => exact newline_not_mem_decimal n
  | negSucc n =>
    intro h
    rcases mem_cons.mp h with h | h
    · exact absurd h (by decide)
    · exact newline_not_mem_decimal _ h

theorem isLine_repeating {what token : List UInt8} (hwhat : 10 ∉ what) (htoken : 10 ∉ token) :
    IsLine (snprintf replyMax (what ++ token ++ text "\n")) ↔
      what.length + token.length + 1 < replyMax := by
  have hboth : 10 ∉ what ++ token := by
    rw [mem_append, not_or]
    exact ⟨hwhat, htoken⟩
  rw [text_newline, isLine_snprintf (by decide) hboth, length_append]

theorem isLine_errno (rc : Int32) :
    IsLine (snprintf replyMax (text "ERR errno=" ++ signed rc.toInt ++ text "\n")) := by
  apply (isLine_repeating (by decide) (newline_not_mem_signed _)).mpr
  have hlen : (signed rc.toInt).length ≤ 11 := by
    apply length_signed_le (by decide)
    have hle : rc.toInt ≤ 2147483647 := rc.toInt_le
    have hge : -2147483648 ≤ rc.toInt := rc.le_toInt
    omega
  have hwhat : (text "ERR errno=").length = 10 := rfl
  show _ < 64
  omega

theorem isLine_replyRc (rc : Int32) {what : List UInt8} (hwhat : 10 ∉ what)
    (hlen : what.length ≤ 50) : IsLine (replyRc rc what) := by
  rw [replyRc]
  split
  · decide
  · split
    · decide
    · split
      · apply (isLine_repeating (by decide) hwhat).mpr
        show 12 + what.length + 1 < 64
        omega
      · exact isLine_errno (-rc)

/-! ## The snapshot -/

theorem newline_not_mem_numbers (format : Formatter) {numbers : List Float32Bits}
    (h : ∀ x ∈ numbers, Finite x) :
    10 ∉ numbers.flatMap fun x => text " " ++ format.g6 x := by
  intro hmem
  obtain ⟨x, hx, hmem⟩ := mem_flatMap.mp hmem
  rcases mem_append.mp hmem with hmem | hmem
  · exact absurd hmem (by decide)
  · rcases format.plain x (h x hx) 10 hmem with hdigit | hsign
    · exact absurd hdigit (by decide)
    · exact absurd hsign (by decide)

theorem Snapshot.isLine_print {snap : Snapshot} (h : snap.Usable) (format : Formatter)
    (hlen : (snap.print format).length ≤ Tx.responseMaxLen) : IsLine (snap.print format) := by
  obtain ⟨body, hbody⟩ : ∃ body, snap.print format = body ++ [10] := ⟨_, rfl⟩
  have hplain : 10 ∉ body := by
    have hnumbers := newline_not_mem_numbers format h.2.2.2
    have heq := append_cancel_right (hbody.symm.trans rfl : body ++ [10] = _ ++ [10])
    rw [heq]
    simp only [mem_append, not_or]
    have hspace : (10 : UInt8) ∉ text " " := by decide
    have hhead : (10 : UInt8) ∉ text "FUSION SNAP " := by decide
    exact ⟨⟨⟨⟨⟨⟨⟨⟨hhead, newline_not_mem_decimal _⟩, hspace⟩, newline_not_mem_decimal _⟩, hspace⟩,
      newline_not_mem_decimal _⟩, hspace⟩, newline_not_mem_decimal _⟩, hnumbers⟩
  rw [hbody] at hlen ⊢
  apply isLine_concat hplain
  rw [length_append] at hlen
  exact hlen

theorem isLine_status (starting running stopping : Bool) :
    IsLine (snprintf replyMax (text "FUSION STATUS " ++ decimal starting.toNat ++ text " " ++
      decimal running.toNat ++ text " " ++ decimal stopping.toNat ++ text "\n")) := by
  cases starting <;> cases running <;> cases stopping <;> decide

/-! ## What is repeated -/

/-- The token that a reply repeats, behind the text that stands before it. -/
abbrev Repeated := Option (List UInt8 × Token)

/-- The reply fits its buffer, newline and zero included. -/
def Repeated.Fits : Repeated → Prop
  | none => True
  | some (what, token) => what.length + token.length + 1 < replyMax

def repeatedImu : List Token → Repeated
  | arg :: _ => if arg ≠ text "ON" ∧ arg ≠ text "OFF" then some (text "ERR invalid ", arg) else none
  | [] => none

/-- The verbs of `SENSOR`. -/
def sensorVerbs : List String := ["ON", "OFF", "MODE", "SEND", "PWM"]

def repeatedSensor : List Token → Repeated
  | verb :: _ =>
    if sensorVerbs.any (equalFold verb) then none else some (text "ERR invalid ", verb)
  | [] => none

/-- What `SET` and `GET` know. -/
def settings : List Token := [text "ODR", text "ACCEL_FSR", text "GYRO_FSR"]

def repeatedSet : List Token → Repeated
  | [what, arg] =>
    if (unsignedNumber arg).isNone ∨ what ∈ settings then none else some (text "ERR invalid ", what)
  | _ => none

def repeatedGet : List Token → Repeated
  | [what] => if what ∈ settings then none else some (text "ERR invalid ", what)
  | _ => none

def repeatedImuCap : List Token → Repeated
  | sub :: _ =>
    if equalFold sub "STOP" ∨ equalFold sub "START" then none
    else some (text "ERR invalid _IMU_CAP ", sub)
  | [] => none

/-- What the reply to a line repeats, by its tokens. -/
def repeated : List Token → Repeated
  | [] => none
  | cmd :: save =>
    if equalFold cmd "PING" ∨ cmd = text "FUSION" then none
    else if cmd = text "IMU" then repeatedImu save
    else if cmd = text "SENSOR" then repeatedSensor save
    else if cmd = text "SET" then repeatedSet save
    else if cmd = text "GET" then repeatedGet save
    else if equalFold cmd "_IMU_CAP" then repeatedImuCap save
    else some (text "ERR unknown ", cmd)

/-! ## The commands -/

variable (w : World) (link : Link)

theorem isLine_fusionBase (save : List Token) : IsLine (fusionBase w link save) := by
  rw [fusionBase]
  split
  · split
    · decide
    split
    · exact isLine_replyRc _ (by decide) (by decide)
    · exact isLine_replyRc _ (by decide) (by decide)
  · decide

theorem isLine_fusion (save : List Token) : IsLine (fusion w link save) := by
  have hrc (rc : Int32) : IsLine (replyRc rc (text "FUSION")) :=
    isLine_replyRc rc (by decide) (by decide)
  rw [fusion]
  refine isLine_ite (fun _ => isLine_fusionBase w link save.tail) fun _ => ?_
  refine isLine_ite (fun _ => ?_) fun _ => ?_
  · refine isLine_ite (fun _ => ?_) fun _ => ?_
    · decide
    · exact isLine_replyRc _ (by decide) (by decide)
  refine isLine_ite (fun _ => ?_) fun _ => ?_
  · decide
  refine isLine_ite (fun _ => hrc _) fun _ => ?_
  refine isLine_ite (fun _ => hrc _) fun _ => ?_
  refine isLine_ite (fun _ => hrc _) fun _ => ?_
  refine isLine_ite (fun _ => ?_) fun _ => ?_
  · -- `STATUS`
    exact isLine_ite (fun _ => hrc _) fun _ => isLine_status _ _ _
  refine isLine_ite (fun _ => ?_) fun _ => ?_
  · -- `GET`
    refine isLine_ite (fun _ => hrc _) fun _ => ?_
    refine isLine_ite (fun _ => hrc _) fun husable => ?_
    refine isLine_ite (fun _ => hrc _) fun hlen => ?_
    exact Snapshot.isLine_print (not_not.mp husable) _ (Nat.lt_succ_iff.mp (Nat.not_le.mp hlen))
  · decide

theorem isLine_replyIndex (r : Int32 × UInt32) : IsLine (replyIndex r) := by
  rw [replyIndex]
  split
  · exact isLine_errno (-r.1)
  · apply (isLine_repeating (by decide) (newline_not_mem_decimal _)).mpr
    have hlen : (decimal r.2.toNat).length ≤ 10 := by
      apply length_decimal_le (by decide)
      have hlt := r.2.toNat_lt
      omega
    have hwhat : (text "OK ").length = 3 := rfl
    show _ < 64
    omega

theorem isLine_iff_of_none {s : List UInt8} {r : Repeated} (hline : IsLine s) (hr : r = none) :
    IsLine s ↔ r.Fits := by
  rw [hr]
  exact iff_of_true hline trivial

variable {save : List Token}

theorem isLine_processImu (h : ∀ t ∈ save, 10 ∉ t) :
    IsLine (processImu w save) ↔ (repeatedImu save).Fits := by
  cases save with
  | nil => exact isLine_iff_of_none (s := text "ERR invalid IMU\n") (by decide) rfl
  | cons arg save =>
    rw [processImu, repeatedImu]
    split
    · exact isLine_repeating (by decide) (h arg mem_cons_self)
    · apply isLine_iff_of_none _ rfl
      split
      · decide
      · split <;> exact isLine_replyRc _ (by decide) (by decide)

theorem isLine_processSet (h : ∀ t ∈ save, 10 ∉ t) :
    IsLine (processSet w save) ↔ (repeatedSet save).Fits := by
  match save with
  | [what, arg] =>
    rw [processSet, repeatedSet]
    cases unsignedNumber arg with
    | none =>
      exact isLine_iff_of_none (s := text "ERR invalid value\n") (by decide) (if_pos (.inl rfl))
    | some setting =>
      dsimp only
      have hknown (hmem : what ∈ settings) (rc : Int32) :
          IsLine (replyRc rc what) ↔ Repeated.Fits
            (if (some setting).isNone ∨ what ∈ settings then none
              else some (text "ERR invalid ", what)) := by
        apply isLine_iff_of_none _ (if_pos (.inr hmem))
        have hall : ∀ t ∈ settings, 10 ∉ t ∧ t.length ≤ 50 := by decide
        exact isLine_replyRc rc (hall what hmem).1 (hall what hmem).2
      split
      · next heq => exact hknown (by simp [settings, heq]) _
      split
      · next heq => exact hknown (by simp [settings, heq]) _
      split
      · next heq => exact hknown (by simp [settings, heq]) _
      · next hodr haccel hgyro =>
        have hother : ¬ ((some setting).isNone = true ∨ what ∈ settings) := by
          simp [settings, hodr, haccel, hgyro]
        rw [if_neg hother]
        exact isLine_repeating (by decide) (h what mem_cons_self)
  | [] => exact isLine_iff_of_none (s := text "ERR invalid SET\n") (by decide) rfl
  | [_] => exact isLine_iff_of_none (s := text "ERR invalid SET\n") (by decide) rfl
  | _ :: _ :: _ :: _ =>
    exact isLine_iff_of_none (s := text "ERR invalid SET\n") (by decide) rfl

theorem isLine_processGet (h : ∀ t ∈ save, 10 ∉ t) :
    IsLine (processGet w save) ↔ (repeatedGet save).Fits := by
  match save with
  | [what] =>
    rw [processGet, repeatedGet]
    have hknown (hmem : what ∈ settings) (r : Int32 × UInt32) :
        IsLine (replyIndex r) ↔ Repeated.Fits
          (if what ∈ settings then none else some (text "ERR invalid ", what)) :=
      isLine_iff_of_none (isLine_replyIndex r) (if_pos hmem)
    split
    · next heq => exact hknown (by simp [settings, heq]) _
    split
    · next heq => exact hknown (by simp [settings, heq]) _
    split
    · next heq => exact hknown (by simp [settings, heq]) _
    · next hodr haccel hgyro =>
      have hother : what ∉ settings := by simp [settings, hodr, haccel, hgyro]
      rw [if_neg hother]
      exact isLine_repeating (by decide) (h what mem_cons_self)
  | [] => exact isLine_iff_of_none (s := text "ERR invalid GET\n") (by decide) rfl
  | _ :: _ :: _ => exact isLine_iff_of_none (s := text "ERR invalid GET\n") (by decide) rfl

theorem isLine_processImuCap (h : ∀ t ∈ save, 10 ∉ t) :
    IsLine (processImuCap w save) ↔ (repeatedImuCap save).Fits := by
  cases save with
  | nil => exact isLine_iff_of_none (s := text "ERR invalid _IMU_CAP\n") (by decide) rfl
  | cons sub save =>
    rw [processImuCap, repeatedImuCap]
    split
    · next hstop =>
      apply isLine_iff_of_none _ (if_pos (.inl hstop))
      split
      · decide
      · exact isLine_replyRc _ (by decide) (by decide)
    split
    · next hstart =>
      apply isLine_iff_of_none _ (if_pos (.inr hstart))
      dsimp only
      split
      · decide
      · split
        · decide
        · exact isLine_replyRc _ (by decide) (by decide)
    · next hstop hstart =>
      rw [if_neg (not_or.mpr ⟨hstop, hstart⟩)]
      exact isLine_repeating (by decide) (h sub mem_cons_self)

theorem isLine_sensor (h : ∀ t ∈ save, 10 ∉ t) :
    IsLine (sensor w link save) ↔ (repeatedSensor save).Fits := by
  cases save with
  | nil => exact isLine_iff_of_none (s := text "ERR invalid SENSOR\n") (by decide) rfl
  | cons verb save =>
    rw [sensor, repeatedSensor]
    split
    · next hswitch =>
      have hknown : sensorVerbs.any (equalFold verb) = true := by
        rcases hswitch with hon | hoff
        · simp [sensorVerbs, hon]
        · simp [sensorVerbs, hoff]
      apply isLine_iff_of_none _ (if_pos hknown)
      split
      · decide
      · cases equalFold verb "ON" <;> exact isLine_replyRc _ (by decide) (by decide)
    next hswitch =>
    rw [not_or] at hswitch
    split
    · next hother =>
      have hunknown : ¬ sensorVerbs.any (equalFold verb) = true := by
        simp [sensorVerbs, hswitch.1, hswitch.2, hother.1, hother.2.1, hother.2.2]
      rw [if_neg hunknown]
      exact isLine_repeating (by decide) (h verb mem_cons_self)
    · next hverb =>
      have hknown : sensorVerbs.any (equalFold verb) = true := by
        by_contra hunknown
        apply hverb
        simpa [sensorVerbs, hswitch.1, hswitch.2] using hunknown
      apply isLine_iff_of_none _ (if_pos hknown)
      split
      · decide
      dsimp only
      split
      · split
        · split <;> decide
        · exact isLine_replyRc _ (by decide) (by decide)
      split
      · decide
      split
      · split
        · decide
        · exact isLine_replyRc _ (by decide) (by decide)
      · split
        · split <;> decide
        · exact isLine_replyRc _ (by decide) (by decide)

variable {line : List UInt8}

theorem mem_of_mem_splitOnP {p : UInt8 → Bool} {piece : List UInt8}
    (hpiece : piece ∈ line.splitOnP p) {c : UInt8} (hc : c ∈ piece) : c ∈ line := by
  induction line generalizing piece with
  | nil =>
    rw [splitOnP_nil, mem_singleton] at hpiece
    rwa [hpiece] at hc
  | cons b line ih =>
    rw [splitOnP_cons_eq_if_modifyHead] at hpiece
    split at hpiece
    · rcases mem_cons.mp hpiece with rfl | hpiece
      · cases hc
      · exact mem_cons_of_mem b (ih hpiece hc)
    · obtain ⟨first, rest, hsplit⟩ := exists_cons_of_ne_nil (splitOnP_ne_nil p line)
      rw [hsplit] at hpiece ih
      rcases mem_cons.mp hpiece with rfl | hpiece
      · rcases mem_cons.mp hc with rfl | hc
        · exact mem_cons_self
        · exact mem_cons_of_mem b (ih mem_cons_self hc)
      · exact mem_cons_of_mem b (ih (mem_cons_of_mem first hpiece) hc)

theorem newline_not_mem_tokens (h : 10 ∉ line) :
    ∀ t ∈ tokens line, 10 ∉ t := by
  intro t ht hmem
  have hpiece := (mem_filter.mp ht).1
  exact h ((List.takeWhile_prefix _).mem (mem_of_mem_splitOnP hpiece hmem))

theorem tokens_of_process (h : process w link line = none) :
    tokens line = [] := by
  rw [process] at h
  split at h
  · next htokens => exact htokens
  · split_ifs at h

/-- **What one line is answered**: one line, unless it repeats a token that is too long. -/
theorem isLine_process_iff {line reply : List UInt8} (hline : 10 ∉ line)
    (h : process w link line = some reply) :
    IsLine reply ↔ (repeated (tokens line)).Fits := by
  have htokens := newline_not_mem_tokens hline
  rw [process] at h
  cases hsplit : tokens line with
  | nil =>
    rw [hsplit] at h
    cases h
  | cons cmd save =>
    rw [hsplit] at h htokens
    have hsave : ∀ t ∈ save, 10 ∉ t := fun t ht => htokens t (mem_cons_of_mem cmd ht)
    dsimp only at h
    -- the commands in the order of the source; the last case repeats the first token
    rw [repeated]
    split at h
    · next hping =>
      cases h
      apply isLine_iff_of_none _ (if_pos (.inl hping))
      split <;> decide
    next hping =>
    split at h
    · next hfusion =>
      cases h
      exact isLine_iff_of_none (isLine_fusion w link save) (if_pos (.inr hfusion))
    next hfusion =>
    rw [if_neg (not_or.mpr ⟨hping, hfusion⟩)]
    split at h
    · next himu =>
      cases h
      rw [if_pos himu]
      exact isLine_processImu w hsave
    next himu =>
    rw [if_neg himu]
    split at h
    · next hsensor =>
      cases h
      rw [if_pos hsensor]
      exact isLine_sensor w link hsave
    next hsensor =>
    rw [if_neg hsensor]
    split at h
    · next hset =>
      cases h
      rw [if_pos hset]
      exact isLine_processSet w hsave
    next hset =>
    rw [if_neg hset]
    split at h
    · next hget =>
      cases h
      rw [if_pos hget]
      exact isLine_processGet w hsave
    next hget =>
    rw [if_neg hget]
    split at h
    · next hcap =>
      cases h
      rw [if_pos hcap]
      exact isLine_processImuCap w hsave
    · next hcap =>
      cases h
      rw [if_neg hcap]
      exact isLine_repeating (by decide) (htokens cmd mem_cons_self)

/-! ## Runs -/

def Handled.Plain : Handled → Prop
  | .overflow => True
  | .line bytes => 10 ∉ bytes

theorem Stream.plain_feedByte {stream : Stream} (h : 10 ∉ stream.line) (c : UInt8) :
    10 ∉ (stream.feedByte c).1.line ∧ ∀ x ∈ (stream.feedByte c).2, x.Plain := by
  rw [feedByte]
  split
  · refine ⟨not_mem_nil, ?_⟩
    intro x hx
    split at hx
    · rw [mem_singleton.mp hx]
      trivial
    split at hx
    · rw [mem_singleton.mp hx]
      exact h
    · cases hx
  · next hother =>
    split
    · refine ⟨?_, by simp⟩
      show 10 ∉ stream.line ++ [c]
      rw [mem_append, mem_singleton, not_or]
      exact ⟨h, fun heq => hother (.inr heq.symm)⟩
    · exact ⟨h, by simp⟩

theorem Stream.plain_feed {stream : Stream} (h : 10 ∉ stream.line) (data : List UInt8) :
    10 ∉ (stream.feed data).1.line ∧ ∀ x ∈ (stream.feed data).2, x.Plain := by
  induction data generalizing stream with
  | nil => exact ⟨h, nofun⟩
  | cons c data ih =>
    obtain ⟨hline, hfirst⟩ := plain_feedByte h c
    obtain ⟨hlast, hrest⟩ := ih hline
    refine ⟨hlast, ?_⟩
    exact forall_mem_append.mpr ⟨hfirst, hrest⟩

/-- No newline waits in a stream, and none was handed on. -/
structure PlainRun (events : List (Link × Handled)) (streams : Streams) : Prop where
  waiting : ∀ link, 10 ∉ (streams link).line
  handed : ∀ e ∈ events, e.2.Plain

theorem PlainRun.step {events : List (Link × Handled)} {streams : Streams}
    (h : PlainRun events streams) (call : Call) :
    PlainRun (events ++ (feedLink streams call).2) (feedLink streams call).1 := by
  rw [feedLink]
  split
  · next target data _ _ =>
    obtain ⟨hline, hevents⟩ := Stream.plain_feed (h.waiting target) data
    constructor
    · intro link
      dsimp only
      by_cases hlink : link = target
      · rw [hlink, Function.update_self]
        exact hline
      · rw [Function.update_of_ne hlink]
        exact h.waiting link
    · refine forall_mem_append.mpr ⟨h.handed, ?_⟩
      intro e he
      obtain ⟨x, hx, rfl⟩ := mem_map.mp he
      exact hevents x hx
  · rw [append_nil]
    exact h

theorem plainRun (calls : List Call) :
    PlainRun (machine.history Streams.init calls) (machine.run Streams.init calls) := by
  have hstep : ∀ (events : List (Link × Handled)) (streams : Streams) (call : Call),
      PlainRun events streams →
        PlainRun (events ++ (machine.step streams call).2) (machine.step streams call).1 :=
    fun _ _ call h => h.step call
  have hinit : PlainRun [] Streams.init := ⟨fun _ => not_mem_nil, nofun⟩
  exact Machine.history_invariant hstep hinit calls

/-- The strings handed to the transmitter in a run, each with its link; the `k`-th line meets
`worlds k`. -/
def replies (worlds : Nat → World) (calls : List Call) : List (Link × List UInt8) :=
  (machine.history Streams.init calls).zipIdx.filterMap fun (e, k) =>
    (e.2.reply (worlds k) e.1).map (Prod.mk e.1)

/-- What is repeated of what is handed on. -/
def Handled.repeated (w : World) : Handled → Repeated
  | .overflow => none
  | .line bytes => if w.taken then none else Neutral.repeated (tokens bytes)

theorem isLine_reply_iff {x : Handled} (hx : x.Plain) :
    (∀ reply, x.reply w link = some reply → IsLine reply) ↔ (x.repeated w).Fits := by
  cases x with
  | overflow =>
    refine iff_of_true ?_ trivial
    intro reply h
    cases h
    decide
  | line bytes =>
    rw [Handled.repeated]
    cases htaken : w.taken with
    | true =>
      refine iff_of_true ?_ trivial
      intro reply h
      rw [Handled.reply, htaken] at h
      cases h
    | false =>
      have hreply : (Handled.line bytes).reply w link = process w link bytes := by
        rw [Handled.reply, htaken]
        rfl
      rw [hreply, if_neg Bool.false_ne_true]
      cases hprocess : process w link bytes with
      | none =>
        -- there is no token
        rw [tokens_of_process w link hprocess]
        exact iff_of_true (by simp) trivial
      | some reply =>
        rw [← isLine_process_iff w link hx hprocess]
        constructor
        · intro h
          exact h reply rfl
        · intro h other heq
          rwa [← Option.some.inj heq]

/-- **Every reply is one line, in the runs in which no reply repeats too long a token**, and in no
others. -/
theorem replies_isLine_iff (worlds : Nat → World) (calls : List Call) :
    (∀ r ∈ replies worlds calls, IsLine r.2) ↔
      ∀ k link bytes, (machine.history Streams.init calls)[k]? = some (link, .line bytes) →
        (worlds k).taken = false → (repeated (tokens bytes)).Fits := by
  have hplain := (plainRun calls).handed
  constructor
  · intro h k link bytes hk htaken
    have hmem := mem_of_getElem? hk
    have hfits := (isLine_reply_iff (worlds k) link (hplain _ hmem)).mp fun reply hreply => by
      apply h (link, reply)
      rw [replies, mem_filterMap]
      refine ⟨((link, .line bytes), k), mem_zipIdx_iff_getElem?.mpr hk, ?_⟩
      exact congrArg (Option.map (Prod.mk link)) hreply
    rwa [Handled.repeated, if_neg (by rw [htaken]; decide)] at hfits
  · intro h r hr
    rw [replies, mem_filterMap] at hr
    obtain ⟨⟨⟨link, x⟩, k⟩, hmem, hr⟩ := hr
    have hk := mem_zipIdx_iff_getElem?.mp hmem
    obtain ⟨reply, hreply, rfl⟩ := Option.map_eq_some_iff.mp hr
    apply (isLine_reply_iff (worlds k) link (hplain _ (mem_of_getElem? hk))).mpr _ reply hreply
    cases x with
    | overflow => trivial
    | line bytes =>
      rw [Handled.repeated]
      cases htaken : (worlds k).taken with
      | true => trivial
      | false => exact h k link bytes hk htaken

/-! ## How `printf` writes a number -/

/-- The nearest integer, of two the even one. -/
def nearestEven (num den : Nat) : Nat :=
  if 2 * (num % den) + num / den % 2 ≤ den then num / den else num / den + 1

/-- `n` with a point before its last `k` digits, and without the zeros at the end. -/
def point (n k : Nat) : List UInt8 :=
  let places := (((List.range k).map fun i => digit (n / 10 ^ i % 10)).dropWhile (· == 48)).reverse
  decimal (n / 10 ^ k) ++ if places = [] then [] else 46 :: places

/-- `m * 2 ^ (e - 150)`, in six digits from the one that stands for `10 ^ x` on. -/
def sixDigits (m e : Nat) (x : Int) : Nat :=
  nearestEven (m * 2 ^ e * 10 ^ (5 - x).toNat) (2 ^ 150 * 10 ^ (x - 5).toNat)

/-- Six digits, the first of which stands for `10 ^ x`. -/
def scaled (n : Nat) (x : Int) : List UInt8 :=
  if -4 ≤ x ∧ x < 6 then point n (5 - x).toNat
  else
    point n 5 ++ (if x < 0 then text "e-" else text "e+") ++
      (if x.natAbs < 10 then [48] else []) ++ decimal x.natAbs

/-- `%.6g` of `m * 2 ^ (e - 150)`. -/
def general (m e : Nat) : List UInt8 :=
  -- The least exponent at which six digits are enough.
  let x : Int :=
    ((List.range 85).find? fun (i : Nat) => sixDigits m e (i - 45) < 10 ^ 6).getD 0 - 45
  if m = 0 then [48] else scaled (sixDigits m e x) x

/-- `%.6g`. Without a leading bit it is a subnormal number. -/
def g6 (x : Float32Bits) : List UInt8 :=
  let e := (x >>> 23 &&& 0xff).toNat
  (if x >>> 31 = 0 then [] else [45]) ++
    general ((x &&& 0x7fffff).toNat + if e = 0 then 0 else 2 ^ 23) (max e 1)

/-- Digits, signs, a point and an exponent. -/
def Plain (s : List UInt8) : Prop := ∀ b ∈ s, IsDigit b ∨ b ∈ text "+-.e"

instance (s : List UInt8) : Decidable (Plain s) := List.decidableBAll _ s

theorem Plain.append {s t : List UInt8} (hs : Plain s) (ht : Plain t) : Plain (s ++ t) :=
  forall_mem_append.mpr ⟨hs, ht⟩

theorem plain_decimal (n : Nat) : Plain (decimal n) := fun _ hb => .inl (isDigit_of_mem_decimal hb)

theorem plain_point (n k : Nat) : Plain (point n k) := by
  refine (plain_decimal _).append ?_
  split
  · exact fun _ hb => nomatch hb
  · refine forall_mem_cons.mpr ⟨by decide, fun b hb => .inl ?_⟩
    have hplace := (dropWhile_sublist _).mem (mem_reverse.mp hb)
    obtain ⟨i, -, rfl⟩ := mem_map.mp hplace
    exact isDigit_digit (Nat.mod_lt _ (by decide))

theorem plain_scaled (n : Nat) (x : Int) : Plain (scaled n x) := by
  rw [scaled]
  split
  · exact plain_point _ _
  · refine (((plain_point _ _).append ?_).append ?_).append (plain_decimal _)
    · split <;> decide
    · split <;> decide

theorem plain_general (m e : Nat) : Plain (general m e) := by
  rw [general]
  split
  · decide
  · exact plain_scaled _ _

theorem plain_g6 (x : Float32Bits) : Plain (g6 x) := by
  have hsign : Plain (if x >>> 31 = 0 then [] else [45]) := by
    split <;> decide
  exact hsign.append (plain_general _ _)

/-! ## A token that is too long -/

/-- No operations. -/
def bareWorld : World := ⟨none, ⟨g6, fun x _ => plain_g6 x⟩, false⟩

/-- A line of one token of 51 bytes, which is no command. -/
def longLine : List UInt8 := List.replicate 51 65 ++ [10]

theorem not_replies_isLine : ¬ ∀ (worlds : Nat → World) (calls : List Call),
    ∀ r ∈ replies worlds calls, IsLine r.2 := by
  intro h
  have hreply := h (fun _ => bareWorld) [⟨some .classic, some longLine⟩]
    (.classic, text "ERR unknown " ++ List.replicate 51 65) (by decide +kernel)
  exact absurd hreply (by decide)

end Brickwright.Btsensor.Neutral
