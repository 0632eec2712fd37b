import Brickwright.Btcap.LifeCycle
import Brickwright.Capture.Basic

/-!
# What the library counts as sent

Between two system calls the library only changes its handle. The bytes it takes to be in the
channel are those of the head, once that is through, of every `capture_write` that has returned 0,
and of the piece that it is pushing (`sent`). A piece that fails half-way is forgotten; how many
bytes have been forgotten is what the channel has accepted beyond that (`Tally`).
-/

namespace Brickwright.Capture

open Btcap
open List

/-- The part of the history that the channel has made. -/
def chan (h : List Entry) : Btcap.History := h.filterMap fun
  | .channel i n => some (i, n)
  | .returned .. => none

/-- The data of every `capture_write` that has returned 0. -/
def payload (h : List Entry) : List UInt8 := h.flatMap fun
  | .returned (.write data) rc => if rc = 0 then data.contents else []
  | _ => []

/-- What the channel has accepted from a thread. -/
def pushed (me : Nat) (h : Btcap.History) : List UInt8 :=
  h.flatMap fun n => if n.1 = me then n.2.bytesIn else []

namespace State

variable (s : State)

def pieceBytes (piece : Piece) (data : Buffer) : List UInt8 :=
  match piece with
  | .header => s.handle.staged.fileHeader.bytes
  | .descs => s.handle.staged.descBytes
  | .data => data.contents

/-- What the channel has taken of the head, or of the payload, that is being pushed. -/
def partly : List UInt8 :=
  match s.point with
  | .pushes piece remaining data =>
    (if piece = .descs then s.handle.staged.fileHeader.bytes else []) ++
      (s.pieceBytes piece data).take ((s.pieceBytes piece data).length - remaining.length)
  | _ => []

def settled (h : List Entry) : List UInt8 :=
  if s.handle.headerSent then s.handle.staged.head ++ payload h else []

def sent (h : List Entry) : List UInt8 := s.settled h ++ s.partly

def Fits : Prop :=
  match s.point with
  | .start | .reads _ | .opens | .registers | .fails _ =>
    s.handle.fd = none ∧ s.handle.headerSent = false
  | .idle => True
  | .pushes piece remaining data =>
    s.handle.fd.isSome ∧ (s.handle.headerSent = true ↔ piece = .data) ∧
      remaining <:+ s.pieceBytes piece data
  | .finalises => s.handle.fd.isSome ∧ s.handle.headerSent = true
  | .queries | .polls | .aborts => s.handle.fd.isSome
  | .closes op _ => s.handle.fd.isSome ∧ (op = .deinit ∨ op = .abort)

end State

/-- `lost` bytes have been accepted that are no longer counted; `inCall` are those of the `write`
that is going on. -/
def Tally (lost : Nat) (pushed sent inCall : List UInt8) : Prop :=
  ∃ xs, pushed = xs ++ inCall ∧ (lost = 0 → xs = sent) ∧ xs.length = sent.length + lost

theorem Tally.nil : Tally 0 [] [] [] := ⟨[], rfl, fun _ => rfl, rfl⟩

theorem Tally.accept {lost : Nat} {pushed sent inCall : List UInt8}
    (h : Tally lost pushed sent inCall)
    (bytes : List UInt8) : Tally lost (pushed ++ bytes) sent (inCall ++ bytes) := by
  obtain ⟨xs, rfl, heq, hlen⟩ := h
  exact ⟨xs, append_assoc .., heq, hlen⟩

theorem Tally.count {lost : Nat} {pushed sent inCall : List UInt8}
    (h : Tally lost pushed sent inCall) : Tally lost pushed (sent ++ inCall) [] := by
  obtain ⟨xs, rfl, heq, hlen⟩ := h
  refine ⟨xs ++ inCall, (append_nil _).symm, fun hzero => by rw [heq hzero], ?_⟩
  rw [length_append, length_append, hlen]
  omega

theorem Tally.forget {lost : Nat} {pushed settled partly : List UInt8}
    (h : Tally lost pushed (settled ++ partly) []) :
    Tally (lost + partly.length) pushed settled [] := by
  obtain ⟨xs, rfl, heq, hlen⟩ := h
  rw [length_append] at hlen
  refine ⟨xs, rfl, fun hzero => ?_, by omega⟩
  have hnil : partly = [] := eq_nil_of_length_eq_zero (by omega)
  rw [heq (by omega), hnil, append_nil]

section Histories

variable {h : List Entry} {me i : Nat} {notes : List Note}

@[simp] theorem chan_append (h h' : List Entry) : chan (h ++ h') = chan h ++ chan h' :=
  filterMap_append

@[simp] theorem chan_channel (i : Nat) (notes : List Note) :
    chan (notes.map (.channel i)) = notes.map (Prod.mk i) := by
  induction notes with
  | nil => rfl
  | cons n notes ih => exact congrArg ((i, n) :: ·) ih

@[simp] theorem payload_append (h h' : List Entry) :
    payload (h ++ h') = payload h ++ payload h' := flatMap_append

@[simp] theorem payload_channel (i : Nat) (notes : List Note) :
    payload (notes.map (.channel i)) = [] := by
  induction notes with
  | nil => rfl
  | cons n notes ih => exact ih

@[simp] theorem pushed_append (me : Nat) (h h' : Btcap.History) :
    pushed me (h ++ h') = pushed me h ++ pushed me h' := flatMap_append

end Histories

/-! ## Turns of the task -/

/-- What the library does between two system calls leaves the channel alone; `total` is what it
counts as sent then. -/
structure Turned (h : List Entry) (s : State) (r : State × List Entry) (total : List UInt8) :
    Prop where
  channel : r.1.channel = s.channel
  quiet : chan r.2 = []
  fits : r.1.Fits
  unsent : r.1.handle.headerSent = false → payload (h ++ r.2) = []
  sent : r.1.sent (h ++ r.2) = total

section Turns

variable {h : List Entry} {s : State} {data : Buffer} {op : Op} {rc : Int} {point : Point}
  {piece : Piece} {remaining : List UInt8}

/-- A return that is not the end of a payload. -/
def Plain (op : Op) (rc : Int) : Prop := ∀ data, op = .write data → rc = 0 → data.contents = []

theorem payload_returned (hplain : Plain op rc) : payload [.returned op rc] = [] := by
  cases op with
  | write data =>
    by_cases hrc : rc = 0
    · simp [payload, hplain data rfl hrc]
    · simp [payload, hrc]
  | init | deinit | abort => rfl

variable (hunsent : s.handle.headerSent = false → payload h = [])

include hunsent

theorem turned_goes (hfits : State.Fits { s with point := point }) :
    Turned h s (s.goes point) (s.settled h ++ State.partly { s with point := point }) where
  channel := rfl
  quiet := rfl
  fits := hfits
  unsent hheader := by
    rw [payload_append]
    exact append_eq_nil_iff.mpr ⟨hunsent hheader, rfl⟩
  sent := by
    rw [State.goes, append_nil]
    rfl

theorem turned_returns (hplain : Plain op rc) : Turned h s (s.returns op rc) (s.settled h) where
  channel := rfl
  quiet := rfl
  fits := trivial
  unsent hheader := by
    rw [payload_append]
    exact append_eq_nil_iff.mpr ⟨hunsent hheader, payload_returned hplain⟩
  sent := by
    have hpayload := payload_returned hplain
    show (if s.handle.headerSent then s.handle.staged.head ++ payload (h ++ [.returned op rc])
      else []) ++ [] = s.settled h
    rw [payload_append, hpayload, append_nil, append_nil]
    rfl

theorem turned_goes_plain (hfits : State.Fits { s with point := point })
    (hpartly : State.partly { s with point := point } = []) :
    Turned h s (s.goes point) (s.settled h) := by
  have hturn := turned_goes hunsent hfits
  rwa [hpartly, append_nil] at hturn

theorem turned_writePayload (hfd : s.handle.fd.isSome) (hheader : s.handle.headerSent = true) :
    Turned h s (s.writePayload data) (s.settled h) := by
  unfold State.writePayload
  split
  · next hbytes =>
    apply turned_returns hunsent
    rintro _ ⟨⟩ -
    cases data with
    | null bytes => rfl
    | memory contents => exact eq_nil_of_length_eq_zero hbytes
  · cases data with
    | null bytes =>
      apply turned_returns hunsent
      rintro _ ⟨⟩ hrc
      cases hrc
    | memory contents =>
      apply turned_goes_plain hunsent
      · exact ⟨hfd, iff_of_true hheader rfl, suffix_rfl⟩
      · simp [State.partly, State.pieceBytes, Buffer.contents]

theorem turned_captureWrite : Turned h s (s.captureWrite data) (s.settled h) := by
  unfold State.captureWrite
  split
  · apply turned_returns hunsent
    rintro _ ⟨⟩ hrc
    cases hrc
  · next hfd =>
    have hopen : s.handle.fd.isSome := by rw [hfd]; rfl
    split
    · next hheader =>
      apply turned_goes_plain hunsent
      · refine ⟨hopen, ?_, suffix_rfl⟩
        exact iff_of_false hheader (by decide)
      · simp [State.partly, State.pieceBytes]
    · next hheader => exact turned_writePayload hunsent hopen (not_not.mp hheader)

theorem turned_captureDeinit : Turned h s s.captureDeinit (s.settled h) := by
  unfold State.captureDeinit
  split
  · exact turned_returns hunsent nofun
  · next hfd =>
    have hopen : s.handle.fd.isSome := by rw [hfd]; rfl
    split
    · next hheader => exact turned_goes_plain hunsent ⟨hopen, hheader⟩ rfl
    · exact turned_goes_plain hunsent hopen rfl

theorem turned_captureAbort : Turned h s s.captureAbort (s.settled h) := by
  unfold State.captureAbort
  split
  · exact turned_returns hunsent nofun
  · next hfd =>
    have hopen : s.handle.fd.isSome := by rw [hfd]; rfl
    exact turned_goes_plain hunsent hopen rfl

theorem turned_wrote_of_le (hrc : rc ≤ 0) :
    Turned h s (s.wrote piece remaining data rc) (s.settled h) := by
  have herror : ∀ rc' : Int, rc' < 0 → Plain (.write data) rc' := by
    intro rc' hneg _ _ hzero
    omega
  unfold State.wrote
  rw [if_neg (Int.not_lt.mpr hrc)]
  split
  · exact turned_returns hunsent (herror _ (by decide))
  · split
    · exact turned_returns hunsent (herror _ (by decide))
    · exact turned_returns hunsent (herror _ (by omega))

theorem turned_pieceDone (hfd : s.handle.fd.isSome)
    (hheader : s.handle.headerSent = true ↔ piece = .data) :
    Turned h s (s.pieceDone piece data) (s.settled h ++
      ((if piece = .descs then s.handle.staged.fileHeader.bytes else []) ++
        s.pieceBytes piece data)) := by
  cases piece with
  | header =>
    have hnot : ¬s.handle.headerSent = true := fun h => absurd (hheader.mp h) (by decide)
    have hturn : Turned h s (s.goes (.pushes .descs s.handle.staged.descBytes data)) _ :=
      turned_goes hunsent ⟨hfd, iff_of_false hnot (by decide), suffix_rfl⟩
    simpa [State.pieceDone, State.partly, State.pieceBytes] using hturn
  | descs =>
    have hnot : s.handle.headerSent = false :=
      Bool.eq_false_of_not_eq_true fun h => absurd (hheader.mp h) (by decide)
    have hnil := hunsent hnot
    have hturn : Turned h s.headSent (s.headSent.writePayload data) _ :=
      turned_writePayload (by rintro ⟨⟩) hfd rfl
    refine ⟨hturn.channel, hturn.quiet, hturn.fits, hturn.unsent, hturn.sent.trans ?_⟩
    show s.handle.staged.head ++ payload h = (if s.handle.headerSent then _ else []) ++
      (s.handle.staged.fileHeader.bytes ++ s.handle.staged.descBytes)
    rw [hnil, hnot, append_nil]
    rfl
  | data =>
    have hsent := hheader.mpr rfl
    refine ⟨rfl, rfl, trivial, ?_, ?_⟩
    · intro hnot
      exact absurd (hsent.symm.trans hnot) (by decide)
    · simp [State.pieceDone, State.returns, State.sent, State.settled, State.partly, hsent, payload,
        State.pieceBytes]

theorem turned_wrote_of_pos (hpoint : s.point = .pushes piece remaining data) (hfits : s.Fits)
    (hpos : 0 < rc) :
    Turned h s (s.wrote piece remaining data rc) (s.sent h ++ remaining.take rc.toNat) := by
  unfold State.Fits at hfits
  rw [hpoint] at hfits
  obtain ⟨hfd, hheader, done, hdone⟩ := hfits
  have htake : (s.pieceBytes piece data).take
      ((s.pieceBytes piece data).length - remaining.length) = done := by
    rw [← hdone, length_append, Nat.add_sub_cancel, take_left]
  have hsent : s.sent h = s.settled h ++
      ((if piece = .descs then s.handle.staged.fileHeader.bytes else []) ++ done) := by
    rw [State.sent, State.partly, hpoint]
    dsimp only
    rw [htake]
  rw [hsent, append_assoc, append_assoc]
  unfold State.wrote
  rw [if_pos hpos]
  dsimp only
  split
  · next hmore =>
    have hsplit : s.pieceBytes piece data =
        (done ++ remaining.take rc.toNat) ++ remaining.drop rc.toNat := by
      rw [append_assoc, take_append_drop, hdone]
    have hturn : Turned h s (s.goes (.pushes piece (remaining.drop rc.toNat) data)) _ :=
      turned_goes hunsent ⟨hfd, hheader, _, hsplit.symm⟩
    have htake' : (s.pieceBytes piece data).take
        ((s.pieceBytes piece data).length - (remaining.drop rc.toNat).length) =
          done ++ remaining.take rc.toNat := by
      conv_lhs => rw [hsplit]
      rw [length_append, Nat.add_sub_cancel, take_left]
    have hpartly : State.partly { s with point := .pushes piece (remaining.drop rc.toNat) data } =
        (if piece = .descs then s.handle.staged.fileHeader.bytes else []) ++
          (done ++ remaining.take rc.toNat) := by
      rw [← htake']
      rfl
    rwa [hpartly] at hturn
  · next hover =>
    have hall : remaining.take rc.toNat = remaining := by
      rw [length_drop] at hover
      exact take_of_length_le (by omega)
    rw [hall, hdone]
    exact turned_pieceDone hunsent hfd hheader

end Turns

/-! ## Before and after the announcement -/

/-- `capture_init` is over. -/
def Point.Late : Point → Prop
  | .start | .reads _ | .opens | .registers | .fails _ => False
  | _ => True

/-- And `capture_deinit` is not about to return 0. -/
def Point.On : Point → Prop
  | .start | .reads _ | .opens | .registers | .fails _ => False
  | .closes op rc => op = .deinit → rc ≠ 0
  | _ => True

/-- A turn behind the announcement: what has been announced and the descriptor stay, and
`capture_deinit` is not about to return 0. -/
structure Later (s : State) (r : State × List Entry) : Prop where
  channel : r.1.channel = s.channel
  on : r.1.point.On
  staged : r.1.handle.staged = s.handle.staged
  told : .returned .init 0 ∉ r.2
  fd : r.1.handle.fd = s.handle.fd
  header : r.1.handle.headerSent = false → s.handle.headerSent = false
  holds : r.1.holds = true → s.holds = true

section Later

variable {s : State} {data : Buffer} {op : Op} {rc : Int} {point : Point} {piece : Piece}
  {remaining : List UInt8}

theorem holds_of_fd (h : s.handle.fd.isSome) : s.holds = true := by
  unfold State.holds
  split
  · rfl
  · rfl
  · exact h

theorem Point.On.late (h : point.On) : point.Late := by
  cases point with
  | start | reads descs | opens | registers | fails rc => exact h
  | _ => trivial

theorem later_goes (hon : point.On) (hopen : s.handle.fd.isSome) : Later s (s.goes point) where
  channel := rfl
  on := hon
  staged := rfl
  told := nofun
  fd := rfl
  header := id
  holds _ := holds_of_fd hopen

theorem later_returns (hop : op = .init → rc ≠ 0) : Later s (s.returns op rc) where
  channel := rfl
  on := trivial
  staged := rfl
  told h := by
    obtain ⟨hop', hrc⟩ := Entry.returned.inj (mem_singleton.mp h)
    exact hop hop'.symm hrc.symm
  fd := rfl
  header := id
  holds h := holds_of_fd h

theorem later_writePayload (hopen : s.handle.fd.isSome) : Later s (s.writePayload data) := by
  unfold State.writePayload
  split
  · exact later_returns nofun
  · cases data with
    | null bytes => exact later_returns nofun
    | memory contents => exact later_goes trivial hopen

theorem later_captureWrite : Later s (s.captureWrite data) := by
  unfold State.captureWrite
  split
  · exact later_returns nofun
  · next hfd =>
    have hopen : s.handle.fd.isSome := by rw [hfd]; rfl
    split
    · exact later_goes trivial hopen
    · exact later_writePayload hopen

theorem later_captureDeinit : Later s s.captureDeinit := by
  unfold State.captureDeinit
  split
  · exact later_returns nofun
  · next hfd =>
    have hopen : s.handle.fd.isSome := by rw [hfd]; rfl
    split
    · exact later_goes trivial hopen
    · exact later_goes trivial hopen

theorem later_captureAbort : Later s s.captureAbort := by
  unfold State.captureAbort
  split
  · exact later_returns nofun
  · next hfd =>
    have hopen : s.handle.fd.isSome := by rw [hfd]; rfl
    exact later_goes trivial hopen

theorem later_pieceDone (hopen : s.handle.fd.isSome) : Later s (s.pieceDone piece data) := by
  cases piece with
  | header => exact later_goes trivial hopen
  | descs =>
    have hlater : Later s.headSent (s.headSent.writePayload data) := later_writePayload hopen
    refine ⟨hlater.channel, hlater.on, hlater.staged, hlater.told, hlater.fd, ?_,
      fun _ => holds_of_fd hopen⟩
    intro h
    cases hlater.header h
  | data => exact ⟨rfl, trivial, rfl, nofun, rfl, id, fun _ => holds_of_fd hopen⟩

theorem later_wrote (hopen : s.handle.fd.isSome) : Later s (s.wrote piece remaining data rc) := by
  unfold State.wrote
  split
  · dsimp only
    split
    · exact later_goes trivial hopen
    · exact later_pieceDone hopen
  · split
    · exact later_returns nofun
    · split
      · exact later_returns nofun
      · exact later_returns nofun

end Later

/-!
## The system calls of the task

What a section of a thread means for the bytes that the channel has accepted from it, and for the
session that it has registered.
-/

open Btcap.Chardev

/-! ### Bytes -/

def Booked (lost me : Nat) (h : Btcap.History) (sent : List UInt8) : Prop :=
  Tally lost (pushed me h) sent (acceptedBy me h)

section Bytes

variable {h : Btcap.History} {me i lost : Nat} {notes : List Note} {call call' : Option Call}
  {sent outs : List UInt8}

theorem Booked.plain (hb : Booked lost me h sent)
    (hplain : ∀ n ∈ notes, i = me → n.ofCall = false) :
    Booked lost me (h ++ notes.map (Prod.mk i)) sent := by
  have hnil : pushed me (notes.map (Prod.mk i)) = [] := by
    rw [pushed, flatMap_eq_nil_iff]
    intro n hn
    obtain ⟨n, hmem, rfl⟩ := mem_map.mp hn
    split
    · next hi => exact (n.plain_of_ofCall (hplain n hmem hi)).2.1
    · rfl
  rw [Booked, pushed_append, hnil, append_nil, (by_append h notes hplain).1]
  exact hb

/-- **A call of the task goes on, or it ends**: a write returns what has been taken of its data, or
an error. -/
theorem Booked.progress (hb : Booked lost me h sent) (hp : Progress call notes call')
    (hmoved : Moved call (acceptedBy me h) outs) :
    (∀ data rc, Note.wrote data rc ∉ notes) ∧ Booked lost me (h ++ notes.map (Prod.mk me)) sent ∨
    ∃ data rc, notes = [.wrote data rc] ∧ call' = none ∧
      acceptedBy me (h ++ notes.map (Prod.mk me)) = [] ∧
      (rc ≤ 0 ∧ Tally lost (pushed me (h ++ notes.map (Prod.mk me))) sent [] ∨
        0 < rc ∧ (∃ written, call = some (.write data written)) ∧
          Tally lost (pushed me (h ++ notes.map (Prod.mk me))) sent (data.take rc.toNat)) := by
  cases hp with
  | none hplain =>
    refine .inl ⟨fun data rc hmem => ?_, hb.plain fun n hn _ => hplain n hn⟩
    cases hplain _ hmem
  | write data | read buflen => exact .inl ⟨nofun, by rwa [map_nil, append_nil]⟩
  | @accepts data written count hcount =>
    refine .inl ⟨by simp, ?_⟩
    have hin := acceptedBy_concat (i := me) (h := h) (.accepts ((data.drop written).take count))
    rw [map_singleton, Booked, hin, pushed_append]
    simpa [pushed, Note.bytesIn, Note.ends] using hb.accept _
  | @delivers buflen got bytes hbytes =>
    refine .inl ⟨by simp, ?_⟩
    have hin := acceptedBy_concat (i := me) (h := h) (.delivers bytes)
    rw [map_singleton, Booked, hin, pushed_append]
    simpa [pushed, Note.bytesIn, Note.ends, Booked] using hb
  | @wrote data written rc hrc =>
    have hin := acceptedBy_concat (i := me) (h := h) (.wrote data rc)
    have hpushed : pushed me (h ++ [.wrote data rc].map (Prod.mk me)) = pushed me h := by
      simp [pushed, Note.bytesIn]
    obtain ⟨hdata, hle, -⟩ := hmoved
    rw [Booked, hdata] at hb
    refine .inr ⟨data, rc, rfl, rfl, hin, ?_⟩
    rw [hpushed]
    rcases hrc with rfl | ⟨hneg, rfl⟩
    · rcases Nat.eq_zero_or_pos written with rfl | hpos
      · exact .inl ⟨Int.le_refl 0, hb⟩
      · exact .inr ⟨Int.natCast_pos.mpr hpos, ⟨written, rfl⟩, hb⟩
    · exact .inl ⟨Int.le_of_lt hneg, hb⟩
  | @got buflen got rc hrc =>
    have hin := acceptedBy_concat (i := me) (h := h) (.got buflen got rc)
    refine .inl ⟨by simp, ?_⟩
    rw [Booked, hmoved.1] at hb
    rw [map_singleton, Booked, hin, pushed_append]
    simpa [pushed, Note.bytesIn, Note.ends] using hb
  | @refused data rc hrc =>
    have hin := acceptedBy_concat (i := me) (h := h) (.wrote data rc)
    refine .inr ⟨data, rc, rfl, rfl, hin, .inl ⟨hrc, ?_⟩⟩
    rw [Booked, hmoved.1] at hb
    simpa [pushed, Note.bytesIn] using hb
  | @ended buflen =>
    have hin := acceptedBy_concat (i := me) (h := h) (.got buflen [] 0)
    refine .inl ⟨by simp, ?_⟩
    rw [Booked, hmoved.1] at hb
    rw [map_singleton, Booked, hin, pushed_append]
    simpa [pushed, Note.bytesIn, Note.ends] using hb

end Bytes

/-! ### Calls -/

section Calls

variable {s : Chardev} {point : Btcap.Point}

theorem call_eq_none : point.call = none ↔ point = .ready := by
  cases point <;> simp [Btcap.Point.call]

theorem call_of_write (s : Chardev) (data : List UInt8) (nonblock : Bool) :
    (body s .ready (.write data nonblock)).2.2.call = none ∨
    (body s .ready (.write data nonblock)).2.2.call = some (.write data 0) := by
  unfold body
  split
  · exact .inl rfl
  · split
    · exact .inl rfl
    · split
      · exact .inl rfl
      · unfold Chardev.write
        split
        · exact .inl rfl
        · exact .inr rfl

/-- A call of the control, of `open` or of `close` is over at once. -/
theorem body_control {input : Btcap.Input}
    (h : (∃ wantWrite wantRead, input = .openFile wantWrite wantRead) ∨
      (∃ fd picks, input = .closeFile fd picks) ∨ ∃ fd cmd picks, input = .ioctl fd cmd picks) :
    (body s .ready input).2.2 = .ready ∧ ∀ n ∈ (body s .ready input).2.1, n.ofCall = false := by
  rcases h with ⟨wantWrite, wantRead, rfl⟩ | ⟨fd, picks, rfl⟩ | ⟨fd, cmd, picks, rfl⟩
  · unfold body
    split
    · exact ⟨rfl, nofun⟩
    · exact ⟨rfl, by simp [Note.ofCall]⟩
  · unfold body
    split
    · exact ⟨rfl, nofun⟩
    · exact ⟨rfl, by simp [Note.ofCall]⟩
  · unfold body
    split
    · exact ⟨rfl, nofun⟩
    · exact ⟨rfl, ioctl_plain s fd cmd picks⟩

end Calls

/-! ### Sessions -/

/-- An input with which the task, and it alone, takes its session or its descriptor down. -/
def Ends : Btcap.Input → Prop
  | .closeFile .writer _ | .ioctl .writer (.registerSession _) _
  | .ioctl .writer .finalizeSession _ => True
  | _ => False

/-- The session of an open writer is not over. -/
structure Underway (s : Chardev) : Prop where
  writerOpen : s.writerOpen = true
  busy : s.state ≠ .idle
  going : s.writerDone = false

section Sessions

variable {s s' : Chardev} {point : Btcap.Point} {input : Btcap.Input} {a : Act}

theorem Underway.of_core (h : Underway s) (hcore : s'.core = s.core) : Underway s' where
  writerOpen := (eq_of_core Chardev.writerOpen (fun _ => rfl) hcore).trans h.writerOpen
  busy := by
    rw [eq_of_core state (fun _ => rfl) hcore]
    exact h.busy
  going := (eq_of_core writerDone (fun _ => rfl) hcore).trans h.going

theorem Underway.closed_reader (h : Underway s) : Underway (s.closed .reader) := by
  have hside : Underway (s.closeSide .reader) := by
    show Underway s.closeReader
    unfold closeReader
    rw [if_neg (by simp [h.writerOpen]), if_neg (by simp [h.going]),
      if_neg (by simp [h.writerOpen])]
    split
    · exact ⟨h.writerOpen, nofun, h.going⟩
    · exact ⟨h.writerOpen, h.busy, h.going⟩
  unfold closed
  rw [if_neg (by simp [hside.writerOpen])]
  exact hside

/-- **Only the task ends its session.** -/
theorem Underway.act (h : Underway s) (henabled : a.Enabled s point input) (hends : ¬Ends input) :
    Underway (s.act a) := by
  cases a with
  | stay => exact h
  | opens fd =>
    cases fd with
    | writer => exact ⟨rfl, h.busy, h.going⟩
    | reader => exact ⟨h.writerOpen, h.busy, h.going⟩
  | closes fd =>
    cases fd with
    | writer =>
      obtain ⟨-, -, -, picks, rfl⟩ := henabled
      exact absurd trivial hends
    | reader => exact h.closed_reader
  | registers m => exact absurd henabled.1 h.busy
  | finalises =>
    obtain ⟨-, -, -, -, -, picks, rfl⟩ := henabled
    exact absurd trivial hends
  | aborts => exact ⟨h.writerOpen, nofun, h.going⟩
  | accepts bytes => exact ⟨h.writerOpen, h.busy, h.going⟩
  | delivers count => exact ⟨h.writerOpen, h.busy, h.going⟩

theorem Underway.body (h : Underway s) (hends : ¬Ends input) :
    Underway (Btcap.body s point input).1 := by
  obtain ⟨a, henabled, hcore, -⟩ := body_session s point input
  exact (h.act henabled hends).of_core hcore

/-- **Only the task closes its descriptor.** -/
theorem writerOpen_body (h : s.writerOpen = true)
    (hclose : ∀ picks, input ≠ .closeFile .writer picks) :
    (Btcap.body s point input).1.writerOpen = true := by
  obtain ⟨a, henabled, hcore, -⟩ := body_session s point input
  rw [eq_of_core writerOpen (fun _ => rfl) hcore]
  cases a with
  | opens fd => cases fd <;> first | rfl | exact h
  | closes fd =>
    cases fd with
    | writer =>
      obtain ⟨-, -, -, picks, rfl⟩ := henabled
      exact absurd rfl (hclose picks)
    | reader => exact closed_reader.2.1.trans h
  | finalises =>
    show s.finalised.writerOpen = true
    unfold finalised
    dsimp only
    split <;> exact h
  | stay | registers m | aborts | accepts bytes | delivers count => exact h

end Sessions

end Brickwright.Capture
