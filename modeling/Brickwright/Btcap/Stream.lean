import Brickwright.Btcap.Acts

/-!
# The stream of a session

What readers copy out of the ring since the session was registered is the beginning of what writers
have put into it since then, and the rest is in the ring. A call returns how many bytes it has
moved.

A call may return after its session is over, and a read of no bytes returns 0 at any time; so the
bytes are counted where they are copied.
-/

namespace Brickwright.Btcap

open Chardev
open List

/-! ## What has been moved -/

def Note.begins : Note → Bool
  | .registers => true
  | _ => false

def Note.ends : Note → Bool
  | .wrote .. | .got .. => true
  | _ => false

def Note.bytesIn : Note → List UInt8
  | .accepts bytes => bytes
  | _ => []

def Note.bytesOut : Note → List UInt8
  | .delivers bytes => bytes
  | _ => []

abbrev History := List (Nat × Note)

/-- What has been put into the ring since the last registration. -/
def accepted (h : History) : List UInt8 := Machine.since (·.2.begins) (·.2.bytesIn) h

def delivered (h : History) : List UInt8 := Machine.since (·.2.begins) (·.2.bytesOut) h

/-- What a thread has put into the ring since its last call returned. -/
def acceptedBy (i : Nat) (h : History) : List UInt8 :=
  Machine.since (fun n => n.1 = i ∧ n.2.ends) (fun n => if n.1 = i then n.2.bytesIn else []) h

def deliveredBy (i : Nat) (h : History) : List UInt8 :=
  Machine.since (fun n => n.1 = i ∧ n.2.ends) (fun n => if n.1 = i then n.2.bytesOut else []) h

/-! ## The ring -/

/-- The ring holds these bytes, oldest first. -/
structure Chardev.Keeps (s : Chardev) (xs : List UInt8) : Prop where
  holds : Ring.Holds 0 s.ring s.head s.tail xs.length xs
  room : xs.length < s.ring.length

namespace Chardev.Keeps

variable {s s' : Chardev} {xs : List UInt8}

theorem empty (hpos : 0 < s.ring.length) (hhead : s.head = 0) (htail : s.tail = 0) :
    s.Keeps [] where
  holds := by
    rw [hhead, htail]
    exact Ring.Holds.empty hpos
  room := hpos

theorem congr (h : s.Keeps xs) (hring : s'.ring = s.ring) (hhead : s'.head = s.head)
    (htail : s'.tail = s.tail) : s'.Keeps xs := by
  constructor
  · rw [hring, hhead, htail]
    exact h.holds
  · rw [hring]
    exact h.room

theorem of_core (h : s.Keeps xs) (hcore : s'.core = s.core) : s'.Keeps xs :=
  h.congr (eq_of_core ring (fun _ => rfl) hcore) (eq_of_core head (fun _ => rfl) hcore)
    (eq_of_core tail (fun _ => rfl) hcore)

theorem ringUsed (h : s.Keeps xs) : s.ringUsed = xs.length := h.holds.between_eq h.room

theorem ringFree (h : s.Keeps xs) : s.ringFree = s.ring.length - 1 - xs.length := by
  rw [Chardev.ringFree, h.ringUsed]

theorem accept (h : s.Keeps xs) {bytes : List UInt8} (hroom : bytes.length ≤ s.ringFree) :
    (s.accept bytes).Keeps (xs ++ bytes) := by
  have hspace := h.room
  rw [h.ringFree] at hroom
  have hpos : s.head < s.ring.length := by
    rw [h.holds.head_eq]
    exact Nat.mod_lt _ (by omega)
  constructor
  · rw [length_append]
    exact h.holds.fill hpos (by omega)
  · show (xs ++ bytes).length < (Ring.copyIn s.ring s.head bytes).length
    rw [Ring.length_copyIn hpos (by omega), length_append]
    omega

theorem deliver (h : s.Keeps xs) {count : Nat} (hcount : count ≤ s.ringUsed) :
    Ring.copyOut s.ring s.tail count = xs.take count ∧ (s.deliver count).Keeps (xs.drop count) := by
  have hspace := h.room
  rw [h.ringUsed] at hcount
  obtain ⟨hout, hrest⟩ := h.holds.drain hcount (by omega)
  refine ⟨hout, ?_, ?_⟩
  · rw [length_drop]
    exact hrest
  · show (xs.drop count).length < s.ring.length
    rw [length_drop]
    omega

end Chardev.Keeps

/-! ## The book of a session -/

/-- What has been accepted has been delivered or is in the ring. -/
structure Book (h : History) (s : Chardev) : Prop where
  kept : ∃ xs, s.Keeps xs ∧ (s.state = .idle → xs = []) ∧
    (s.state ≠ .idle → accepted h = delivered h ++ xs)
  begun : delivered h <+: accepted h

section Acts

variable {h : History} {s s' : Chardev} {notes : List Note} {i : Nat}

theorem accepted_filter : accepted (h ++ notes.map (Prod.mk i)) =
    accepted (h ++ (notes.filter Note.ofSession).map (Prod.mk i)) := by
  rw [accepted, Machine.since_append_filter (p := fun n => n.2.ofSession), filter_map]
  · rfl
  · rintro ⟨j, n⟩ hn
    cases n <;> first | exact ⟨rfl, rfl⟩ | cases hn

theorem delivered_filter : delivered (h ++ notes.map (Prod.mk i)) =
    delivered (h ++ (notes.filter Note.ofSession).map (Prod.mk i)) := by
  rw [delivered, Machine.since_append_filter (p := fun n => n.2.ofSession), filter_map]
  · rfl
  · rintro ⟨j, n⟩ hn
    cases n <;> first | exact ⟨rfl, rfl⟩ | cases hn

theorem Book.of_core (hb : Book h s) (hcore : s'.core = s.core) : Book h s' := by
  obtain ⟨⟨xs, hkeeps, hidle, hbusy⟩, hbegun⟩ := hb
  have hstate : s'.state = s.state := eq_of_core state (fun _ => rfl) hcore
  exact ⟨⟨xs, hkeeps.of_core hcore, hstate ▸ hidle, hstate ▸ hbusy⟩, hbegun⟩

theorem Book.size_pos (hb : Book h s) : 0 < s.ring.length := by
  obtain ⟨⟨xs, hkeeps, -⟩, -⟩ := hb
  exact Nat.lt_of_le_of_lt (Nat.zero_le _) hkeeps.room

theorem Book.turned (hb : Book h s) (hturned : s.Turned s') : Book h s' := by
  have hpos := hb.size_pos
  obtain ⟨⟨xs, hkeeps, hidle, hbusy⟩, hbegun⟩ := hb
  obtain ⟨hring, ⟨hstate, hhead, htail⟩ | ⟨hhead, htail, hstate⟩⟩ := hturned
  · exact ⟨⟨[], .empty (hring ▸ hpos) hhead htail, fun _ => rfl, fun h => absurd hstate h⟩, hbegun⟩
  · have hstill : s'.state = .idle ↔ s.state = .idle := by
      rcases hstate with hsame | ⟨hready, haborted⟩
      · rw [hsame]
      · rw [hready, haborted]
        decide
    refine ⟨⟨xs, hkeeps.congr hring hhead htail, fun h => hidle (hstill.mp h), fun h => ?_⟩, hbegun⟩
    exact hbusy fun h' => h (hstill.mpr h')

theorem Book.registered (hb : Book h s) (m : SessionMeta) :
    Book (h ++ [(i, .registers)]) (s.registered m) := by
  have hin : accepted (h ++ [(i, .registers)]) = [] := by
    simp [accepted, Machine.since_append, Machine.sinceStep, Note.begins]
  have hout : delivered (h ++ [(i, .registers)]) = [] := by
    simp [delivered, Machine.since_append, Machine.sinceStep, Note.begins]
  refine ⟨⟨[], .empty hb.size_pos rfl rfl, fun _ => rfl, fun _ => ?_⟩, ?_⟩
  · rw [hin, hout]
    rfl
  · rw [hout]
    exact List.nil_prefix

theorem Book.accept (hb : Book h s) {bytes : List UInt8} (hbusy : s.state ≠ .idle)
    (hroom : bytes.length ≤ s.ringFree) : Book (h ++ [(i, .accepts bytes)]) (s.accept bytes) := by
  have hin : accepted (h ++ [(i, .accepts bytes)]) = accepted h ++ bytes := by
    simp [accepted, Machine.since_append, Machine.sinceStep, Note.begins, Note.bytesIn]
  have hout : delivered (h ++ [(i, .accepts bytes)]) = delivered h := by
    simp [delivered, Machine.since_append, Machine.sinceStep, Note.begins, Note.bytesOut]
  obtain ⟨⟨xs, hkeeps, -, hkept⟩, hbegun⟩ := hb
  refine ⟨⟨xs ++ bytes, hkeeps.accept hroom, fun h => absurd h hbusy, fun _ => ?_⟩, ?_⟩
  · rw [hin, hout, hkept hbusy, append_assoc]
  · rw [hin, hout]
    exact hbegun.trans (prefix_append ..)

theorem Book.deliver (hb : Book h s) {count : Nat} (hcount : count ≤ s.ringUsed) :
    Book (h ++ [(i, .delivers (Ring.copyOut s.ring s.tail count))]) (s.deliver count) := by
  obtain ⟨⟨xs, hkeeps, hidle, hkept⟩, hbegun⟩ := hb
  obtain ⟨hcopy, hrest⟩ := hkeeps.deliver hcount
  have hin : accepted (h ++ [(i, .delivers (Ring.copyOut s.ring s.tail count))]) = accepted h := by
    simp [accepted, Machine.since_append, Machine.sinceStep, Note.begins, Note.bytesIn]
  have hout : delivered (h ++ [(i, .delivers (Ring.copyOut s.ring s.tail count))]) =
      delivered h ++ xs.take count := by
    simp [delivered, Machine.since_append, Machine.sinceStep, Note.begins, Note.bytesOut, hcopy]
  have hall : s.state ≠ .idle → accepted h = delivered h ++ xs.take count ++ xs.drop count := by
    intro hbusy
    rw [hkept hbusy, append_assoc, take_append_drop]
  refine ⟨⟨xs.drop count, hrest, fun hstate => ?_, fun hbusy => ?_⟩, ?_⟩
  · rw [hidle hstate, drop_nil]
  · rw [hin, hout]
    exact hall hbusy
  · rw [hin, hout]
    by_cases hstate : s.state = .idle
    · rw [hidle hstate, take_nil, append_nil]
      exact hbegun
    · rw [hall hstate]
      exact prefix_append ..

/-- **What happens to a session keeps its book.** -/
theorem Book.act (hb : Book h s) {point : Point} {input : Input} {a : Act}
    (henabled : a.Enabled s point input) (hwriting : ∀ data written nonblock generation,
      point = .looping (.write data written) nonblock generation → s.state = .ready) :
    Book (h ++ (a.notes s).map (Prod.mk i)) (s.act a) := by
  have hplain : a.notes s = [] → Book h (s.act a) →
      Book (h ++ (a.notes s).map (Prod.mk i)) (s.act a) := by
    intro hnotes hb
    rwa [hnotes, map_nil, append_nil]
  cases a with
  | registers m => exact hb.registered m
  | accepts bytes =>
    have hready : s.state = .ready := by
      rcases henabled.2 with hready | ⟨data, written, nonblock, generation, hpoint⟩
      · exact hready
      · exact hwriting data written nonblock generation hpoint
    exact hb.accept (by rw [hready]; decide) henabled.1
  | delivers count => exact hb.deliver henabled
  | finalises =>
    have hin : accepted (h ++ [(i, .finalises s.readerOpen)]) = accepted h := by
      simp [accepted, Machine.since_append, Machine.sinceStep, Note.begins, Note.bytesIn]
    have hout : delivered (h ++ [(i, .finalises s.readerOpen)]) = delivered h := by
      simp [delivered, Machine.since_append, Machine.sinceStep, Note.begins, Note.bytesOut]
    obtain ⟨⟨xs, hkeeps, hidle, hkept⟩, hbegun⟩ := hb.turned turned_finalised
    exact ⟨⟨xs, hkeeps, hidle, by rw [Act.notes, map_singleton, hin, hout]; exact hkept⟩,
      by rw [Act.notes, map_singleton, hin, hout]; exact hbegun⟩
  | stay | opens _ | closes _ | aborts =>
    exact hplain rfl (hb.turned (turned_act henabled (by simp) (by simp) (by simp)))

theorem Book.body (hb : Book h s) {point : Point} {input : Input}
    (hwriting : ∀ data written nonblock generation,
      point = .looping (.write data written) nonblock generation → s.state = .ready) :
    Book (h ++ (body s point input).2.1.map (Prod.mk i)) (body s point input).1 := by
  obtain ⟨a, henabled, hcore, hnotes⟩ := body_session s point input
  obtain ⟨⟨xs, hkeeps, hidle, hkept⟩, hbegun⟩ := (hb.act (i := i) henabled hwriting).of_core hcore
  rw [← hnotes, ← accepted_filter, ← delivered_filter] at hkept hbegun
  exact ⟨⟨xs, hkeeps, hidle, hkept⟩, hbegun⟩

end Acts

/-! ## The book of a call -/

def Point.call : Point → Option Call
  | .ready => none
  | .looping call _ _ | .waiting call _ | .blocked call _ _ | .woken call _ _ => some call

def Moved : Option Call → List UInt8 → List UInt8 → Prop
  | none, ins, outs => ins = [] ∧ outs = []
  | some (.write data written), ins, outs =>
    ins = data.take written ∧ written ≤ data.length ∧ outs = []
  | some (.read buflen got), ins, outs => ins = [] ∧ outs = got ∧ got.length ≤ buflen

def Note.ofCall : Note → Bool
  | .accepts _ | .delivers _ | .wrote .. | .got .. => true
  | _ => false

inductive Progress : Option Call → List Note → Option Call → Prop where
  | none {call : Option Call} {notes : List Note} (h : ∀ n ∈ notes, n.ofCall = false) :
    Progress call notes call
  | write (data : List UInt8) : Progress none [] (some (.write data 0))
  | read (buflen : Nat) : Progress none [] (some (.read buflen []))
  | accepts {data : List UInt8} {written count : Nat} (h : count ≤ data.length - written) :
    Progress (some (.write data written)) [.accepts ((data.drop written).take count)]
      (some (.write data (written + count)))
  | delivers {buflen : Nat} {got bytes : List UInt8} (h : bytes.length ≤ buflen - got.length) :
    Progress (some (.read buflen got)) [.delivers bytes] (some (.read buflen (got ++ bytes)))
  | wrote {data : List UInt8} {written : Nat} {rc : Int} (h : rc = written ∨ rc < 0 ∧ written = 0) :
    Progress (some (.write data written)) [.wrote data rc] none
  | got {buflen : Nat} {got : List UInt8} {rc : Int} (h : rc = got.length ∨ rc < 0 ∧ got = []) :
    Progress (some (.read buflen got)) [.got buflen got rc] none
  | refused {data : List UInt8} {rc : Int} (h : rc ≤ 0) : Progress none [.wrote data rc] none
  | ended {buflen : Nat} : Progress none [.got buflen [] 0] none

section Calls

variable {s : Chardev} {data got : List UInt8} {written buflen : Nat} {nonblock : Bool}
  {generation : UInt32} {ret : Int} {picks : Picks}

theorem progress_writeEnd : Progress (some (.write data written))
    (s.writeEnd data written).2.1 (s.writeEnd data written).2.2.call := by
  refine .wrote ?_
  split
  · next h => exact .inr ⟨by decide, h⟩
  · exact .inl rfl

theorem progress_writeFail (hret : ret < 0) : Progress (some (.write data written))
    (s.writeFail data written ret).2.1 (s.writeFail data written ret).2.2.call := by
  refine .wrote ?_
  split
  · exact .inl rfl
  · next h => exact .inr ⟨hret, Nat.eq_zero_of_not_pos h⟩

theorem progress_writeChunk : Progress (some (.write data written))
    (s.writeChunk data written nonblock generation picks).2.1
    (s.writeChunk data written nonblock generation picks).2.2.call :=
  .accepts (Nat.min_le_left _ _)

theorem progress_writeWait : Progress (some (.write data written))
    (s.writeWait data written generation picks).2.1
    (s.writeWait data written generation picks).2.2.call := by
  unfold writeWait
  split
  · exact .none nofun
  · split
    · next hret => exact progress_writeFail hret
    · exact progress_writeChunk

theorem progress_writeLoop : Progress (some (.write data written))
    (s.writeLoop data written nonblock generation picks).2.1
    (s.writeLoop data written nonblock generation picks).2.2.call := by
  unfold writeLoop
  split
  · split
    · split
      · exact progress_writeEnd
      · exact progress_writeWait
    · exact progress_writeChunk
  · exact progress_writeEnd

theorem progress_write :
    Progress none (s.write data nonblock).2.1 (s.write data nonblock).2.2.call := by
  unfold write
  split
  · refine .refused ?_
    split <;> decide
  · exact .write data

theorem progress_readEnd : Progress (some (.read buflen got))
    (s.readEnd buflen got nonblock picks).2.1 (s.readEnd buflen got nonblock picks).2.2.call := by
  refine .got ?_
  split
  · next h => exact .inr ⟨by decide, length_eq_zero_iff.mp h.1⟩
  · exact .inl rfl

theorem progress_readFail (hret : ret < 0) : Progress (some (.read buflen got))
    (s.readFail buflen got ret).2.1 (s.readFail buflen got ret).2.2.call := by
  refine .got ?_
  split
  · exact .inl rfl
  · next h => exact .inr ⟨hret, length_eq_zero_iff.mp (Nat.eq_zero_of_not_pos h)⟩

section Copies

variable (hcopy : ∀ count ≤ s.ringUsed, (Ring.copyOut s.ring s.tail count).length = count)
include hcopy

theorem progress_readChunk : Progress (some (.read buflen got))
    (s.readChunk buflen got nonblock generation picks).2.1
    (s.readChunk buflen got nonblock generation picks).2.2.call := by
  refine .delivers ?_
  rw [hcopy _ (Nat.min_le_right _ _)]
  exact Nat.min_le_left _ _

theorem progress_readWait : Progress (some (.read buflen got))
    (s.readWait buflen got generation picks).2.1
    (s.readWait buflen got generation picks).2.2.call := by
  unfold readWait
  split
  · exact .none nofun
  · split
    · next hret => exact progress_readFail hret
    · exact progress_readChunk hcopy

theorem progress_readLoop : Progress (some (.read buflen got))
    (s.readLoop buflen got nonblock generation picks).2.1
    (s.readLoop buflen got nonblock generation picks).2.2.call := by
  unfold readLoop
  split
  · split
    · split
      · exact progress_readEnd
      · split
        · exact progress_readEnd
        · exact progress_readWait hcopy
    · exact progress_readChunk hcopy
  · exact progress_readEnd

theorem progress_loop {call : Call} : Progress (some call)
    (s.loop call nonblock generation picks).2.1
    (s.loop call nonblock generation picks).2.2.call := by
  cases call with
  | write data written => exact progress_writeLoop
  | read buflen got => exact progress_readLoop hcopy

end Copies

theorem progress_read :
    Progress none (s.read buflen nonblock).2.1 (s.read buflen nonblock).2.2.call := by
  unfold Chardev.read
  split
  · exact .ended
  · split
    · exact .ended
    · exact .read buflen

theorem afterWait_neg {rc : Int} (h : s.afterWait generation ret = some rc) : rc < 0 := by
  unfold afterWait at h
  split at h
  · cases h
    decide
  · split at h
    · cases h
      decide
    · cases h

theorem progress_resume {call : Call}
    (hcopy : ∀ count ≤ s.ringUsed, (Ring.copyOut s.ring s.tail count).length = count) :
    Progress (some call) (s.resume call generation ret picks).2.1
      (s.resume call generation ret picks).2.2.call := by
  unfold resume
  split
  · next hafter => exact progress_writeFail (afterWait_neg hafter)
  · exact progress_writeWait
  · next hafter => exact progress_readFail (afterWait_neg hafter)
  · exact progress_readWait (s := s.lock) hcopy

theorem ioctl_plain (s : Chardev) (fd : Descriptor) (cmd : Ioctl) (picks : Picks) :
    ∀ n ∈ (s.ioctl fd cmd picks).2, n.ofCall = false := by
  cases cmd with
  | registerSession m =>
    unfold ioctl registerSession
    dsimp only
    split
    · simp [Note.ofCall]
    · split <;> simp [Note.ofCall]
  | finalizeSession =>
    unfold ioctl finalizeSession
    dsimp only
    split
    · simp [Note.ofCall]
    · split <;> simp [Note.ofCall]
  | abortSession =>
    unfold ioctl abortSession
    dsimp only
    split <;> simp [Note.ofCall]
  | getSessionMeta =>
    unfold ioctl
    dsimp only
    split <;> simp [Note.ofCall]
  | queryState | other => simp [ioctl, Note.ofCall]

/-- **A section takes the call of its thread further.** -/
theorem progress_body (point : Point) (input : Input)
    (hcopy : ∀ count ≤ s.ringUsed, (Ring.copyOut s.ring s.tail count).length = count) :
    Progress point.call (body s point input).2.1 (body s point input).2.2.call := by
  fun_cases body s point input with
  | case2 => exact .none (by simp [Note.ofCall])
  | case4 => exact .none (by simp [Note.ofCall])
  | case6 fd cmd picks hfree s' notes hioctl =>
    have hplain := ioctl_plain s fd cmd picks
    rw [hioctl] at hplain
    exact .none hplain
  | case8 => exact .refused (Int.le_refl 0)
  | case10 => exact progress_write
  | case12 => exact .ended
  | case14 => exact progress_read
  | case15 => exact progress_loop hcopy
  | case16 call generation picks sem ticket hwait =>
    cases ticket <;> exact .none nofun
  | case22 => exact progress_resume hcopy
  | _ => exact .none nofun

end Calls

/-! ### What a call has moved -/

section Moves

variable {h : History} {i j : Nat} {notes : List Note} {call call' : Option Call}

theorem acceptedBy_concat (n : Note) : acceptedBy i (h ++ [(i, n)]) =
    if n.ends then [] else acceptedBy i h ++ n.bytesIn := by
  simp [acceptedBy, Machine.since_append, Machine.sinceStep]

theorem deliveredBy_concat (n : Note) : deliveredBy i (h ++ [(i, n)]) =
    if n.ends then [] else deliveredBy i h ++ n.bytesOut := by
  simp [deliveredBy, Machine.since_append, Machine.sinceStep]

theorem Note.plain_of_ofCall {n : Note} (h : n.ofCall = false) :
    n.ends = false ∧ n.bytesIn = [] ∧ n.bytesOut = [] := by
  cases n <;> first | exact ⟨rfl, rfl, rfl⟩ | cases h

variable (h notes) in
theorem by_append (hplain : ∀ n ∈ notes, j = i → n.ofCall = false) :
    acceptedBy i (h ++ notes.map (Prod.mk j)) = acceptedBy i h ∧
      deliveredBy i (h ++ notes.map (Prod.mk j)) = deliveredBy i h := by
  constructor
  all_goals
    refine Machine.since_append_of_plain fun n hn => ?_
    obtain ⟨n, hmem, rfl⟩ := mem_map.mp hn
    by_cases hji : j = i
    · obtain ⟨hends, hin, hout⟩ := n.plain_of_ofCall (hplain n hmem hji)
      simp [hends, hin, hout]
    · simp [hji]

theorem Progress.moved (hp : Progress call notes call')
    (hm : Moved call (acceptedBy i h) (deliveredBy i h)) :
    Moved call' (acceptedBy i (h ++ notes.map (Prod.mk i)))
      (deliveredBy i (h ++ notes.map (Prod.mk i))) := by
  cases hp with
  | none hplain =>
    obtain ⟨hin, hout⟩ := by_append h notes (j := i) fun n hn _ => hplain n hn
    rwa [hin, hout]
  | write data =>
    rw [map_nil, append_nil]
    exact ⟨by rw [hm.1, take_zero], Nat.zero_le _, hm.2⟩
  | read buflen =>
    rw [map_nil, append_nil]
    exact ⟨hm.1, hm.2, Nat.zero_le _⟩
  | @accepts data written count hcount =>
    obtain ⟨hin, hle, hout⟩ := hm
    rw [map_singleton, acceptedBy_concat, deliveredBy_concat, hin, hout]
    refine ⟨?_, by omega, rfl⟩
    exact take_add.symm
  | @delivers buflen got bytes hbytes =>
    obtain ⟨hin, hout, hle⟩ := hm
    rw [map_singleton, acceptedBy_concat, deliveredBy_concat, hin, hout]
    refine ⟨rfl, rfl, ?_⟩
    rw [length_append]
    omega
  | wrote | got | refused | ended =>
    rw [map_singleton, acceptedBy_concat, deliveredBy_concat]
    exact ⟨rfl, rfl⟩

theorem Progress.wrote_eq {l r : List Note} {data : List UInt8} {rc : Int}
    (hp : Progress call (l ++ .wrote data rc :: r) call') {ins outs : List UInt8}
    (hm : Moved call ins outs) :
    l = [] ∧ ins = data.take ins.length ∧ (rc = ins.length ∨ rc < 0 ∧ ins = []) := by
  generalize hnotes : l ++ Note.wrote data rc :: r = notes at hp
  cases hp with
  | none hplain =>
    have hcall : (Note.wrote data rc).ofCall = false := hplain _ (by simp [← hnotes])
    cases hcall
  | write | read => simp at hnotes
  | accepts | delivers | got | ended =>
    have hmem : Note.wrote data rc ∈ l ++ Note.wrote data rc :: r := by simp
    rw [hnotes] at hmem
    simp at hmem
  | @wrote data' written rc' hrc =>
    obtain ⟨rfl, heq⟩ := append_eq_singleton_iff.mp hnotes |>.resolve_right (by simp)
    cases heq
    obtain ⟨rfl, hle, -⟩ := hm
    have hlength : (data.take written).length = written := length_take_of_le hle
    refine ⟨rfl, by rw [hlength], ?_⟩
    rw [hlength]
    exact hrc.imp id fun h => ⟨h.1, by rw [h.2, take_zero]⟩
  | @refused data' rc' hrc =>
    obtain ⟨rfl, heq⟩ := append_eq_singleton_iff.mp hnotes |>.resolve_right (by simp)
    cases heq
    obtain ⟨rfl, -⟩ := hm
    refine ⟨rfl, rfl, ?_⟩
    rcases Int.lt_or_eq_of_le hrc with hlt | hzero
    · exact .inr ⟨hlt, rfl⟩
    · exact .inl hzero

theorem Progress.got_eq {l r : List Note} {buflen : Nat} {bytes : List UInt8} {rc : Int}
    (hp : Progress call (l ++ .got buflen bytes rc :: r) call') {ins outs : List UInt8}
    (hm : Moved call ins outs) :
    l = [] ∧ outs = bytes ∧ bytes.length ≤ buflen ∧
      (rc = bytes.length ∨ rc < 0 ∧ bytes = []) := by
  generalize hnotes : l ++ Note.got buflen bytes rc :: r = notes at hp
  cases hp with
  | none hplain =>
    have hcall : (Note.got buflen bytes rc).ofCall = false := hplain _ (by simp [← hnotes])
    cases hcall
  | write | read => simp at hnotes
  | accepts | delivers | wrote | refused =>
    have hmem : Note.got buflen bytes rc ∈ l ++ Note.got buflen bytes rc :: r := by simp
    rw [hnotes] at hmem
    simp at hmem
  | @got buflen' got' rc' hrc =>
    obtain ⟨rfl, heq⟩ := append_eq_singleton_iff.mp hnotes |>.resolve_right (by simp)
    cases heq
    obtain ⟨-, hout, hle⟩ := hm
    exact ⟨rfl, hout, hle, hrc⟩
  | @ended buflen' =>
    obtain ⟨rfl, heq⟩ := append_eq_singleton_iff.mp hnotes |>.resolve_right (by simp)
    cases heq
    exact ⟨rfl, hm.2, Nat.zero_le _, .inl rfl⟩

end Moves

/-! ### The end of the stream -/

section Ends

variable {s : Chardev} {got bytes : List UInt8} {written buflen buflen' : Nat}
  {nonblock : Bool} {generation : UInt32} {ret : Int} {picks : Picks}

/-- A read that wants bytes and gets none has come to the end of a session, or that is over. -/
def Drained (r : Chardev × List Note × Point) (buflen : Nat) (bytes : List UInt8) : Prop :=
  .got buflen bytes 0 ∈ r.2.1 → 0 < buflen → r.1.state = .ready → r.1.writerDone = true →
    r.1.ringUsed = 0

theorem drained_of_not_mem {r : Chardev × List Note × Point} (h : .got buflen bytes 0 ∉ r.2.1) :
    Drained r buflen bytes :=
  fun hmem => absurd hmem h

theorem drained_readEnd (hover : s.writerDone = true ∧ s.ringUsed = 0 ∨ nonblock = true ∨
      buflen ≤ got.length) :
    Drained (s.readEnd buflen got nonblock picks) buflen' bytes := by
  intro hmem hpos _ hdone
  have hnote : Note.got buflen' bytes 0 =
      .got buflen got (if got.length = 0 ∧ nonblock then -EAGAIN else got.length) :=
    mem_singleton.mp hmem
  injection hnote with hbuflen hbytes hrc
  have hempty : got.length = 0 ∧ nonblock = false := by
    split at hrc
    · exact absurd hrc (by decide)
    · next hsome =>
      have hzero : got.length = 0 := by omega
      exact ⟨hzero, by simpa [hzero] using hsome⟩
  have hused : s.ringUsed = 0 := by
    rcases hover with ⟨-, hused⟩ | hnonblock | hfull
    · exact hused
    · exact absurd (hnonblock.symm.trans hempty.2) (by decide)
    · omega
  unfold readEnd
  split <;> exact hused

theorem drained_readFail (hret : ret < 0) :
    Drained (s.readFail buflen got ret) buflen' bytes := by
  intro hmem
  have hnote : Note.got buflen' bytes 0 =
      .got buflen got (if 0 < got.length then (got.length : Int) else ret) :=
    mem_singleton.mp hmem
  injection hnote with hbuflen hbytes hrc
  split at hrc <;> omega

theorem drained_readWait : Drained (s.readWait buflen got generation picks) buflen' bytes := by
  unfold readWait
  split
  · exact drained_of_not_mem not_mem_nil
  · split
    · next hret => exact drained_readFail hret
    · exact drained_of_not_mem (by simp [readChunk])

theorem drained_readLoop :
    Drained (s.readLoop buflen got nonblock generation picks) buflen' bytes := by
  unfold readLoop
  split
  · split
    · next hused =>
      split
      · next hdone => exact drained_readEnd (.inl ⟨hdone, hused⟩)
      · split
        · next hnonblock => exact drained_readEnd (.inr (.inl hnonblock))
        · exact drained_readWait
    · exact drained_of_not_mem (by simp [readChunk])
  · next hfull => exact drained_readEnd (.inr (.inr (Nat.le_of_not_lt hfull)))

theorem drained_read : Drained (s.read buflen nonblock) buflen' bytes := by
  unfold Chardev.read
  split
  · next hover =>
    intro _ _ hready
    rcases hover with hidle | haborted
    · exact absurd (hidle.symm.trans hready) (by decide)
    · exact absurd (haborted.symm.trans hready) (by decide)
  · split
    · next hover => exact fun _ _ _ _ => hover.2
    · exact drained_of_not_mem not_mem_nil

theorem not_mem_write {call : Call} {data : List UInt8} (h : call = .write data written) :
    (∀ nonblock, .got buflen' bytes 0 ∉ (s.loop call nonblock generation picks).2.1) ∧
      ∀ ret, .got buflen' bytes 0 ∉ (s.resume call generation ret picks).2.1 := by
  subst h
  have hchunk : ∀ {s : Chardev} {nonblock}, Note.got buflen' bytes 0 ∉
      (s.writeChunk data written nonblock generation picks).2.1 := by simp [writeChunk]
  have hwait : ∀ {s : Chardev}, Note.got buflen' bytes 0 ∉
      (s.writeWait data written generation picks).2.1 := by
    intro s
    unfold writeWait
    split
    · exact not_mem_nil
    · split
      · simp [writeFail]
      · exact hchunk
  constructor
  · intro nonblock
    show Note.got buflen' bytes 0 ∉ (s.writeLoop data written nonblock generation picks).2.1
    unfold writeLoop
    split
    · split
      · split
        · simp [writeEnd]
        · exact hwait
      · exact hchunk
    · simp [writeEnd]
  · intro ret
    unfold resume
    cases s.afterWait generation ret with
    | none => exact hwait
    | some rc => simp [writeFail]

theorem drained_body {point : Point} {input : Input} :
    Drained (body s point input) buflen' bytes := by
  fun_cases body s point input with
  | case6 fd cmd picks hfree s' notes hioctl =>
    have hplain := ioctl_plain s fd cmd picks
    rw [hioctl] at hplain
    refine drained_of_not_mem fun hmem => ?_
    cases hplain _ hmem
  | case10 data nonblock =>
    refine drained_of_not_mem ?_
    unfold write
    split <;> simp
  | case12 nonblock =>
    intro hmem hpos
    have hnote := mem_singleton.mp hmem
    injection hnote with hbuflen
    omega
  | case14 => exact drained_read
  | case15 call nonblock generation picks =>
    cases call with
    | write data written => exact drained_of_not_mem ((not_mem_write rfl).1 nonblock)
    | read buflen got => exact drained_readLoop
  | case22 call generation ret picks =>
    cases call with
    | write data written =>
      exact drained_of_not_mem ((not_mem_write rfl).2 ret)
    | read buflen got =>
      unfold resume
      cases hafter : s.afterWait generation ret with
      | none => exact drained_readWait
      | some rc => exact drained_readFail (afterWait_neg hafter)
  | _ => exact drained_of_not_mem (by simp)

end Ends

/-! ## Whole runs -/

theorem Book.copied {h : History} {s : Chardev} (hb : Book h s) :
    ∀ count ≤ s.ringUsed, (Ring.copyOut s.ring s.tail count).length = count := by
  obtain ⟨⟨xs, hkeeps, -⟩, -⟩ := hb
  intro count hcount
  rw [(hkeeps.deliver hcount).1, length_take]
  rw [hkeeps.ringUsed] at hcount
  omega

theorem Book.length_body {h : History} {s : Chardev} {point : Point} {input : Input}
    (hb : Book h s) : (Btcap.body s point input).1.ring.length = s.ring.length := by
  obtain ⟨a, henabled, hcore, -⟩ := body_session s point input
  have hring : (Btcap.body s point input).1.ring = (s.act a).ring :=
    eq_of_core ring (fun _ => rfl) hcore
  obtain ⟨⟨xs, hkeeps, -⟩, -⟩ := hb
  have hroom := hkeeps.room
  rw [hring]
  cases a with
  | accepts bytes =>
    have hfree := henabled.1
    rw [hkeeps.ringFree] at hfree
    have hhead : s.head < s.ring.length := by
      rw [hkeeps.holds.head_eq]
      exact Nat.mod_lt _ (by omega)
    exact Ring.length_copyIn hhead (by omega)
  | registers m | delivers count => rfl
  | stay | opens _ | closes _ | finalises | aborts =>
    exact congrArg List.length (turned_act henabled nofun nofun nofun).1

structure Streaming (size : Nat) (h : History) (s : Threads.State Chardev Point) : Prop where
  size_eq : s.shared.ring.length = size + 1
  book : Book h s.shared
  locking : Locking s
  moved : ∀ i, Moved (s.pc i).call (acceptedBy i h) (deliveredBy i h)

theorem streaming_boot (size : Nat) : Streaming size [] (boot size) where
  size_eq := length_replicate
  book := by
    refine ⟨⟨[], .empty ?_ rfl rfl, fun _ => rfl, fun h => absurd rfl h⟩, prefix_rfl⟩
    rw [boot, length_replicate]
    exact Nat.succ_pos size
  locking := locking_boot size
  moved _ := ⟨rfl, rfl⟩

variable {size : Nat} {h : History} {s : Threads.State Chardev Point}

theorem Streaming.step (hs : Streaming size h s) (i : Nat) (input : Input) :
    Streaming size (h ++ threads.notes s i input) (threads.step s i input) where
  size_eq := hs.book.length_body.trans hs.size_eq
  book := hs.book.body fun data written nonblock generation hpoint =>
    hs.locking.writing i ⟨data, written, nonblock, generation, hpoint⟩
  locking := locking_step hs.locking i input
  moved j := by
    by_cases hji : j = i
    · subst hji
      rw [Threads.step_pc_self]
      exact (progress_body (s.pc j) input hs.book.copied).moved (hs.moved j)
    · obtain ⟨hin, hout⟩ := by_append h (body s.shared (s.pc i) input).2.1 (i := j) (j := i)
        fun _ _ heq => absurd heq.symm hji
      rw [Threads.step_pc_of_ne hji]
      show Moved _ (acceptedBy j (h ++ (body s.shared (s.pc i) input).2.1.map (Prod.mk i)))
        (deliveredBy j (h ++ (body s.shared (s.pc i) input).2.1.map (Prod.mk i)))
      rw [hin, hout]
      exact hs.moved j

theorem streaming_run (size : Nat) (events : List (Nat × Input)) :
    Streaming size (threads.history (boot size) events)
      (threads.machine.run (boot size) events) := by
  have hstep : ∀ h s i input, Streaming size h s →
      Streaming size (h ++ threads.notes s i input) (threads.step s i input) :=
    fun _ _ i input hs => hs.step i input
  have hrun := Threads.history_invariant hstep (streaming_boot size) events
  rwa [nil_append] at hrun

theorem exists_section {events : List (Nat × Input)} {pre post : History} {i : Nat} {n : Note}
    (hsplit : threads.history (boot size) events = pre ++ (i, n) :: post) :
    ∃ h s input l r, Streaming size h s ∧ (body s.shared (s.pc i) input).2.1 = l ++ n :: r ∧
      pre = h ++ l.map (Prod.mk i) := by
  obtain ⟨before, ⟨j, input⟩, after, l, r, -, hnotes, rfl, -⟩ :=
    Threads.exists_step_of_history hsplit
  obtain ⟨l', rest, hbody, rfl, hrest⟩ := map_eq_append_iff.mp hnotes
  obtain ⟨n', r', rfl, hn, -⟩ := map_eq_cons_iff.mp hrest
  cases hn
  exact ⟨_, _, input, l', r', streaming_run size before, hbody, rfl⟩

theorem Streaming.all_delivered (hs : Streaming size h s) (hready : s.shared.state = .ready)
    (hused : s.shared.ringUsed = 0) : delivered h = accepted h := by
  obtain ⟨⟨xs, hkeeps, -, hkept⟩, -⟩ := hs.book
  have hnil : xs = [] := by
    rw [hkeeps.ringUsed] at hused
    exact length_eq_zero_iff.mp hused
  rw [hkept (by rw [hready]; decide), hnil, append_nil]

/-- **The stream of a session.** What readers have copied out since the last registration is the
beginning of what writers have put in since then; the ring never takes its last cell; a write
returns how many bytes of its own it has put in, a read returns the bytes that it has copied out;
and a read of a finalised session returns 0 only when everything has been copied out, unless it
wants no bytes. -/
theorem stream_of_session (size : Nat) (events : List (Nat × Input)) :
    delivered (threads.history (boot size) events) <+:
      accepted (threads.history (boot size) events) ∧
    (threads.machine.run (boot size) events).shared.ring.length = size + 1 ∧
    (threads.machine.run (boot size) events).shared.ringUsed ≤ size ∧
    (∀ pre post i data (rc : Int),
      threads.history (boot size) events = pre ++ (i, .wrote data rc) :: post →
      acceptedBy i pre = data.take (acceptedBy i pre).length ∧
        (rc = (acceptedBy i pre).length ∨ rc < 0 ∧ acceptedBy i pre = [])) ∧
    (∀ pre post i buflen bytes (rc : Int),
      threads.history (boot size) events = pre ++ (i, .got buflen bytes rc) :: post →
      deliveredBy i pre = bytes ∧ bytes.length ≤ buflen ∧
        (rc = bytes.length ∨ rc < 0 ∧ bytes = [])) ∧
    ∀ before i input after buflen bytes, events = before ++ (i, input) :: after →
      (i, .got buflen bytes 0) ∈ threads.notes (threads.machine.run (boot size) before) i input →
      0 < buflen →
      (threads.machine.run (boot size) (before ++ [(i, input)])).shared.state = .ready →
      (threads.machine.run (boot size) (before ++ [(i, input)])).shared.writerDone = true →
      delivered (threads.history (boot size) (before ++ [(i, input)])) =
        accepted (threads.history (boot size) (before ++ [(i, input)])) := by
  have hs := streaming_run size events
  refine ⟨hs.book.begun, hs.size_eq, ?_, ?_, ?_, ?_⟩
  · obtain ⟨⟨xs, hkeeps, -⟩, -⟩ := hs.book
    have hroom := hkeeps.room
    rw [hs.size_eq] at hroom
    rw [hkeeps.ringUsed]
    exact Nat.le_of_lt_succ hroom
  · intro pre post i data rc hsplit
    obtain ⟨h, s, input, l, r, hs, hbody, rfl⟩ := exists_section hsplit
    have hprogress := progress_body (s.pc i) input hs.book.copied
    rw [hbody] at hprogress
    obtain ⟨rfl, hwrote⟩ := hprogress.wrote_eq (hs.moved i)
    rwa [map_nil, append_nil]
  · intro pre post i buflen bytes rc hsplit
    obtain ⟨h, s, input, l, r, hs, hbody, rfl⟩ := exists_section hsplit
    have hprogress := progress_body (s.pc i) input hs.book.copied
    rw [hbody] at hprogress
    obtain ⟨rfl, hgot⟩ := hprogress.got_eq (hs.moved i)
    rwa [map_nil, append_nil]
  · intro before i input after buflen bytes _ hmem hpos hready hdone
    have hafter := streaming_run size (before ++ [(i, input)])
    refine hafter.all_delivered hready ?_
    rw [threads.machine.run_append] at hready hdone ⊢
    exact drained_body (Threads.mem_notes.mp hmem).2 hpos hready hdone

/-- A session is finalised with a byte in the ring, and a read of no bytes returns 0. -/
def emptyRead : List (Nat × Input) :=
  [(0, .openFile true false), (1, .openFile false true),
    (0, .ioctl .writer (.registerSession {}) (0, 0)), (0, .write [7] false), (0, .go (0, 0)),
    (0, .go (0, 0)), (0, .ioctl .writer .finalizeSession (0, 0)), (1, .read 0 false)]

/-- A reader has a byte and waits for another one while its session is aborted, both sides close,
and the next session is registered; then it returns the byte of the old one. -/
def lateRead : List (Nat × Input) :=
  [(0, .openFile true false), (1, .openFile false true),
    (0, .ioctl .writer (.registerSession {}) (0, 0)), (0, .write [7] false), (0, .go (0, 0)),
    (0, .go (0, 0)), (1, .read 2 false), (1, .go (0, 0)), (1, .go (0, 0)),
      (0, .ioctl .writer .abortSession (0, 0)), (0, .closeFile .writer (0, 0)),
    (2, .closeFile .reader (0, 0)), (0, .openFile true false),
    (0, .ioctl .writer (.registerSession {}) (0, 0)), (1, .go (0, 0)), (1, .go (0, 0))]

theorem not_stream_of_session :
    ((threads.machine.run (boot 3) emptyRead).shared.state = .ready ∧
      (threads.machine.run (boot 3) emptyRead).shared.writerDone = true ∧
      (threads.history (boot 3) emptyRead).getLast? = some (1, .got 0 [] 0) ∧
      accepted (threads.history (boot 3) emptyRead) = [7] ∧
      delivered (threads.history (boot 3) emptyRead) = []) ∧
    (threads.history (boot 3) lateRead).getLast? = some (1, .got 2 [7] 1) ∧
      accepted (threads.history (boot 3) lateRead) = [] ∧
      (threads.machine.run (boot 3) lateRead).shared.sessionGeneration = 2 := by
  decide +kernel

end Brickwright.Btcap
