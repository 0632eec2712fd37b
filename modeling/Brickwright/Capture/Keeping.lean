import Brickwright.Capture.Turns

/-!
# The tally of a run

Every step of the task and of the channel keeps the tally (`Keeping.step`): what the channel has
accepted from the task is what the library counts as sent, but for the bytes of pieces that a
failing `write` has torn.
-/

namespace Brickwright.Capture

open Btcap
open List

variable (setup : Setup)

/-- A write of the thread is answered with an error, or with nothing. -/
def failsWrite (me : Nat) (entries : List Entry) : Bool := entries.any fun
  | .channel i (.wrote _ rc) => i = me ∧ rc ≤ 0
  | _ => false

/-- A write of the task fails when a part of the head, or of the payload of this call, is already in
the channel. -/
def Torn (s : State) (input : Input) : Prop :=
  failsWrite setup.me (step setup s input).2 = true ∧ s.partly ≠ []

instance (s : State) (input : Input) : Decidable (Torn setup s input) :=
  inferInstanceAs (Decidable (_ ∧ _))

/-- A thread of the channel is in no call, or in the write that the task has made. -/
def InCall (s : State) : Prop :=
  (s.channel.pc setup.me).call = none ∨ ∃ piece remaining data written,
    s.point = .pushes piece remaining data ∧
      (s.channel.pc setup.me).call = some (.write remaining written)

structure Keeping (size lost : Nat) (h : List Entry) (s : State) : Prop where
  streaming : Streaming size (chan h) s.channel
  fits : s.Fits
  unsent : s.handle.headerSent = false → payload h = []
  inCall : InCall setup s
  booked : Booked lost setup.me (chan h) (s.sent h)

variable {setup} {size lost : Nat} {h : List Entry} {s : State}

theorem keeping_boot : Keeping setup size 0 [] (boot size) where
  streaming := streaming_boot size
  fits := ⟨rfl, rfl⟩
  unsent _ := rfl
  inCall := .inl rfl
  booked := Tally.nil

/-! ## Turns -/

theorem failsWrite_of_quiet {me : Nat} {entries : List Entry} (hquiet : chan entries = []) :
    failsWrite me entries = false := by
  induction entries with
  | nil => rfl
  | cons e entries ih =>
    cases e with
    | channel i n => cases hquiet
    | returned op rc => exact ih hquiet

theorem failsWrite_append {me : Nat} (entries entries' : List Entry) :
    failsWrite me (entries ++ entries') = (failsWrite me entries || failsWrite me entries') :=
  any_append

variable {r : State × List Entry}

theorem keeping_turned {total : List UInt8}
    (hstreaming : Streaming size (chan h) s.channel) (hcall : (s.channel.pc setup.me).call = none)
    (htally : Tally lost (pushed setup.me (chan h)) total []) (hturned : Turned h s r total) :
    Keeping setup size lost (h ++ r.2) r.1 := by
  have hchan : chan (h ++ r.2) = chan h := by rw [chan_append, hturned.quiet, append_nil]
  have hmoved := hstreaming.moved setup.me
  rw [hcall] at hmoved
  refine ⟨?_, hturned.fits, hturned.unsent, .inl ?_, ?_⟩
  · rw [hchan, hturned.channel]
    exact hstreaming
  · rw [hturned.channel]
    exact hcall
  · rw [Booked, hchan, hturned.sent, hmoved.1]
    exact htally

def Point.Quiet (point : Point) : Prop :=
  ∀ piece remaining data, point ≠ .pushes piece remaining data

theorem partly_of_quiet (hquiet : s.point.Quiet) : s.partly = [] := by
  unfold State.partly
  split
  · next heq => exact absurd heq (hquiet _ _ _)
  · rfl

theorem Keeping.call_of_quiet (hk : Keeping setup size lost h s) (hquiet : s.point.Quiet) :
    (s.channel.pc setup.me).call = none := by
  rcases hk.inCall with hnone | ⟨piece, remaining, data, written, hpoint, -⟩
  · exact hnone
  · exact absurd hpoint (hquiet _ _ _)

theorem Keeping.tally (hk : Keeping setup size lost h s) (hquiet : s.point.Quiet) :
    Tally lost (pushed setup.me (chan h)) (s.settled h) [] := by
  have hmoved := hk.streaming.moved setup.me
  have hbooked := hk.booked
  rw [hk.call_of_quiet hquiet] at hmoved
  rwa [Booked, hmoved.1, State.sent, partly_of_quiet hquiet, append_nil] at hbooked

theorem Keeping.turn (hk : Keeping setup size lost h s) (hquiet : s.point.Quiet)
    (hturned : Turned h s r (s.settled h)) :
    Keeping setup size lost (h ++ r.2) r.1 :=
  keeping_turned hk.streaming (hk.call_of_quiet hquiet) (hk.tally hquiet) hturned

theorem turned_still (hfits : s.Fits) (hunsent : s.handle.headerSent = false → payload h = [])
    (hquiet : s.point.Quiet) : Turned h s (s, []) (s.settled h) where
  channel := rfl
  quiet := rfl
  fits := hfits
  unsent hnot := by
    rw [append_nil]
    exact hunsent hnot
  sent := by rw [append_nil, State.sent, partly_of_quiet hquiet, append_nil]

theorem turned_early (hheader : s.handle.headerSent = false)
    (hunsent : s.handle.headerSent = false → payload h = []) (hchannel : r.1.channel = s.channel)
    (hheader' : r.1.handle.headerSent = false) (hfits : r.1.Fits) (hquiet : r.1.point.Quiet)
    (hentries : r.2 = [] ∨ ∃ rc, r.2 = [.returned .init rc]) : Turned h s r (s.settled h) := by
  have hnil : chan r.2 = [] ∧ payload r.2 = [] := by
    rcases hentries with heq | ⟨rc, heq⟩ <;> rw [heq] <;> exact ⟨rfl, rfl⟩
  refine ⟨hchannel, hnil.1, hfits, fun _ => ?_, ?_⟩
  · rw [payload_append, hunsent hheader, hnil.2]
    rfl
  · rw [State.sent, State.settled, State.settled, partly_of_quiet hquiet, hheader, hheader']
    rfl

theorem turned_captureInit (hk : Keeping setup size lost h s) (hpoint : s.point = .start) :
    Turned h s (captureInit setup s) (s.settled h) := by
  have hfits := hk.fits
  unfold State.Fits at hfits
  rw [hpoint] at hfits
  unfold captureInit
  split
  · exact turned_early hfits.2 hk.unsent rfl hfits.2 trivial nofun (.inr ⟨_, rfl⟩)
  · exact turned_early hfits.2 hk.unsent rfl hfits.2 hfits nofun (.inl rfl)

theorem turned_clockRead (hk : Keeping setup size lost h s) {descs : List FieldDesc}
    (hpoint : s.point = .reads descs) (nowUs : UInt64) :
    Turned h s (clockRead setup s descs nowUs) (s.settled h) := by
  have hfits := hk.fits
  unfold State.Fits at hfits
  rw [hpoint] at hfits
  unfold clockRead
  dsimp only
  split
  · exact turned_early hfits.2 hk.unsent rfl hfits.2 trivial nofun (.inr ⟨_, rfl⟩)
  · exact turned_early hfits.2 hk.unsent rfl hfits.2 hfits nofun (.inl rfl)

theorem turned_resume (hfits : s.Fits) (hunsent : s.handle.headerSent = false → payload h = [])
    (hquiet : s.point.Quiet) (rc state : Int) : Turned h s (s.resume rc state) (s.settled h) := by
  have hstill := turned_still hfits hunsent hquiet
  unfold State.Fits at hfits
  unfold State.resume
  cases hpoint : s.point with
  | opens =>
    rw [hpoint] at hfits
    dsimp only
    split
    · exact turned_returns hunsent nofun
    · exact turned_goes_plain hunsent hfits rfl
  | registers =>
    rw [hpoint] at hfits
    dsimp only
    split
    · exact turned_goes_plain hunsent hfits rfl
    · exact turned_early hfits.2 hunsent rfl hfits.2 trivial nofun (.inr ⟨_, rfl⟩)
  | fails rc' => exact turned_returns hunsent nofun
  | pushes piece remaining data => exact absurd hpoint (hquiet _ _ _)
  | finalises =>
    rw [hpoint] at hfits
    dsimp only
    split
    · exact turned_goes_plain hunsent ⟨hfits.1, .inl rfl⟩ rfl
    · exact turned_goes_plain hunsent hfits.1 rfl
  | queries =>
    rw [hpoint] at hfits
    dsimp only [State.queried]
    split
    · exact turned_goes_plain hunsent ⟨hfits, .inl rfl⟩ rfl
    · split
      · exact turned_goes_plain hunsent ⟨hfits, .inl rfl⟩ rfl
      · split
        · exact turned_goes_plain hunsent ⟨hfits, .inl rfl⟩ rfl
        · exact turned_goes_plain hunsent hfits rfl
  | aborts =>
    rw [hpoint] at hfits
    exact turned_goes_plain hunsent ⟨hfits, .inr rfl⟩ rfl
  | closes op rc' =>
    rw [hpoint] at hfits
    have hplain : Plain op rc' := by
      rintro data rfl
      rcases hfits.2 with heq | heq <;> cases heq
    have hturned : Turned h s.closed (s.closed.returns op rc') (s.closed.settled h) :=
      turned_returns hunsent hplain
    exact ⟨hturned.channel, hturned.quiet, hturned.fits, hturned.unsent, hturned.sent⟩
  | start | reads descs | idle | polls => exact hstill

/-! ## Sections -/

theorem answer_of_not_mem {piece : Piece} {remaining : List UInt8} {data : Buffer}
    {notes : List Note} (hnot : ∀ data rc, Note.wrote data rc ∉ notes) :
    answer (.pushes piece remaining data) notes = none := by
  apply List.findSome?_eq_none_iff.mpr
  intro n hn
  cases n with
  | wrote data rc => exact absurd hn (hnot data rc)
  | _ => rfl

theorem not_failsWrite {me i : Nat} {notes : List Note}
    (hnot : i = me → ∀ data rc, Note.wrote data rc ∉ notes) :
    failsWrite me (notes.map (.channel i)) = false := by
  rw [failsWrite, any_map, any_eq_false]
  intro n hn
  cases n with
  | wrote data rc =>
    by_cases hi : i = me
    · exact absurd hn (hnot hi data rc)
    · simp [hi]
  | _ => simp

variable (setup) in
/-- A system call that the task can be in front of, and its way through one. -/
inductive Legal (s : State) : Btcap.Input → Prop where
  | control {input : Btcap.Input} (hquiet : s.point.Quiet)
    (h : (∃ wantWrite wantRead, input = .openFile wantWrite wantRead) ∨
      (∃ fd picks, input = .closeFile fd picks) ∨ ∃ fd cmd picks, input = .ioctl fd cmd picks)
    (hready : s.channel.pc setup.me = .ready) : Legal s input
  | write {piece : Piece} {remaining : List UInt8} {data : Buffer}
    (hpoint : s.point = .pushes piece remaining data) (hready : s.channel.pc setup.me = .ready) :
    Legal s (.write remaining false)
  | go (picks : Picks) : Legal s (.go picks)
  | giveUp (ret : Int) : Legal s (.giveUp ret)

variable {input : Btcap.Input}

theorem body_ready_of_go {c : Chardev}
    (h : (∃ picks, input = .go picks) ∨ ∃ ret, input = .giveUp ret) :
    body c .ready input = (c, [], .ready) := by
  rcases h with ⟨picks, rfl⟩ | ⟨ret, rfl⟩ <;> rfl

theorem inCall_moved (hin : InCall setup s) (hlegal : Legal setup s input)
    (hprogress : Progress (s.channel.pc setup.me).call (noted setup s input)
      (body s.channel.shared (s.channel.pc setup.me) input).2.2.call) :
    InCall setup (moved setup s input) := by
  have hpc : (moved setup s input).channel.pc setup.me =
      (body s.channel.shared (s.channel.pc setup.me) input).2.2 := Threads.step_pc_self ..
  unfold InCall
  rw [hpc]
  rcases hin with hnone | ⟨piece, remaining, data, written, hpoint, hcall⟩
  · have hready := call_eq_none.mp hnone
    rw [hready]
    cases hlegal with
    | control hquiet hcontrol _ =>
      rw [(body_control hcontrol).1]
      exact .inl rfl
    | @write piece remaining data hpoint _ =>
      rcases call_of_write s.channel.shared remaining false with hover | hbegun
      · exact .inl hover
      · exact .inr ⟨piece, remaining, data, 0, hpoint, hbegun⟩
    | go picks =>
      exact .inl rfl
    | giveUp ret =>
      exact .inl rfl
  · rw [hcall] at hprogress
    generalize noted setup s input = notes at hprogress
    generalize (body s.channel.shared (s.channel.pc setup.me) input).2.2.call = call' at hprogress ⊢
    cases hprogress with
    | none hplain => exact .inr ⟨piece, remaining, data, written, hpoint, rfl⟩
    | accepts hcount => exact .inr ⟨piece, remaining, data, _, hpoint, rfl⟩
    | wrote hrc => exact .inl rfl

theorem plain_of_quiet (hk : Keeping setup size lost h s)
    (hquiet : s.point.Quiet) (hlegal : Legal setup s input) :
    ∀ n ∈ noted setup s input, n.ofCall = false := by
  have hready := call_eq_none.mp (hk.call_of_quiet hquiet)
  rw [noted, hready]
  cases hlegal with
  | control _ hcontrol _ => exact (body_control hcontrol).2
  | write hpoint _ => exact absurd hpoint (hquiet _ _ _)
  | go picks =>
    exact nofun
  | giveUp ret =>
    exact nofun

section Sections

variable {input : Btcap.Input} {rc : Int}

theorem onChannel_of_none (h : answer s.point (noted setup s input) = none) :
    onChannel setup s input =
      (moved setup s input, (noted setup s input).map (.channel setup.me)) := by
  unfold onChannel
  rw [h]

theorem onChannel_of_some (h : answer s.point (noted setup s input) = some rc) :
    onChannel setup s input =
      (((moved setup s input).resume rc (stateOf (noted setup s input))).1,
        (noted setup s input).map (.channel setup.me) ++
          ((moved setup s input).resume rc (stateOf (noted setup s input))).2) := by
  unfold onChannel
  rw [h]

theorem Keeping.goesOn (hk : Keeping setup size lost h s) (hlegal : Legal setup s input)
    (hnot : ∀ data rc, Note.wrote data rc ∉ noted setup s input) :
    Keeping setup size lost (h ++ (noted setup s input).map (.channel setup.me))
      (moved setup s input) := by
  have hprogress := progress_body (s.channel.pc setup.me) input hk.streaming.book.copied
  have hbooked := hk.booked.progress hprogress (hk.streaming.moved setup.me)
  have hpayload : payload (h ++ (noted setup s input).map (.channel setup.me)) = payload h := by
    rw [payload_append, payload_channel, append_nil]
  refine ⟨?_, hk.fits, ?_, inCall_moved hk.inCall hlegal hprogress, ?_⟩
  · rw [chan_append, chan_channel]
    exact hk.streaming.step setup.me input
  · rw [hpayload]
    exact hk.unsent
  · rcases hbooked with ⟨-, hbooked⟩ | ⟨data, rc, hnotes, -⟩
    · rw [chan_append, chan_channel, State.sent, State.settled, hpayload]
      exact hbooked
    · refine absurd ?_ (hnot data rc)
      rw [noted, hnotes]
      exact mem_singleton_self _

theorem Keeping.onChannel_of_quiet (hk : Keeping setup size lost h s) (hlegal : Legal setup s input)
    (hquiet : s.point.Quiet) :
    Keeping setup size lost (h ++ (onChannel setup s input).2) (onChannel setup s input).1 ∧
      failsWrite setup.me (onChannel setup s input).2 = false := by
  have hplain := plain_of_quiet hk hquiet hlegal
  have hnot : ∀ data rc, Note.wrote data rc ∉ noted setup s input :=
    fun data rc hmem => nomatch hplain _ hmem
  have hmoved := hk.goesOn hlegal hnot
  have hsilent : failsWrite setup.me ((noted setup s input).map (.channel setup.me)) = false :=
    not_failsWrite fun _ => hnot
  cases hanswer : answer s.point (noted setup s input) with
  | none =>
    rw [onChannel_of_none hanswer]
    exact ⟨hmoved, hsilent⟩
  | some rc =>
    have hturned := turned_resume hmoved.fits hmoved.unsent hquiet rc
      (stateOf (noted setup s input))
    rw [onChannel_of_some hanswer, ← append_assoc]
    refine ⟨hmoved.turn hquiet hturned, ?_⟩
    rw [failsWrite_append, hsilent, failsWrite_of_quiet hturned.quiet]
    rfl

theorem Keeping.onChannel_of_push (hk : Keeping setup size lost h s) (hlegal : Legal setup s input)
    {piece : Piece} {remaining : List UInt8} {data : Buffer}
    (hpoint : s.point = .pushes piece remaining data) :
    ∃ lost', Keeping setup size lost' (h ++ (onChannel setup s input).2)
      (onChannel setup s input).1 ∧ (lost' = 0 ↔ lost = 0 ∧
        ¬(failsWrite setup.me (onChannel setup s input).2 = true ∧ s.partly ≠ [])) := by
  have hprogress := progress_body (s.channel.pc setup.me) input hk.streaming.book.copied
  have hstreaming := hk.streaming.step setup.me input
  have hpc : (moved setup s input).channel.pc setup.me =
      (body s.channel.shared (s.channel.pc setup.me) input).2.2 := Threads.step_pc_self ..
  rcases hk.booked.progress hprogress (hk.streaming.moved setup.me) with
    ⟨hnot, -⟩ | ⟨bytes, rc, hnotes, hcall, -, htally⟩
  · have hanswer : answer s.point (noted setup s input) = none := by
      rw [hpoint]
      exact answer_of_not_mem hnot
    have hsilent : failsWrite setup.me ((noted setup s input).map (.channel setup.me)) = false :=
      not_failsWrite fun _ => hnot
    rw [onChannel_of_none hanswer]
    refine ⟨lost, hk.goesOn hlegal hnot, ?_⟩
    simp [hsilent]
  · have hnotes' : noted setup s input = [.wrote bytes rc] := hnotes
    have hanswer : answer s.point (noted setup s input) = some rc := by
      rw [hpoint, hnotes']
      rfl
    have hresume : (moved setup s input).resume rc (stateOf (noted setup s input)) =
        (moved setup s input).wrote piece remaining data rc := by
      unfold State.resume
      have hpoint' : (moved setup s input).point = .pushes piece remaining data := hpoint
      rw [hpoint']
    have hpayload : payload (h ++ (noted setup s input).map (.channel setup.me)) = payload h := by
      rw [payload_append, payload_channel, append_nil]
    have hunsent : (moved setup s input).handle.headerSent = false →
        payload (h ++ (noted setup s input).map (.channel setup.me)) = [] := by
      rw [hpayload]
      exact hk.unsent
    have hsettled : (moved setup s input).settled
        (h ++ (noted setup s input).map (.channel setup.me)) = s.settled h := by
      unfold State.settled
      rw [hpayload]
      rfl
    have hchan : chan (h ++ (noted setup s input).map (.channel setup.me)) =
        chan h ++ threads.notes s.channel setup.me input := by
      rw [chan_append, chan_channel]
      rfl
    rw [onChannel_of_some hanswer, hresume, ← append_assoc]
    rw [← hchan] at hstreaming
    have hfree : ((moved setup s input).channel.pc setup.me).call = none := by
      rw [hpc]
      exact hcall
    have hsent : (moved setup s input).sent
        (h ++ (noted setup s input).map (.channel setup.me)) = s.sent h :=
      congrArg (· ++ s.partly) hsettled
    have hpushed : chan h ++
        (body s.channel.shared (s.channel.pc setup.me) input).2.1.map (Prod.mk setup.me) =
          chan (h ++ (noted setup s input).map (.channel setup.me)) := hchan.symm
    rw [hpushed] at htally
    rcases htally with ⟨hrc, htally⟩ | ⟨hrc, ⟨written, hwrite⟩, htally⟩
    · -- the piece is given up, and with it what has been pushed of it
      have hturned : Turned _ _ ((moved setup s input).wrote piece remaining data rc) _ :=
        turned_wrote_of_le hunsent hrc
      rw [hsettled] at hturned
      refine ⟨lost + s.partly.length, keeping_turned hstreaming hfree htally.forget hturned, ?_⟩
      have hfails : failsWrite setup.me ((noted setup s input).map (.channel setup.me) ++
          ((moved setup s input).wrote piece remaining data rc).2) = true := by
        rw [failsWrite_append, hnotes']
        simp [failsWrite, hrc]
      rw [hfails, Nat.add_eq_zero_iff, length_eq_zero_iff]
      simp
    · have hturned : Turned _ _ ((moved setup s input).wrote piece remaining data rc) _ :=
        turned_wrote_of_pos hunsent hpoint hk.fits hrc
      have hbytes : bytes = remaining := by
        rcases hk.inCall with hnone | ⟨piece', remaining', data', written', hpoint', hcall'⟩
        · cases hnone.symm.trans hwrite
        · cases hpoint.symm.trans hpoint'
          cases hcall'.symm.trans hwrite
          rfl
      rw [hsent] at hturned
      rw [hbytes] at htally
      refine ⟨lost, keeping_turned hstreaming hfree htally.count hturned, ?_⟩
      have hfails : failsWrite setup.me ((noted setup s input).map (.channel setup.me) ++
          ((moved setup s input).wrote piece remaining data rc).2) = false := by
        rw [failsWrite_append, hnotes', failsWrite_of_quiet hturned.quiet]
        simp [failsWrite, hrc]
      rw [hfails]
      simp

end Sections

/-! ## Steps -/

theorem keeps_of_not_fails (hk : Keeping setup size lost (h ++ r.2) r.1)
    (hfails : failsWrite setup.me r.2 = false) :
    ∃ lost', Keeping setup size lost' (h ++ r.2) r.1 ∧
      (lost' = 0 ↔ lost = 0 ∧ ¬(failsWrite setup.me r.2 = true ∧ s.partly ≠ [])) := by
  refine ⟨lost, hk, ?_⟩
  rw [hfails]
  simp

theorem Keeping.still (hk : Keeping setup size lost h s) :
    Keeping setup size lost (h ++ ((s, []) : State × List Entry).2)
      ((s, []) : State × List Entry).1 := by
  rw [append_nil]
  exact hk

theorem Keeping.other (hk : Keeping setup size lost h s) {i : Nat} (hi : i ≠ setup.me)
    (input : Btcap.Input) :
    Keeping setup size lost
      (h ++ (body s.channel.shared (s.channel.pc i) input).2.1.map (.channel i))
      { s with channel := threads.step s.channel i input } := by
  have hpayload : payload (h ++ (body s.channel.shared (s.channel.pc i) input).2.1.map
      (.channel i)) = payload h := by
    rw [payload_append, payload_channel, append_nil]
  have hpc : (threads.step s.channel i input).pc setup.me = s.channel.pc setup.me :=
    Threads.step_pc_of_ne hi.symm input
  refine ⟨?_, hk.fits, ?_, ?_, ?_⟩
  · rw [chan_append, chan_channel]
    exact hk.streaming.step i input
  · rw [hpayload]
    exact hk.unsent
  · unfold InCall
    rw [hpc]
    exact hk.inCall
  · rw [chan_append, chan_channel, State.sent, State.settled, hpayload]
    exact hk.booked.plain fun _ _ heq => absurd heq hi

theorem legal_of_request {picks : Picks} (hrequest : request setup s picks = some input) :
    (∃ piece remaining data, s.point = .pushes piece remaining data ∧
      input = .write remaining false) ∨
    s.point.Quiet ∧ ((∃ wantWrite wantRead, input = .openFile wantWrite wantRead) ∨
      (∃ fd picks, input = .closeFile fd picks) ∨ ∃ fd cmd picks, input = .ioctl fd cmd picks) := by
  unfold request at hrequest
  cases hpoint : s.point with
  | pushes piece remaining data =>
    rw [hpoint] at hrequest
    cases hrequest
    exact .inl ⟨piece, remaining, data, rfl, rfl⟩
  | start | reads descs | idle | polls =>
    rw [hpoint] at hrequest
    cases hrequest
  | opens =>
    rw [hpoint] at hrequest
    cases hrequest
    exact .inr ⟨nofun, .inl ⟨_, _, rfl⟩⟩
  | fails rc | closes op rc =>
    rw [hpoint] at hrequest
    cases hrequest
    exact .inr ⟨nofun, .inr (.inl ⟨_, _, rfl⟩)⟩
  | registers | finalises | queries | aborts =>
    rw [hpoint] at hrequest
    cases hrequest
    exact .inr ⟨nofun, .inr (.inr ⟨_, _, _, rfl⟩)⟩

theorem Keeping.onChannel (hk : Keeping setup size lost h s) (hlegal : Legal setup s input) :
    ∃ lost', Keeping setup size lost' (h ++ (onChannel setup s input).2)
      (onChannel setup s input).1 ∧ (lost' = 0 ↔ lost = 0 ∧
        ¬(failsWrite setup.me (onChannel setup s input).2 = true ∧ s.partly ≠ [])) := by
  by_cases hpush : ∃ piece remaining data, s.point = .pushes piece remaining data
  · obtain ⟨piece, remaining, data, hpoint⟩ := hpush
    exact hk.onChannel_of_push hlegal hpoint
  · have hquiet : s.point.Quiet := fun piece remaining data heq => hpush ⟨_, _, _, heq⟩
    obtain ⟨hkeeps, hfails⟩ := hk.onChannel_of_quiet hlegal hquiet
    exact keeps_of_not_fails hkeeps hfails

theorem quiet_of_point {point : Point} (hpoint : s.point = point) (hquiet : point.Quiet) :
    s.point.Quiet := hpoint ▸ hquiet

theorem Keeping.turns (hk : Keeping setup size lost h s) (hquiet : s.point.Quiet)
    (hturned : Turned h s r (s.settled h)) :
    ∃ lost', Keeping setup size lost' (h ++ r.2) r.1 ∧
      (lost' = 0 ↔ lost = 0 ∧ ¬(failsWrite setup.me r.2 = true ∧ s.partly ≠ [])) :=
  keeps_of_not_fails (hk.turn hquiet hturned) (failsWrite_of_quiet hturned.quiet)

/-- **Every step keeps the tally**, and loses bytes exactly if it tears a piece. -/
theorem Keeping.step (hk : Keeping setup size lost h s) (input : Input) :
    ∃ lost', Keeping setup size lost' (h ++ (step setup s input).2) (step setup s input).1 ∧
      (lost' = 0 ↔ lost = 0 ∧ ¬Torn setup s input) := by
  unfold Torn
  cases input with
  | other i input =>
    unfold Capture.step
    dsimp only
    split
    · exact keeps_of_not_fails hk.still rfl
    · next hfree =>
      -- a write of another task is not one of the capture
      have hi : i ≠ setup.me := fun heq => hfree (.inl heq)
      exact keeps_of_not_fails (hk.other hi input) (not_failsWrite fun heq => absurd heq hi)
  | call op =>
    unfold Capture.step
    dsimp only
    split
    · next hpoint => exact hk.turns (quiet_of_point hpoint nofun) (turned_captureInit hk hpoint)
    · next hpoint => exact hk.turns (quiet_of_point hpoint nofun) (turned_captureWrite hk.unsent)
    · next hpoint => exact hk.turns (quiet_of_point hpoint nofun) (turned_captureDeinit hk.unsent)
    · next hpoint => exact hk.turns (quiet_of_point hpoint nofun) (turned_captureAbort hk.unsent)
    · exact keeps_of_not_fails hk.still rfl
  | run picks =>
    unfold Capture.step
    dsimp only
    split
    · exact keeps_of_not_fails hk.still rfl
    · next input hrequest =>
      apply hk.onChannel
      split
      · next hready =>
        rcases legal_of_request hrequest with ⟨piece, remaining, data, hpoint, rfl⟩ |
          ⟨hquiet, hcontrol⟩
        · exact .write hpoint hready
        · exact .control hquiet hcontrol hready
      · exact .go picks
  | giveUp ret =>
    unfold Capture.step
    dsimp only
    split
    · exact keeps_of_not_fails hk.still rfl
    · exact hk.onChannel (.giveUp ret)
  | clock nowUs =>
    unfold Capture.step
    dsimp only
    split
    · next hpoint => exact hk.turns (quiet_of_point hpoint nofun) (turned_clockRead hk hpoint nowUs)
    · exact keeps_of_not_fails hk.still rfl
  | polled rc =>
    unfold Capture.step
    dsimp only
    split
    · next hpoint =>
      have hfits := hk.fits
      unfold State.Fits at hfits
      rw [hpoint] at hfits
      have hquiet := quiet_of_point hpoint (nofun : Point.polls.Quiet)
      split
      · exact hk.turns hquiet (turned_goes_plain hk.unsent hfits rfl)
      · exact hk.turns hquiet (turned_goes_plain hk.unsent ⟨hfits, .inl rfl⟩ rfl)
    · exact keeps_of_not_fails hk.still rfl

/-- **Every run keeps the tally.** -/
theorem Keeping.run (hk : Keeping setup size lost h s) (inputs : List Input) :
    ∃ lost', Keeping setup size lost' (h ++ (machine setup).history s inputs)
        ((machine setup).run s inputs) ∧
      (lost' = 0 ↔
        lost = 0 ∧ (machine setup).Throughout (fun s input => ¬Torn setup s input) s inputs) := by
  induction inputs generalizing s h lost with
  | nil => exact ⟨lost, by rwa [Machine.history_nil, append_nil], (and_iff_left trivial).symm⟩
  | cons input inputs ih =>
    obtain ⟨lost₁, hstep, hzero₁⟩ := hk.step input
    obtain ⟨lost₂, hrun, hzero₂⟩ := ih hstep
    refine ⟨lost₂, ?_, ?_⟩
    · rw [Machine.history_cons, ← append_assoc]
      exact hrun
    · rw [hzero₂, hzero₁, Machine.Throughout, and_assoc]
      rfl

end Brickwright.Capture
