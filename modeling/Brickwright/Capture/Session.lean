import Brickwright.Capture.Keeping

/-!
# The session of a run

What `capture_init` has announced is the size of the head and of the records (`Told`). Only the task
ends its session, and it does so once the head has been sent; so `capture_deinit` does not find the
channel idle before (`Live`).
-/

namespace Brickwright.Capture

open Btcap
open List

variable (setup : Setup)

/-- The size that the channel is told is that of the head and the records. -/
def Announced (s : State) : Prop :=
  (sessionMeta setup s.handle.staged).totalBytes.toNat =
    s.handle.staged.head.length + setup.recordCount.toNat * setup.schema.recordSize.toNat

def Ended (h : List Entry) : Prop := ∃ rc, .returned .abort rc ∈ h ∨ .returned .deinit rc ∈ h

structure Told (h : List Entry) (s : State) : Prop where
  reads : ∀ descs, s.point = .reads descs → checkSchema setup.schema = .ok descs
  failing : ∀ rc, s.point = .fails rc → rc < 0
  early : ¬s.point.Late → .returned .init 0 ∉ h
  announced : s.point = .opens ∨ s.point = .registers ∨ .returned .init 0 ∈ h → Announced setup s
  ended : .returned .init 0 ∈ h → s.handle.fd = none → Ended h

structure Live (s : State) : Prop where
  writerOpen : s.holds = true → s.channel.shared.writerOpen = true
  underway : s.handle.fd.isSome → s.handle.headerSent = false → Underway s.channel.shared
  clean : s.point = .closes .deinit 0 → s.handle.headerSent = true

variable {setup} {size lost : Nat} {h : List Entry} {s : State} {r : State × List Entry}

theorem told_boot : Told setup [] (boot size) :=
  ⟨nofun, nofun, fun _ => nofun, (by rintro (h | h | h) <;> cases h), nofun⟩

theorem Ended.append {h' : List Entry} (hended : Ended h) : Ended (h ++ h') := by
  obtain ⟨rc, habort | hdeinit⟩ := hended
  · exact ⟨rc, .inl (mem_append_left h' habort)⟩
  · exact ⟨rc, .inr (mem_append_left h' hdeinit)⟩

theorem live_boot : Live (boot size) := ⟨nofun, nofun, nofun⟩

/-! ## Turns -/

/-- Behind `capture_init` what has been announced stays, and so does the descriptor until the
end. -/
theorem Told.late (ht : Told setup h s) (hstaged : r.1.handle.staged = s.handle.staged)
    (hlate : r.1.point.Late) (htold : .returned .init 0 ∉ r.2)
    (hfd : r.1.handle.fd = s.handle.fd ∨ Ended (h ++ r.2)) : Told setup (h ++ r.2) r.1 where
  reads descs hpoint := by
    rw [hpoint] at hlate
    exact hlate.elim
  failing rc hpoint := by
    rw [hpoint] at hlate
    exact hlate.elim
  early hnot := absurd hlate hnot
  announced hafter := by
    unfold Announced
    rw [hstaged]
    rcases hafter with hpoint | hpoint | hmem
    · rw [hpoint] at hlate
      exact hlate.elim
    · rw [hpoint] at hlate
      exact hlate.elim
    · exact ht.announced (.inr (.inr ((mem_append.mp hmem).resolve_right htold)))
  ended hmem hnone := by
    rcases hfd with hsame | hended
    · rw [hsame] at hnone
      exact (ht.ended ((mem_append.mp hmem).resolve_right htold) hnone).append
    · exact hended

theorem Told.turn (ht : Told setup h s) (hlater : Later s r) : Told setup (h ++ r.2) r.1 :=
  ht.late hlater.staged hlater.on.late hlater.told (.inl hlater.fd)

theorem Live.turn (hl : Live s) (hlater : Later s r) : Live r.1 where
  writerOpen hholds := by
    rw [hlater.channel]
    exact hl.writerOpen (hlater.holds hholds)
  underway hfd hheader := by
    rw [hlater.channel]
    exact hl.underway (hlater.fd ▸ hfd) (hlater.header hheader)
  clean hpoint := by
    have hon := hlater.on
    rw [hpoint] at hon
    exact absurd rfl (hon rfl)

variable {s' : State}

theorem Told.channel (ht : Told setup h s) (hpoint : s'.point = s.point)
    (hhandle : s'.handle = s.handle) (i : Nat) (notes : List Note) :
    Told setup (h ++ notes.map (.channel i)) s' := by
  have hmem : .returned .init 0 ∈ h ++ notes.map (.channel i) ↔ .returned .init 0 ∈ h := by
    simp
  refine ⟨?_, ?_, ?_, ?_, ?_⟩
  · rw [hpoint]
    exact ht.reads
  · rw [hpoint]
    exact ht.failing
  · rw [hpoint, hmem]
    exact ht.early
  · rw [hpoint, hmem, Announced, hhandle]
    exact ht.announced
  · rw [hmem, hhandle]
    exact fun hinit hnone => (ht.ended hinit hnone).append

theorem Told.refused (ht : Told setup h s) (hearly : ¬s.point.Late) {rc : Int} (hrc : rc < 0)
    (hpoint : s'.point = .idle) : Told setup (h ++ [.returned .init rc]) s' := by
  have hnot : .returned .init 0 ∉ h ++ [.returned .init rc] := by
    rw [mem_append, mem_singleton]
    rintro (hmem | heq)
    · exact ht.early hearly hmem
    · cases heq
      exact absurd hrc (by decide)
  refine ⟨?_, ?_, fun _ => hnot, ?_, fun hmem => absurd hmem hnot⟩
  · rw [hpoint]
    exact nofun
  · rw [hpoint]
    exact nofun
  · rw [hpoint]
    rintro (h | h | h)
    · cases h
    · cases h
    · exact absurd h hnot

theorem neg_of_checkSchema {rc : Int} (h : checkSchema setup.schema = .error rc) : rc < 0 := by
  unfold checkSchema at h
  split at h
  · cases h
    decide
  · split at h
    · cases h
      decide
    · split at h
      · cases h
        decide
      · cases h

theorem told_captureInit (ht : Told setup h s) (hpoint : s.point = .start) :
    Told setup (h ++ (captureInit setup s).2) (captureInit setup s).1 := by
  have hearly : ¬s.point.Late := by
    rw [hpoint]
    exact id
  unfold captureInit
  split
  · next rc hcheck => exact ht.refused hearly (neg_of_checkSchema hcheck) rfl
  · next descs hcheck =>
    rw [State.goes, append_nil]
    refine ⟨?_, by rintro _ ⟨⟩, fun _ => ht.early hearly, ?_,
      fun hmem => absurd hmem (ht.early hearly)⟩
    · rintro _ ⟨⟩
      exact hcheck
    · rintro (h | h | h)
      · cases h
      · cases h
      · exact absurd h (ht.early hearly)

theorem told_clockRead (ht : Told setup h s) {descs : List FieldDesc}
    (hpoint : s.point = .reads descs) (nowUs : UInt64) :
    Told setup (h ++ (clockRead setup s descs nowUs).2) (clockRead setup s descs nowUs).1 := by
  have hearly : ¬s.point.Late := by
    rw [hpoint]
    exact id
  unfold clockRead
  dsimp only
  split
  · exact ht.refused hearly (by decide) rfl
  · next hfits =>
    rw [State.goes, append_nil]
    refine ⟨by rintro _ ⟨⟩, by rintro _ ⟨⟩, fun _ => ht.early hearly, fun _ => ?_,
      fun hmem => absurd hmem (ht.early hearly)⟩
    refine Eq.trans ?_ (totalBytes_stage (ht.reads descs hpoint) setup.recordCount nowUs)
    exact UInt32.toNat_ofNat_of_lt' (Nat.lt_succ_of_le (Nat.le_of_not_lt hfits))

/-- A step of the call keeps what the channel has been told of the size. -/
theorem told_resume (ht : Told setup h s) (hfits : s.Fits) (rc state : Int) :
    Told setup (h ++ (s.resume rc state).2) (s.resume rc state).1 := by
  have hstill : Told setup (h ++ ((s, []) : State × List Entry).2)
      ((s, []) : State × List Entry).1 := by
    rw [append_nil]
    exact ht
  unfold State.Fits at hfits
  unfold State.resume
  cases hpoint : s.point with
  | start | reads descs | idle | polls => exact hstill
  | opens =>
    have hearly : ¬s.point.Late := by
      rw [hpoint]
      exact id
    dsimp only
    split
    · next hneg => exact ht.refused hearly hneg rfl
    · rw [State.goes, append_nil]
      exact ⟨by rintro _ ⟨⟩, by rintro _ ⟨⟩, fun _ => ht.early hearly,
        fun _ => ht.announced (.inl hpoint), fun hmem => absurd hmem (ht.early hearly)⟩
  | registers =>
    have hearly : ¬s.point.Late := by
      rw [hpoint]
      exact id
    have htold := ht.announced (.inr (.inl hpoint))
    dsimp only
    split
    · next hneg =>
      rw [State.goes, append_nil]
      refine ⟨by rintro _ ⟨⟩, ?_, fun _ => ht.early hearly, fun _ => htold,
        fun hmem => absurd hmem (ht.early hearly)⟩
      rintro _ ⟨⟩
      exact hneg
    · exact ⟨by rintro _ ⟨⟩, by rintro _ ⟨⟩, fun hnot => absurd trivial hnot, fun _ => htold,
        fun _ h => by cases h⟩
  | fails rc' =>
    have hearly : ¬s.point.Late := by
      rw [hpoint]
      exact id
    exact ht.refused hearly (ht.failing rc' hpoint) rfl
  | pushes piece remaining data =>
    rw [hpoint] at hfits
    exact ht.turn (later_wrote hfits.1)
  | closes op rc' =>
    rw [hpoint] at hfits
    have htold : Entry.returned .init 0 ∉ (s.closed.returns op rc').2 := by
      rw [State.returns, mem_singleton]
      intro heq
      cases heq
      rcases hfits.2 with hop | hop <;> cases hop
    have hlate : (s.closed.returns op rc').1.point.Late := trivial
    have hmem : Entry.returned op rc' ∈ h ++ (s.closed.returns op rc').2 :=
      mem_append_right h (mem_singleton_self _)
    have hended : Ended (h ++ (s.closed.returns op rc').2) := by
      rcases hfits.2 with rfl | rfl
      · exact ⟨rc', .inr hmem⟩
      · exact ⟨rc', .inl hmem⟩
    exact ht.late rfl hlate htold (.inr hended)
  | finalises =>
    dsimp only
    split
    · exact ht.late rfl trivial not_mem_nil (.inl rfl)
    · exact ht.late rfl trivial not_mem_nil (.inl rfl)
  | queries =>
    dsimp only [State.queried]
    split
    · exact ht.late rfl trivial not_mem_nil (.inl rfl)
    · split
      · exact ht.late rfl trivial not_mem_nil (.inl rfl)
      · split
        · exact ht.late rfl trivial not_mem_nil (.inl rfl)
        · exact ht.late rfl trivial not_mem_nil (.inl rfl)
  | aborts => exact ht.late rfl trivial not_mem_nil (.inl rfl)

theorem Told.onChannel (ht : Told setup h s) (hfits : s.Fits) (input : Btcap.Input) :
    Told setup (h ++ (onChannel setup s input).2) (onChannel setup s input).1 := by
  have hmoved : Told setup (h ++ (noted setup s input).map (.channel setup.me))
      (moved setup s input) := by
    apply ht.channel
    · rfl
    · rfl
  cases hanswer : answer s.point (noted setup s input) with
  | none =>
    rw [onChannel_of_none hanswer]
    exact hmoved
  | some rc =>
    rw [onChannel_of_some hanswer, ← append_assoc]
    exact told_resume hmoved hfits rc _

theorem Told.still (ht : Told setup h s) :
    Told setup (h ++ ((s, []) : State × List Entry).2) ((s, []) : State × List Entry).1 := by
  rw [append_nil]
  exact ht

/-- **Every step keeps to what has been announced.** -/
theorem Told.step (ht : Told setup h s) (hfits : s.Fits) (input : Input) :
    Told setup (h ++ (step setup s input).2) (step setup s input).1 := by
  cases input with
  | other i input =>
    unfold Capture.step
    dsimp only
    split
    · exact ht.still
    · apply ht.channel
      · rfl
      · rfl
  | call op =>
    unfold Capture.step
    dsimp only
    split
    · next hpoint => exact told_captureInit ht hpoint
    · exact ht.turn later_captureWrite
    · exact ht.turn later_captureDeinit
    · exact ht.turn later_captureAbort
    · exact ht.still
  | run picks =>
    unfold Capture.step
    dsimp only
    split
    · exact ht.still
    · exact ht.onChannel hfits _
  | giveUp ret =>
    unfold Capture.step
    dsimp only
    split
    · exact ht.still
    · exact ht.onChannel hfits _
  | clock nowUs =>
    unfold Capture.step
    dsimp only
    split
    · next hpoint => exact told_clockRead ht hpoint nowUs
    · exact ht.still
  | polled rc =>
    unfold Capture.step
    dsimp only
    split
    · split
      · exact ht.late rfl trivial nofun (.inl rfl)
      · exact ht.late rfl trivial nofun (.inl rfl)
    · exact ht.still

/-! ## The channel of a session -/

section Answers

variable {c : Chardev} {picks : Picks} {rc : Int}

theorem writerOpen_of_open
    (h : answer .opens (body c .ready (.openFile true false)).2.1 = some rc) (hrc : ¬rc < 0) :
    (body c .ready (.openFile true false)).1.writerOpen = true := by
  revert h
  unfold body
  split
  · exact nofun
  · unfold Chardev.openFile
    dsimp only
    rw [if_neg (by decide), if_pos rfl]
    split
    · intro h
      have hneg : (-EBUSY : Int) < 0 := by decide
      cases h
      exact absurd hneg hrc
    · exact fun _ => rfl

theorem underway_of_register {m : SessionMeta}
    (h : answer .registers (body c .ready (.ioctl .writer (.registerSession m) picks)).2.1 =
      some rc)
    (hrc : ¬rc < 0) :
    Underway (body c .ready (.ioctl .writer (.registerSession m) picks)).1 := by
  revert h
  unfold body
  split
  · exact nofun
  · next hfree =>
    have hopen : c.writerOpen = true := by
      by_contra hnot
      exact hfree (.inr hnot)
    show answer .registers (c.registerSession .writer m picks).2 = some rc →
      Underway (c.registerSession .writer m picks).1
    unfold Chardev.registerSession
    split
    · intro h
      have hneg : (-EBUSY : Int) < 0 := by decide
      cases h
      exact absurd hneg hrc
    · exact fun _ => ⟨hopen, nofun, rfl⟩

theorem body_control_cases {input : Btcap.Input}
    (h : (∃ wantWrite wantRead, input = .openFile wantWrite wantRead) ∨
      (∃ fd picks, input = .closeFile fd picks) ∨ ∃ fd cmd picks, input = .ioctl fd cmd picks) :
    (body c .ready input).1 = c ∨ ∃ rc, Note.returns rc ∈ (body c .ready input).2.1 := by
  rcases h with ⟨wantWrite, wantRead, rfl⟩ | ⟨fd, picks, rfl⟩ | ⟨fd, cmd, picks, rfl⟩
  · unfold body
    split
    · exact .inl rfl
    · exact .inr ⟨_, mem_singleton_self _⟩
  · unfold body
    split
    · exact .inl rfl
    · exact .inr ⟨0, mem_singleton_self _⟩
  · unfold body
    split
    · exact .inl rfl
    · right
      show ∃ rc, Note.returns rc ∈ (c.ioctl fd cmd picks).2
      cases cmd with
      | registerSession m =>
        dsimp only [Chardev.ioctl, Chardev.registerSession]
        split
        · exact ⟨_, mem_singleton_self _⟩
        · split
          · exact ⟨_, mem_singleton_self _⟩
          · exact ⟨0, mem_cons_of_mem _ (mem_singleton_self _)⟩
      | finalizeSession =>
        dsimp only [Chardev.ioctl, Chardev.finalizeSession]
        split
        · exact ⟨_, mem_singleton_self _⟩
        · split
          · exact ⟨_, mem_singleton_self _⟩
          · exact ⟨0, mem_cons_of_mem _ (mem_singleton_self _)⟩
      | abortSession =>
        dsimp only [Chardev.ioctl, Chardev.abortSession]
        split
        · exact ⟨0, mem_singleton_self _⟩
        · exact ⟨0, mem_singleton_self _⟩
      | getSessionMeta =>
        dsimp only [Chardev.ioctl]
        split
        · exact ⟨_, mem_singleton_self _⟩
        · exact ⟨0, mem_cons_of_mem _ (mem_singleton_self _)⟩
      | queryState => exact ⟨0, mem_cons_of_mem _ (mem_singleton_self _)⟩
      | other => exact ⟨_, mem_singleton_self _⟩

theorem answer_ne_none {point : Point} {notes : List Note} (hquiet : point.Quiet)
    (hmem : Note.returns rc ∈ notes) : answer point notes ≠ none := by
  unfold answer
  split
  · next heq => exact absurd rfl (hquiet _ _ _)
  · intro hnone
    cases List.findSome?_eq_none_iff.mp hnone _ hmem

theorem of_query
    (h : answer .queries (body c .ready (.ioctl .writer .queryState picks)).2.1 = some rc) :
    (body c .ready (.ioctl .writer .queryState picks)).1 = c ∧
      stateOf (body c .ready (.ioctl .writer .queryState picks)).2.1 = c.state.code := by
  revert h
  unfold body
  split
  · exact nofun
  · exact fun _ => ⟨rfl, rfl⟩

end Answers

variable {input : Btcap.Input}

theorem Live.moved (hl : Live s) {i : Nat}
    (hinput : s.holds = true → ¬Ends input) (hpoint : s'.point = s.point)
    (hhandle : s'.handle = s.handle) (hchannel : s'.channel = threads.step s.channel i input) :
    Live s' := by
  have hholds : s'.holds = s.holds := by rw [State.holds, hpoint, hhandle, State.holds]
  refine ⟨?_, ?_, ?_⟩
  · rw [hholds, hchannel]
    intro hheld
    apply writerOpen_body (hl.writerOpen hheld)
    rintro picks rfl
    exact hinput hheld trivial
  · rw [hhandle, hchannel]
    intro hfd hheader
    exact (hl.underway hfd hheader).body (hinput (holds_of_fd hfd))
  · rw [hpoint, hhandle]
    exact hl.clean

theorem live_early (hholds : s.holds = false) (hclean : s.point ≠ .closes .deinit 0) : Live s := by
  have hnot : ∀ {p : Prop}, s.holds = true → p := fun h => absurd (hholds.symm.trans h) (by decide)
  exact ⟨hnot, fun hfd => hnot (holds_of_fd hfd), fun h => absurd h hclean⟩

theorem Live.of_shared (hl : Live s) (hpoint : s'.point = s.point) (hhandle : s'.handle = s.handle)
    (hshared : s'.channel.shared = s.channel.shared) : Live s' := by
  have hholds : s'.holds = s.holds := by rw [State.holds, hpoint, hhandle, State.holds]
  refine ⟨?_, ?_, ?_⟩
  · rw [hholds, hshared]
    exact hl.writerOpen
  · rw [hhandle, hshared]
    exact hl.underway
  · rw [hpoint, hhandle]
    exact hl.clean

theorem live_idle (hpoint : s.point = .idle) (hfd : s.handle.fd = none) : Live s := by
  apply live_early
  · rw [State.holds, hpoint, hfd]
    rfl
  · rw [hpoint]
    exact nofun

theorem Live.push (hl : Live s) (hk : Keeping setup size lost h s)
    (hends : ¬Ends input) {piece : Piece} {remaining : List UInt8} {data : Buffer}
    (hpoint : s.point = .pushes piece remaining data) : Live (onChannel setup s input).1 := by
  have hfits := hk.fits
  unfold State.Fits at hfits
  rw [hpoint] at hfits
  have hmoved : Live (Capture.moved setup s input) := hl.moved (fun _ => hends) rfl rfl rfl
  cases hanswer : answer s.point (noted setup s input) with
  | none =>
    rw [onChannel_of_none hanswer]
    exact hmoved
  | some rc =>
    have hpoint' : (Capture.moved setup s input).point = .pushes piece remaining data := hpoint
    have hresume : (Capture.moved setup s input).resume rc (stateOf (noted setup s input)) =
        (Capture.moved setup s input).wrote piece remaining data rc := by
      unfold State.resume
      rw [hpoint']
    have hlater : Later (Capture.moved setup s input)
        ((Capture.moved setup s input).wrote piece remaining data rc) := later_wrote hfits.1
    rw [onChannel_of_some hanswer, hresume]
    show Live ((Capture.moved setup s input).wrote piece remaining data rc).1
    exact hmoved.turn hlater

theorem Live.resume (hl : Live s) (hk : Keeping setup size lost h s) {picks : Picks}
    (hrequest : request setup s picks = some input) (hquiet : s.point.Quiet)
    {rc : Int} (hanswer : answer s.point (noted setup s input) = some rc) :
    Live ((Capture.moved setup s input).resume rc (stateOf (noted setup s input))).1 := by
  have hready : s.channel.pc setup.me = .ready := call_eq_none.mp (hk.call_of_quiet hquiet)
  have hfits := hk.fits
  have hshared : (Capture.moved setup s input).channel.shared =
      (body s.channel.shared .ready input).1 := by
    show (body s.channel.shared (s.channel.pc setup.me) input).1 = _
    rw [hready]
  have hwriter : s.holds = true → (∀ picks, input ≠ .closeFile .writer picks) →
      (Capture.moved setup s input).channel.shared.writerOpen = true :=
    fun hheld hclose => writerOpen_body (hl.writerOpen hheld) hclose
  unfold State.Fits at hfits
  unfold request at hrequest
  unfold State.resume
  rw [noted, hready] at hanswer ⊢
  cases hpoint : s.point with
  | start | reads descs | idle | polls =>
    rw [hpoint] at hrequest
    cases hrequest
  | pushes piece remaining data => exact absurd hpoint (hquiet _ _ _)
  | opens =>
    have hpoint' : (Capture.moved setup s input).point = .opens := hpoint
    rw [hpoint] at hrequest hfits hanswer
    cases hrequest
    rw [hpoint']
    dsimp only
    split
    · exact live_idle rfl hfits.1
    · next hrc =>
      refine ⟨fun _ => ?_, fun hfd => ?_, by rintro ⟨⟩⟩
      · exact hshared ▸ writerOpen_of_open hanswer hrc
      · have hopen : s.handle.fd.isSome := hfd
        rw [hfits.1] at hopen
        cases hopen
  | registers =>
    have hpoint' : (Capture.moved setup s input).point = .registers := hpoint
    have hheld : s.holds = true := by rw [State.holds, hpoint]
    rw [hpoint] at hrequest hfits hanswer
    cases hrequest
    rw [hpoint']
    dsimp only
    split
    · refine ⟨fun _ => hwriter hheld (by rintro _ ⟨⟩), fun hfd => ?_, by rintro ⟨⟩⟩
      have hopen : s.handle.fd.isSome := hfd
      rw [hfits.1] at hopen
      cases hopen
    · next hrc =>
      have hunderway := hshared ▸ underway_of_register hanswer hrc
      exact ⟨fun _ => hunderway.writerOpen, fun _ _ => hunderway, by rintro ⟨⟩⟩
  | fails rc' =>
    have hpoint' : (Capture.moved setup s input).point = .fails rc' := hpoint
    rw [hpoint] at hfits
    rw [hpoint']
    exact live_idle rfl hfits.1
  | finalises =>
    have hpoint' : (Capture.moved setup s input).point = .finalises := hpoint
    rw [hpoint] at hrequest hfits
    cases hrequest
    have hopen := hwriter (holds_of_fd hfits.1) (by rintro _ ⟨⟩)
    have hunsent : ∀ {p : Prop}, s.handle.headerSent = false → p :=
      fun hnot => absurd (hfits.2.symm.trans hnot) (by decide)
    rw [hpoint']
    dsimp only
    split
    · exact ⟨fun _ => hopen, fun _ => hunsent, fun _ => hfits.2⟩
    · exact ⟨fun _ => hopen, fun _ => hunsent, fun _ => hfits.2⟩
  | queries =>
    have hpoint' : (Capture.moved setup s input).point = .queries := hpoint
    rw [hpoint] at hrequest hfits hanswer
    cases hrequest
    obtain ⟨hsame, hstate⟩ := of_query hanswer
    rw [hsame] at hshared
    have hopen := hshared ▸ hl.writerOpen (holds_of_fd hfits)
    have hunderway := hl.underway hfits
    rw [← hshared] at hunderway
    rw [hpoint', hstate]
    dsimp only [State.queried]
    split
    · next hneg =>
      refine ⟨fun _ => hopen, fun _ => hunderway, ?_⟩
      rintro ⟨⟩
      exact absurd hneg (by decide)
    · split
      · next hidle =>
        refine ⟨fun _ => hopen, fun _ => hunderway, fun _ => ?_⟩
        -- an idle channel has no session of an open writer, unless the head has been sent
        by_contra hnot
        have hbusy := (hl.underway hfits (Bool.eq_false_of_not_eq_true hnot)).busy
        apply hbusy
        cases hchannel : s.channel.shared.state with
        | idle => rfl
        | _ =>
          rw [hchannel] at hidle
          cases hidle
      · split
        · exact ⟨fun _ => hopen, fun _ => hunderway, by rintro ⟨⟩⟩
        · exact ⟨fun _ => hopen, fun _ => hunderway, by rintro ⟨⟩⟩
  | aborts =>
    have hpoint' : (Capture.moved setup s input).point = .aborts := hpoint
    rw [hpoint] at hrequest hfits
    cases hrequest
    have hmoved : Live (Capture.moved setup s (.ioctl .writer .abortSession picks)) :=
      hl.moved (fun _ => id) rfl rfl rfl
    have hlater : Later (Capture.moved setup s (.ioctl .writer .abortSession picks))
        ((Capture.moved setup s (.ioctl .writer .abortSession picks)).goes
          (.closes .abort (if rc < 0 then rc else 0))) := later_goes (by rintro ⟨⟩) hfits
    rw [hpoint']
    exact hmoved.turn hlater
  | closes op rc' =>
    have hpoint' : (Capture.moved setup s input).point = .closes op rc' := hpoint
    rw [hpoint']
    exact live_idle rfl rfl

theorem Live.control (hl : Live s) (hk : Keeping setup size lost h s) {picks : Picks}
    (hrequest : request setup s picks = some input)
    (hquiet : s.point.Quiet) : Live (onChannel setup s input).1 := by
  have hready : s.channel.pc setup.me = .ready := call_eq_none.mp (hk.call_of_quiet hquiet)
  cases hanswer : answer s.point (noted setup s input) with
  | some rc =>
    rw [onChannel_of_some hanswer]
    exact hl.resume hk hrequest hquiet hanswer
  | none =>
    rw [onChannel_of_none hanswer]
    apply hl.of_shared
    · rfl
    · rfl
    · show (body s.channel.shared (s.channel.pc setup.me) input).1 = _
      rw [noted] at hanswer
      rw [hready] at hanswer ⊢
      rcases legal_of_request hrequest with ⟨piece, remaining, data, hpoint, -⟩ | ⟨-, hcontrol⟩
      · exact absurd hpoint (hquiet _ _ _)
      · rcases body_control_cases hcontrol with hsame | ⟨rc, hreturns⟩
        · exact hsame
        · exact absurd hanswer (answer_ne_none hquiet hreturns)

theorem Live.gaveUp (hl : Live s) (hk : Keeping setup size lost h s) (hquiet : s.point.Quiet)
    (ret : Int) : Live (onChannel setup s (.giveUp ret)).1 := by
  have hready : s.channel.pc setup.me = .ready := call_eq_none.mp (hk.call_of_quiet hquiet)
  have hbody := body_ready_of_go (c := s.channel.shared) (.inr ⟨ret, rfl⟩)
  have hnotes : noted setup s (.giveUp ret) = [] := by rw [noted, hready, hbody]
  have hanswer : answer s.point (noted setup s (.giveUp ret)) = none := by
    rw [hnotes]
    unfold answer
    split <;> rfl
  rw [onChannel_of_none hanswer]
  apply hl.of_shared
  · rfl
  · rfl
  · show (body s.channel.shared (s.channel.pc setup.me) _).1 = _
    rw [hready, hbody]

theorem usesWriter_of_ends (h : Ends input) : usesWriter input = true := by
  unfold Ends at h
  split at h
  · rfl
  · rfl
  · rfl
  · exact h.elim

theorem Keeping.fd_of_early (hk : Keeping setup size lost h s)
    (hearly : s.point = .start ∨ ∃ descs, s.point = .reads descs) : s.handle.fd = none := by
  have hfits := hk.fits
  unfold State.Fits at hfits
  rcases hearly with hpoint | ⟨descs, hpoint⟩
  · rw [hpoint] at hfits
    exact hfits.1
  · rw [hpoint] at hfits
    exact hfits.1

/-- **The session is the task's own.** -/
theorem Live.step (hl : Live s) (hk : Keeping setup size lost h s) (input : Input) :
    Live (step setup s input).1 := by
  cases input with
  | other i input =>
    unfold Capture.step
    dsimp only
    split
    · exact hl
    · next hfree =>
      -- another task ends the session only with the writer, and that is taken
      have hinput : s.holds = true → ¬Ends input :=
        fun hheld hends => hfree (.inr ⟨hheld, usesWriter_of_ends hends⟩)
      exact hl.moved hinput rfl rfl rfl
  | call op =>
    unfold Capture.step
    dsimp only
    split
    · next hpoint =>
      have hfd := hk.fd_of_early (.inl hpoint)
      unfold captureInit
      split
      · exact live_idle rfl hfd
      · exact live_early (Option.isSome_eq_false_iff.mpr (Option.isNone_iff_eq_none.mpr hfd)) nofun
    · exact hl.turn later_captureWrite
    · exact hl.turn later_captureDeinit
    · exact hl.turn later_captureAbort
    · exact hl
  | run picks =>
    unfold Capture.step
    dsimp only
    split
    · exact hl
    · next input hrequest =>
      rcases legal_of_request hrequest with ⟨piece, remaining, data, hpoint, rfl⟩ | ⟨hquiet, -⟩
      · apply hl.push hk _ hpoint
        split
        · exact id
        · exact id
      · rw [if_pos (call_eq_none.mp (hk.call_of_quiet hquiet))]
        exact hl.control hk hrequest hquiet
  | giveUp ret =>
    unfold Capture.step
    dsimp only
    split
    · exact hl
    · by_cases hpush : ∃ piece remaining data, s.point = .pushes piece remaining data
      · obtain ⟨piece, remaining, data, hpoint⟩ := hpush
        exact hl.push hk id hpoint
      · exact hl.gaveUp hk (fun piece remaining data heq => hpush ⟨_, _, _, heq⟩) ret
  | clock nowUs =>
    unfold Capture.step
    dsimp only
    split
    · next descs hpoint =>
      have hfd := hk.fd_of_early (.inr ⟨descs, hpoint⟩)
      unfold clockRead
      dsimp only
      split
      · exact live_idle rfl hfd
      · exact live_early (Option.isSome_eq_false_iff.mpr (Option.isNone_iff_eq_none.mpr hfd)) nofun
    · exact hl
  | polled rc =>
    unfold Capture.step
    dsimp only
    split
    · next hpoint =>
      have hfits := hk.fits
      unfold State.Fits at hfits
      rw [hpoint] at hfits
      split
      · exact hl.turn (later_goes trivial hfits)
      · next hrc =>
        apply hl.turn (later_goes _ hfits)
        -- the code that a failed poll closes with is not 0
        intro _ hzero
        split at hzero
        · cases hzero
        · omega
    · exact hl

end Brickwright.Capture
