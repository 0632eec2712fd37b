import Brickwright.Bits.Words
import Brickwright.Lump.Sync.Basic

/-!
# What holds while a port synchronizes

`Syncing` is kept by everything that arrives: it is what the published information rests on. `Heard`
says that an engine came from another one by parsing given frames, with anything that was not
accepted as a frame received in between. The frames of a session are read off its bytes alone
(`infoFrames`), and so is the one kind of transmission whose mode count comes out as zero
(`announcesNoMode`).
-/

namespace Brickwright.Lump

/-! ## The invariant -/

/-- The engine between a session's reset and its publication. `session` is the last session that the
ring has had. -/
structure Syncing (session : UInt64) (e : Engine) : Prop where
  type : e.infoFlags &&& ifCmdType ≠ 0 → typeIdMin ≤ e.info.typeId ∧ e.info.typeId ≤ typeIdMax
  modes : e.info.numModes ≤ maxModes
  baud : baudFallback ≤ e.newBaudRate ∧ e.newBaudRate ≤ baudMax
  unsynced : e.info.flags &&& flagSynced = 0
  inactive : e.dq.active = false
  session : e.dq.session = session
  slots : e.pendingSelect = false ∧ e.pendingSend = false

theorem syncing_resetSession (e : Engine) : Syncing e.dq.session e.resetSession where
  type h := absurd (show (0 : UInt32) &&& ifCmdType = 0 by decide) h
  modes := show (0 : UInt8) ≤ maxModes by decide
  baud := show baudFallback ≤ baudInitial ∧ baudInitial ≤ baudMax by decide
  unsynced := show (0 : UInt8) &&& flagSynced = 0 by decide
  inactive := rfl
  session := rfl
  slots := ⟨rfl, rfl⟩

theorem numModes_le (e : Engine) : e.numModes ≤ maxModes := by
  unfold Engine.numModes
  split
  · exact UInt8.le_refl _
  next h => exact UInt8.not_lt.mp h

theorem push_inactive {q : DataQueue} (h : q.active = false) (frame : DataFrame) :
    (q.push frame).2 = q := by
  unfold DataQueue.push
  split
  · rfl
  · rfl

variable {session : UInt64} {e : Engine}

/-- **Whatever arrives keeps the invariant.** -/
theorem Syncing.effect {p : Parsed} (hs : Syncing session e)
    (heffect : Effect e p) : Syncing session p.engine := by
  -- Only `CMD TYPE` touches its own flag.
  have hkeep : ∀ {c : UInt32}, c &&& ifCmdType = 0 → (e.infoFlags ||| c) &&& ifCmdType ≠ 0 →
      typeIdMin ≤ e.info.typeId ∧ e.info.typeId ≤ typeIdMax := by
    intro c hc h
    rw [UInt32.or_and_of_disjoint hc] at h
    exact hs.type h
  cases heffect with
  | none | ack | badName | detail | extMode => exact { hs with }
  | version | name | lastFormat => exact { hs with type := hkeep (by decide) }
  | type hmin hmax => exact { hs with type := fun _ => ⟨hmin, hmax⟩ }
  | modes => exact { hs with type := hkeep (by decide), modes := numModes_le e }
  | speed hmin hmax => exact { hs with type := hkeep (by decide), baud := ⟨hmin, hmax⟩ }
  | format =>
    refine { hs with type := fun h => hkeep (c := ifInfoFormat) (by decide) ?_ }
    rwa [UInt32.and_not_and_of_disjoint (by decide)] at h
  | data =>
    -- DATA before the publication finds no session in the ring.
    have hqueue := push_inactive hs.inactive
    refine { hs with unsynced := ?_, inactive := ?_, session := ?_ }
    · exact (UInt8.or_and_of_disjoint (by decide)).trans hs.unsynced
    · exact (congrArg DataQueue.active (hqueue _)).trans hs.inactive
    · exact (congrArg DataQueue.session (hqueue _)).trans hs.session

theorem Syncing.parse (hs : Syncing session e) :
    Syncing session (parseMsg e).engine :=
  hs.effect (parse_effect e)

theorem Syncing.store (hs : Syncing session e) (r : Recv) :
    Syncing session (e.store r) :=
  { hs with }

/-! ## The frames of a session -/

/-- `e'` is what becomes of `e` after it has parsed the frames. In between it may have received what
is not a frame, and the thread may have noted its state and its error count. -/
inductive Heard : Engine → List Frame → Engine → Prop where
  | nil (e : Engine) : Heard e [] e
  | stored {e e' : Engine} {frames : List Frame} (r : Recv) (h : Heard (e.store r) frames e') :
      Heard e frames e'
  | noted {e e' : Engine} {frames : List Frame} (state : EngineState) (errCount : UInt8)
      (h : Heard { e with state := state, errCount := errCount } frames e') : Heard e frames e'
  | frame {e e' : Engine} {frames : List Frame} (f : Frame)
      (hret : (parseMsg (e.receive f)).ret ≠ -EILSEQ)
      (h : Heard (parseMsg (e.receive f)).engine frames e') : Heard e (f :: frames) e'

/-- A frame that carries a checksum, and a valid one. -/
def Frame.Checked (f : Frame) : Prop :=
  1 < f.bytes.length ∧
    xorChecksum (f.bytes.take (f.bytes.length - 1)) = f.bytes.getD (f.bytes.length - 1) 0

/-- The flag was set by a checked frame among those heard. -/
def SetByFrame (e : Engine) (frames : List Frame) (e' : Engine) (flag : UInt32) : Prop :=
  ∃ pre f post a, frames = pre ++ f :: post ∧ f.Checked ∧ Heard e pre a ∧
    a.infoFlags &&& flag = 0 ∧ (parseMsg (a.receive f)).engine.infoFlags &&& flag ≠ 0 ∧
    Heard (parseMsg (a.receive f)).engine post e'

theorem infoFlags_sys {f : Frame} (htype : f.type = .sys) :
    (parseMsg (e.receive f)).engine.infoFlags = e.infoFlags := by
  rw [parseMsg_receive, htype]
  split
  · rfl
  · simp only [Engine.parseSys]
    split
    · split
      · rfl
      · rfl
    · rfl

theorem checked_of_ne_sys {f : Frame} (htype : f.type ≠ .sys) : f.Checked := by
  have hlen : 1 < f.bytes.length := by
    rw [f.length_eq, totalSize]
    split
    next hsys => exact absurd hsys htype
    · omega
    · omega
    · omega
  exact ⟨hlen, f.checksum hlen⟩

/-- **A flag that is set was set by a frame.** -/
theorem Heard.setByFrame {e e' : Engine} {frames : List Frame} {flag : UInt32}
    (h : Heard e frames e') (hclear : e.infoFlags &&& flag = 0) (hset : e'.infoFlags &&& flag ≠ 0) :
    SetByFrame e frames e' flag := by
  induction h with
  | nil => exact absurd hclear hset
  | stored r h ih =>
    obtain ⟨pre, f, post, a, heq, hf, hpre, hrest⟩ := ih hclear hset
    exact ⟨pre, f, post, a, heq, hf, .stored r hpre, hrest⟩
  | noted state errCount h ih =>
    obtain ⟨pre, f, post, a, heq, hf, hpre, hrest⟩ := ih hclear hset
    exact ⟨pre, f, post, a, heq, hf, .noted state errCount hpre, hrest⟩
  | @frame e e' frames f hret h ih =>
    -- The flag is set by this frame, or by a later one.
    by_cases hnow : (parseMsg (e.receive f)).engine.infoFlags &&& flag = 0
    · obtain ⟨pre, g, post, a, heq, hg, hpre, hrest⟩ := ih hnow hset
      exact ⟨f :: pre, g, post, a, by rw [heq]; rfl, hg, .frame f hret hpre, hrest⟩
    · have hchecked : f.Checked := by
        apply checked_of_ne_sys
        intro htype
        rw [infoFlags_sys htype] at hnow
        exact hnow hclear
      exact ⟨[], f, frames, e, rfl, hchecked, .nil e, hclear, hnow, h⟩

/-- The frame with these bytes, if they are one. -/
def Frame.ofBytes? (bytes : List UInt8) : Option Frame :=
  if h : bytes.length = totalSize (bytes.headD 0) ∧ bytes.length ≤ rxMsgBytes ∧ checksumHolds bytes
  then some ⟨bytes, h.1, h.2.1, h.2.2⟩ else none

theorem Frame.ofBytes?_bytes (f : Frame) : Frame.ofBytes? f.bytes = some f := by
  rw [ofBytes?, dif_pos ⟨f.length_eq, f.fits, f.checksum⟩]

/-- The frames that the INFO loop parses: those before the `SYS ACK`, or before a read fails. -/
def infoFrames (reads : List Read) : List Frame :=
  match _h : recvMsg reads with
  | none => []
  | some r =>
    if r.ret = -EBADMSG ∨ r.ret = -EILSEQ then infoFrames r.rest
    else if r.ret < 0 then []
    else
      match Frame.ofBytes? r.stored with
      | none => []
      | some f => if f.header = sysAck then [] else f :: infoFrames r.rest
termination_by reads.length
decreasing_by all_goals exact length_recvMsg _h

/-- The reads of the INFO loop: those after the probe and the resynchronization. -/
def infoReads : List Read → List Read
  | [] => []
  | _ :: reads =>
    match resync 0 reads with
    | none => []
    | some s => s.rest

structure LoopOutcome (e : Engine) (reads : List Read) (o : Outcome) : Prop where
  ret : o.ret < 0 ∨ o.ret = OK
  syncing : ∀ session, Syncing session e → Syncing session o.engine
  acked : o.ret = OK →
    Heard e (infoFrames reads) o.engine ∧ o.engine.infoFlags &&& ifRequired = ifRequired

variable {reads : List Read}

theorem infoFrames_skip {r : Recv} (h : recvMsg reads = some r)
    (hbad : r.ret = -EBADMSG ∨ r.ret = -EILSEQ) : infoFrames reads = infoFrames r.rest := by
  rw [infoFrames]
  split
  next hnone =>
    rw [h] at hnone
    cases hnone
  next r' hsome =>
    obtain rfl : r = r' := Option.some.inj (h.symm.trans hsome)
    rw [if_pos hbad]

theorem infoFrames_frame {r : Recv} {f : Frame} (h : recvMsg reads = some r)
    (hok : r.ret = OK) (hstored : r.stored = f.bytes) :
    infoFrames reads = if f.header = sysAck then [] else f :: infoFrames r.rest := by
  rw [infoFrames]
  split
  next hnone =>
    rw [h] at hnone
    cases hnone
  next r' hsome =>
    obtain rfl : r = r' := Option.some.inj (h.symm.trans hsome)
    rw [hok, if_neg (by decide), if_neg (by decide), hstored, Frame.ofBytes?_bytes]

/-- **The INFO loop**, by the recursion of the loop itself. -/
theorem infoLoop_outcome {o : Outcome} (h : infoLoop e reads = some o) : LoopOutcome e reads o := by
  fun_induction infoLoop e reads generalizing o with
  | case1 e reads hrecv => cases h
  | case2 e reads r hrecv hbad ih =>
    obtain ⟨hret, hsyncing, hacked⟩ := ih h
    refine ⟨hret, fun session hs => hsyncing session (hs.store r), fun hok => ⟨?_, (hacked hok).2⟩⟩
    rw [infoFrames_skip hrecv hbad]
    exact .stored r (hacked hok).1
  | case3 e reads r hrecv hbad hneg =>
    cases h
    refine ⟨.inl hneg, fun session hs => hs.store r, fun hok => ?_⟩
    exact absurd hneg (by rw [show r.ret = OK from hok]; decide)
  | case4 e reads r hrecv hbad hneg hack hflags =>
    cases h
    exact ⟨.inl eilseq_neg, fun session hs => hs.store r,
      fun hok => absurd hok (ne_of_lt eilseq_neg)⟩
  | case5 e reads r hrecv hbad hneg hack hflags =>
    cases h
    obtain ⟨hok, f, hstored, hwhole⟩ := (recvMsg_cases hrecv).resolve_left hneg
    have hheader : f.header = sysAck := by
      rwa [e.store_eq_receive hstored hwhole, Engine.rx_receive_zero] at hack
    refine ⟨.inr rfl, fun session hs => hs.store r, fun _ => ⟨?_, not_not.mp hflags⟩⟩
    rw [infoFrames_frame hrecv hok hstored, if_pos hheader]
    exact .stored r (.nil _)
  | case6 e reads r hrecv hbad hneg hack p =>
    rename_i hp
    cases h
    refine ⟨.inl (lt_of_eq_of_lt hp eilseq_neg), fun session hs => (hs.store r).parse,
      fun hok => ?_⟩
    exact absurd (hp.symm.trans hok) (by decide)
  | case7 => cases h
  | case8 e reads r hrecv hbad hneg hack p hp o' hsome =>
    rename_i ih
    cases h
    obtain ⟨hret, hsyncing, hacked⟩ := ih hsome
    refine ⟨hret, fun session hs => hsyncing session (hs.store r).parse,
      fun hok => ⟨?_, (hacked hok).2⟩⟩
    obtain ⟨hrecvOk, f, hstored, hwhole⟩ := (recvMsg_cases hrecv).resolve_left hneg
    have hstore := e.store_eq_receive hstored hwhole
    have hret : (parseMsg (e.receive f)).ret ≠ -EILSEQ := by
      rw [← hstore]
      exact hp
    have hheard : Heard (parseMsg (e.receive f)).engine (infoFrames r.rest) o'.engine := by
      rw [← hstore]
      exact (hacked hok).1
    rw [hstore, Engine.rx_receive_zero] at hack
    rw [infoFrames_frame hrecv hrecvOk hstored, if_neg hack]
    exact .frame f hret hheard

/-! ## The number of modes -/

/-- A `CMD MODES` that reaches the parser under the adder `a`. -/
def Frame.IsModes (f : Frame) (a : UInt8) : Prop :=
  f.type = .cmd ∧ f.cmd = cmdModes ∧ cmdModes + a < maxModes

/-- A long `CMD MODES` whose count of extended modes wraps to zero. -/
def Frame.AnnouncesNoMode (f : Frame) (a : UInt8) : Prop :=
  f.IsModes a ∧ f.bytes.length > 5 ∧ f.bytes.getD 3 0 = 0xff

/-- Some frame of a transmission that starts under the adder `a` announces no mode. -/
def announcesNoMode : UInt8 → List Frame → Prop
  | _, [] => False
  | a, f :: frames => f.AnnouncesNoMode a ∨ announcesNoMode (nextAdder a f) frames

instance (f : Frame) (a : UInt8) : Decidable (f.IsModes a) := inferInstanceAs (Decidable (_ ∧ _))

instance (f : Frame) (a : UInt8) : Decidable (f.AnnouncesNoMode a) :=
  inferInstanceAs (Decidable (_ ∧ _))

instance decidableAnnouncesNoMode : ∀ (a : UInt8) (frames : List Frame),
    Decidable (announcesNoMode a frames)
  | _, [] => inferInstanceAs (Decidable False)
  | a, f :: frames =>
    have := decidableAnnouncesNoMode (nextAdder a f) frames
    inferInstanceAs (Decidable (f.AnnouncesNoMode a ∨ announcesNoMode (nextAdder a f) frames))

/-- Nothing but the first `CMD MODES` writes the number of modes. -/
theorem Effect.modes_kept {p : Parsed} (heffect : Effect e p)
    (hnot : e.infoFlags &&& ifCmdModes = 0 → ¬ (msgType (e.rx 0) = .cmd ∧
      msgCmd (e.rx 0) = cmdModes ∧ cmdModes + e.extMode < maxModes)) :
    p.engine.info.numModes = e.info.numModes ∧
      p.engine.infoFlags &&& ifCmdModes = e.infoFlags &&& ifCmdModes := by
  cases heffect with
  | none | ack | badName | detail | extMode | data => exact ⟨rfl, rfl⟩
  | type | version | speed | name | lastFormat =>
    exact ⟨rfl, UInt32.or_and_of_disjoint (by decide)⟩
  | modes hmode htype hcmd hfirst =>
    rw [hcmd] at hmode
    exact absurd ⟨htype, hcmd, hmode⟩ (hnot hfirst)
  | format =>
    refine ⟨rfl, ?_⟩
    show (e.infoFlags ||| ifInfoFormat) &&& ~~~(ifInfoName ||| ifInfoFormat) &&& ifCmdModes = _
    rw [UInt32.and_not_and_of_disjoint (by decide), UInt32.or_and_of_disjoint (by decide)]

section modes

variable {e e' : Engine} {f : Frame} {frames : List Frame}

theorem parse_modes (hmodes : f.IsModes e.extMode) :
    parseMsg (e.receive f) = .quiet (e.receive f).parseModes := by
  obtain ⟨htype, hcmd, hwin⟩ := hmodes
  rw [parseMsg_receive, Engine.prologue_receive e f (by rw [htype]; nofun), htype, hcmd,
    if_neg (UInt8.not_le.mpr hwin)]
  simp only [Engine.parseCmd, Engine.rx_receive_zero, show msgCmd f.header = cmdModes from hcmd]
  rfl

/-- What a `CMD MODES` that does not end the session has done. -/
structure ModesAccepted (e : Engine) (f : Frame) (p : Parsed) : Prop where
  first : e.infoFlags &&& ifCmdModes = 0
  cmd2 : (e.receive f).cmd2 ≤ 7
  numModes : p.engine.info.numModes = (e.receive f).numModes
  noted : p.engine.infoFlags &&& ifCmdModes ≠ 0

theorem parse_modes_accepted (hmodes : f.IsModes e.extMode)
    (hret : (parseMsg (e.receive f)).ret ≠ -EILSEQ) :
    ModesAccepted e f (parseMsg (e.receive f)) := by
  rw [parse_modes hmodes] at hret ⊢
  unfold Engine.parseModes at hret ⊢
  split at hret
  · exact absurd rfl hret
  next hfirst =>
    split at hret
    · exact absurd rfl hret
    next hcmd2 =>
      rw [if_neg hfirst, if_neg hcmd2]
      exact ⟨not_not.mp hfirst, UInt8.not_lt.mp hcmd2, rfl,
        UInt32.or_self_and_ne_zero (by decide)⟩

/-- The number of modes that a `CMD MODES` sets is zero only when its count wraps. -/
theorem numModes_eq_zero_iff (hmodes : f.IsModes e.extMode) (hcmd2 : (e.receive f).cmd2 ≤ 7) :
    (e.receive f).numModes = 0 ↔ f.AnnouncesNoMode e.extMode := by
  have hcap : (e.receive f).numModes = 0 ↔ (e.receive f).announcedModes = 0 := by
    unfold Engine.numModes
    split
    next hlarge =>
      refine ⟨fun h => absurd h (by decide), fun h => ?_⟩
      rw [h] at hlarge
      exact absurd hlarge (by decide)
    · exact Iff.rfl
  -- The count is one more than the byte, so only 255 wraps.
  have hsucc : ∀ b : UInt8, b + 1 = 0 ↔ b = 0xff := by
    intro b
    rw [← UInt8.toNat_inj, ← UInt8.toNat_inj, UInt8.toNat_add]
    have := b.toNat_lt
    show (b.toNat + 1) % 256 = 0 ↔ b.toNat = 255
    omega
  rw [hcap, Engine.announcedModes, Engine.rxMsgSize_receive]
  split
  next hlong =>
    rw [Engine.rx_receive e f (by omega), hsucc]
    exact ⟨fun h => ⟨hmodes, hlong, h⟩, fun h => h.2.2⟩
  next hshort =>
    rw [hsucc]
    refine ⟨fun h => ?_, fun h => absurd h.2.1 hshort⟩
    rw [h] at hcmd2
    exact absurd hcmd2 (by decide)

/-- Behind the first `CMD MODES` the number stays, and a second one would have ended the session. -/
theorem Heard.modes_kept (h : Heard e frames e') (hset : e.infoFlags &&& ifCmdModes ≠ 0) :
    e'.info.numModes = e.info.numModes ∧ ¬ announcesNoMode e.extMode frames := by
  induction h with
  | nil => exact ⟨rfl, id⟩
  | stored r h ih => exact ih hset
  | noted state errCount h ih => exact ih hset
  | @frame e e' frames f hret h ih =>
    have hnot : ¬ f.IsModes e.extMode :=
      fun hmodes => hset (parse_modes_accepted hmodes hret).first
    obtain ⟨hnum, hflag⟩ := (parse_effect (e.receive f)).modes_kept fun hclear => absurd hclear hset
    obtain ⟨hnum', hrest⟩ := ih (by rw [hflag]; exact hset)
    have hadder : (parseMsg (e.receive f)).engine.extMode = nextAdder e.extMode f :=
      extMode_hear e f
    rw [hadder] at hrest
    refine ⟨hnum'.trans hnum, ?_⟩
    rintro (hbad | hbad)
    · exact hnot hbad.1
    · exact hrest hbad

/-- **The number of modes is zero exactly when a frame announced none.** -/
theorem Heard.modes_eq_zero_iff (h : Heard e frames e') (hclear : e.infoFlags &&& ifCmdModes = 0)
    (hset : e'.infoFlags &&& ifCmdModes ≠ 0) :
    e'.info.numModes = 0 ↔ announcesNoMode e.extMode frames := by
  induction h with
  | nil => exact absurd hclear hset
  | stored r h ih => exact ih hclear hset
  | noted state errCount h ih => exact ih hclear hset
  | @frame e e' frames f hret h ih =>
    -- The first `CMD MODES` decides, and the rest of the frames keeps what it sets.
    by_cases hmodes : f.IsModes e.extMode
    · have haccepted := parse_modes_accepted hmodes hret
      obtain ⟨hnum, hrest⟩ := h.modes_kept haccepted.noted
      have hadder : (parseMsg (e.receive f)).engine.extMode = nextAdder e.extMode f :=
        extMode_hear e f
      rw [hadder] at hrest
      rw [hnum, haccepted.numModes, announcesNoMode, or_iff_left hrest]
      exact numModes_eq_zero_iff hmodes haccepted.cmd2
    · have hkept := (parse_effect (e.receive f)).modes_kept fun _ => by
        rw [Engine.rx_receive_zero]
        exact hmodes
      rw [announcesNoMode, or_iff_right fun hbad => hmodes hbad.1]
      have hadder : (parseMsg (e.receive f)).engine.extMode = nextAdder e.extMode f :=
        extMode_hear e f
      rw [← hadder]
      exact ih (hkept.2.trans hclear) hset

end modes

end Brickwright.Lump
