import Brickwright.Lump.Sync.Invariant

/-!
# How a synchronization ends

`lumpSync_cases` lists the outcomes: refused with the invariant intact, or ended in `finishSync`
with an engine that has heard the frames of its byte stream and has every required flag.
`finishSync_cases` says what that publishes.
-/

namespace Brickwright.Lump

/-! ## The resynchronization -/

variable {reads : List Read}

theorem receiveType_cases {r : Recv} (h : receiveType reads = some r) :
    r.ret < 0 ∨ r.whole = true ∧ ∃ type checksum, r.stored = [typeHeader, type, checksum] := by
  unfold receiveType at h
  split at h
  · cases h
  · split at h
    next hneg =>
      cases h
      exact .inl hneg
    · split at h
      · cases h
      next bytes ret rest hread =>
        cases h
        by_cases hret : ret < 0
        · exact .inl hret
        · have hlen := (readBytes_spec hread).2.2 hret
          match bytes, hlen with
          | [type, checksum], _ => exact .inr ⟨decide_eq_true hret, type, checksum, rfl⟩

/-- A `CMD TYPE` whose checksum holds is a frame. -/
def typeFrame (type checksum : UInt8) (h : xorChecksum [typeHeader, type] = checksum) : Frame where
  bytes := [typeHeader, type, checksum]
  length_eq := show 3 = totalSize typeHeader by decide
  fits := show 3 ≤ 35 by decide
  checksum := fun _ => h

theorem resync_cases {errCount : UInt8} {s : Resync} (h : resync errCount reads = some s) :
    s.ret < 0 ∨ ∃ (pre : List Recv) (t : Frame), t.header = typeHeader ∧
      ∀ e : Engine, s.attempts.foldl Engine.store e = (pre.foldl Engine.store e).receive t := by
  fun_induction resync errCount reads generalizing s with
  | case1 errCount reads hrecv => cases h
  | case2 errCount reads r hrecv hneg =>
    cases h
    exact .inl hneg
  | case3 errCount reads r hrecv hneg hbad hmany =>
    cases h
    exact .inl eilseq_neg
  | case4 => cases h
  | case5 errCount reads r hrecv hneg hbad hfew s' hsome ih =>
    cases h
    refine (ih hsome).imp id ?_
    rintro ⟨pre, t, ht, hstored⟩
    exact ⟨r :: pre, t, ht, fun e => hstored (e.store r)⟩
  | case6 errCount reads r hrecv hneg hgood =>
    cases h
    obtain ⟨hwhole, type, checksum, hstored⟩ := (receiveType_cases hrecv).resolve_left hneg
    have hsum : xorChecksum [typeHeader, type] = checksum := by
      rw [hstored, badType, not_or, not_not] at hgood
      exact hgood.2
    exact .inr ⟨[], typeFrame type checksum hsum, rfl, fun e => e.store_eq_receive hstored hwhole⟩

theorem Heard.stores {e e' : Engine} {frames : List Frame} (attempts : List Recv)
    (h : Heard (attempts.foldl Engine.store e) frames e') : Heard e frames e' := by
  induction attempts generalizing e with
  | nil => exact h
  | cons r attempts ih => exact .stored r (ih h)

variable {session : UInt64} {e : Engine}

theorem Syncing.stores (hs : Syncing session e)
    (attempts : List Recv) : Syncing session (attempts.foldl Engine.store e) := by
  induction attempts generalizing e with
  | nil => exact hs
  | cons r attempts ih => exact ih (hs.store r)

/-! ## The outcomes -/

/-- The engine and the frames that a synchronization publishes. -/
structure Complete (session : UInt64) (start : Engine) (frames : List Frame)
    (e : Engine) : Prop where
  syncing : Syncing session e
  heard : ∃ t : Frame, t.header = typeHeader ∧ Heard start (t :: frames) e
  required : e.infoFlags &&& ifRequired = ifRequired

theorem syncFrames_cases {io : SyncIo} {o : Outcome}
    (h : syncFrames io reads e = some o) (hs : Syncing session e) :
    (o.ret < 0 ∧ Syncing session o.engine) ∨
      ∃ s e' calls rest, resync 0 reads = some s ∧ Complete session e (infoFrames s.rest) e' ∧
        o = finishSync io e' calls rest := by
  simp only [syncFrames] at h
  split at h
  · cases h
  next s hresync =>
    have hstored : Syncing session
        { s.attempts.foldl Engine.store e with errCount := s.errCount } :=
      { hs.stores s.attempts with }
    split at h
    next hneg =>
      cases h
      exact .inl ⟨hneg, hstored⟩
    next hret =>
      split at h
      next hneg =>
        cases h
        exact .inl ⟨hneg, hstored.parse⟩
      next hparse =>
        split at h
        · cases h
        next o' hloop =>
          have houtcome := infoLoop_outcome hloop
          have hsyncing := houtcome.syncing session { hstored.parse with }
          split at h
          next hneg =>
            cases h
            exact .inl ⟨hneg, hsyncing⟩
          next hloopRet =>
            cases h
            obtain ⟨hheard, hflags⟩ := houtcome.acked (houtcome.ret.resolve_left hloopRet)
            obtain ⟨pre, t, ht, hfold⟩ := (resync_cases hresync).resolve_left hret
            rw [hfold e] at hparse hheard
            refine .inr ⟨s, o'.engine, _, _, hresync, ⟨hsyncing, ⟨t, ht, ?_⟩, hflags⟩, rfl⟩
            -- The last attempt is the first frame heard, behind what the others have stored.
            refine .stores pre (.noted (pre.foldl Engine.store e).state s.errCount (.frame t ?_ ?_))
            · intro hbad
              exact hparse (lt_of_eq_of_lt hbad eilseq_neg)
            · exact .noted .info _ hheard

/-- **Every outcome of a synchronization**: refused with the invariant intact, or finished. -/
theorem lumpSync_cases {io : SyncIo} {o : Outcome}
    (h : lumpSync io reads e = some o) (hs : Syncing session e) :
    (o.ret < 0 ∧ Syncing session o.engine) ∨
      ∃ e' calls rest, Complete session e (infoFrames (infoReads reads)) e' ∧
        o = finishSync io e' calls rest := by
  have hstart : Syncing session { e with state := .syncing } := { hs with }
  -- The probe only decides about the baud rate.
  have hframes : ∀ {probe : Read} {reads : List Read},
      syncFrames io reads { e with state := .syncing } = some o →
      (o.ret < 0 ∧ Syncing session o.engine) ∨
        ∃ e' calls rest, Complete session e (infoFrames (infoReads (probe :: reads))) e' ∧
          o = finishSync io e' calls rest := by
    intro probe reads hsync
    refine (syncFrames_cases hsync hstart).imp id ?_
    rintro ⟨s, e', calls, rest, hresync, ⟨hsyncing, ⟨t, ht, hheard⟩, hflags⟩, ho⟩
    have hreads : infoReads (probe :: reads) = s.rest := by rw [infoReads, hresync]
    rw [hreads]
    exact ⟨e', calls, rest, ⟨hsyncing, ⟨t, ht, .noted .syncing e.errCount hheard⟩, hflags⟩, ho⟩
  simp only [lumpSync] at h
  split at h
  next hneg =>
    cases h
    exact .inl ⟨hneg, hstart⟩
  · split at h
    · cases h
    next probe reads =>
      split at h
      · split at h
        next hneg =>
          cases h
          exact .inl ⟨hneg, hstart⟩
        · exact hframes h
      · split at h
        next code _ =>
          cases h
          exact .inl ⟨code.property, hstart⟩
        · exact hframes h

/-- A published engine differs from the one that heard the last frame in these respects only. -/
structure PublishedFrom (e e' : Engine) : Prop where
  info : e'.info = { e.info with flags := e.info.flags ||| flagSynced, baud := e.newBaudRate }
  infoFlags : e'.infoFlags = e.infoFlags
  active : e'.dq.active = true
  room : e.dq.session ≠ 0xffffffffffffffff
  session : e'.dq.session = e.dq.session + 1

theorem autoSelect_frame (e : Engine) :
    e.autoSelect.info = e.info ∧ e.autoSelect.infoFlags = e.infoFlags ∧ e.autoSelect.dq = e.dq := by
  unfold Engine.autoSelect
  split
  · exact ⟨rfl, rfl, rfl⟩
  · exact ⟨rfl, rfl, rfl⟩

theorem finishSync_cases (io : SyncIo) (hs : Syncing session e)
    (calls : List Call) (rest : List Read) :
    ((finishSync io e calls rest).ret < 0 ∧
        Syncing session (finishSync io e calls rest).engine) ∨
      (finishSync io e calls rest).ret = OK ∧
        PublishedFrom e (finishSync io e calls rest).engine := by
  unfold finishSync
  split
  next hneg => exact .inl ⟨hneg, hs⟩
  · split
    next hneg => exact .inl ⟨hneg.2, hs⟩
    · by_cases hfull : e.dq.session = 0xffffffffffffffff
      · have hbegin : e.dq.begin = (-EOVERFLOW, { e.dq.invalidate with dropped := 0 }) := by
          exact if_pos hfull
        rw [hbegin, if_pos (show -EOVERFLOW < 0 by decide)]
        exact .inl ⟨show -EOVERFLOW < 0 by decide, { hs with inactive := rfl }⟩
      · have hbegin : e.dq.begin = (0, { e.dq.invalidate with
            dropped := 0, session := e.dq.session + 1, active := true }) := by
          exact if_neg hfull
        rw [hbegin, if_neg (show ¬ (0 : Int) < 0 by decide)]
        obtain ⟨hinfo, hflags, hdq⟩ := autoSelect_frame
          { ({ e with dq := { e.dq.invalidate with
              dropped := 0, session := e.dq.session + 1, active := true } }).publish with
            state := .data }
        exact .inr ⟨rfl, hinfo, hflags, congrArg DataQueue.active hdq, hfull,
          congrArg DataQueue.session hdq⟩

/-!
## What a synchronization publishes

A history of a port is a run of `port`: earlier synchronizations, received frames, requests and
consumers in any order. Its outputs are the sessions that it has opened, and `session_port` says
that each is above the ones before it.

`sync_contract` is the result: for every history and every byte stream, what an error leaves and
what a success publishes.
-/

open List

/-! ### Histories of a port -/

inductive PortEvent where
  /-- The thread resets the session and synchronizes. -/
  | attempt (io : SyncIo) (reads : List Read)
  /-- It calls `lump_recv_msg` in the DATA loop, and parses what it has received. -/
  | receive (reads : List Read)
  /-- It takes the posted requests. -/
  | drain
  /-- It ends the session. -/
  | endSession
  | post (r : Request)
  | pop
  | attach (onData onSync : Bool)

/-- The port, answering with the session that it opens. -/
def port : Machine Engine PortEvent (Option UInt64) where
  step e
    | .attempt io reads =>
      match lumpSync io reads e.resetSession with
      | none => (e, none)
      | some o => (o.engine, if o.ret = OK then some o.engine.dq.session else none)
    | .receive reads => (e.listen reads, none)
    | .drain => (e.take, none)
    | .endSession =>
      ({ e with dq := e.dq.invalidate, state := .err, info := { e.info with flags := 0 } }, none)
    | .post r => (e.post r, none)
    | .pop => ({ e with dq := e.dq.pop.2 }, none)
    | .attach onData onSync => ({ e with onData := onData, onSync := onSync }, none)

def sessions (e : Engine) (events : List PortEvent) : List UInt64 :=
  (port.trace e events).filterMap (·.2)

theorem session_push (q : DataQueue) (frame : DataFrame) :
    (q.push frame).2.session = q.session := by
  unfold DataQueue.push
  split
  · rfl
  · split
    · rfl
    · split
      · rfl
      · rfl

theorem session_pop (q : DataQueue) : q.pop.2.session = q.session := by
  unfold DataQueue.pop
  split
  · rfl
  · rfl

theorem session_parse (e : Engine) : (parseMsg e).engine.dq.session = e.dq.session := by
  have heffect := parse_effect e
  generalize parseMsg e = p at heffect
  cases heffect with
  | data => exact session_push _ _
  | _ => rfl

theorem session_listen (e : Engine) (reads : List Read) :
    (e.listen reads).dq.session = e.dq.session := by
  unfold Engine.listen
  split
  · rfl
  next r _ =>
    split
    · exact session_parse (e.store r)
    · rfl

theorem session_post (e : Engine) (r : Request) : (e.post r).dq.session = e.dq.session := by
  cases r with
  | select mode => rfl
  | send mode buf needSelect => cases needSelect <;> rfl

/-- **A synchronization that succeeds opens a session of its own**, and one that fails opens
none. -/
theorem session_lumpSync {io : SyncIo} {reads : List Read} {e : Engine} {o : Outcome}
    (h : lumpSync io reads e.resetSession = some o) :
    (o.ret < 0 ∧ o.engine.dq.session = e.dq.session) ∨
      o.ret = OK ∧ e.dq.session < o.engine.dq.session := by
  rcases lumpSync_cases h (syncing_resetSession e) with ⟨hneg, hs⟩ | ⟨e', calls, rest, hc, rfl⟩
  · exact .inl ⟨hneg, hs.session⟩
  · rcases finishSync_cases io hc.syncing calls rest with ⟨hneg, hs⟩ | ⟨hok, hpub⟩
    · exact .inl ⟨hneg, hs.session⟩
    · refine .inr ⟨hok, ?_⟩
      -- The session number is not the largest one, so its successor does not wrap.
      have hroom := hpub.room
      rw [hpub.session, hc.syncing.session]
      rw [hc.syncing.session] at hroom
      have hlt := e.dq.session.toNat_lt
      have hne : e.dq.session.toNat ≠ 0xffffffffffffffff := fun h => hroom (UInt64.toNat_inj.mp h)
      show e.dq.session.toNat < (e.dq.session.toNat + 1) % 18446744073709551616
      omega

theorem session_port (e : Engine) (event : PortEvent) :
    e.dq.session ≤ (port.step e event).1.dq.session ∧
      ∀ s, (port.step e event).2 = some s → s = (port.step e event).1.dq.session := by
  have hnone : ∀ {s : UInt64} {e' : Engine}, (none : Option UInt64) = some s → s = e'.dq.session :=
    fun h => nomatch h
  cases event with
  | attempt io reads =>
    cases hsync : lumpSync io reads e.resetSession with
    | none =>
      have hstep : port.step e (.attempt io reads) = (e, none) := by simp only [port, hsync]
      rw [hstep]
      exact ⟨UInt64.le_refl _, fun s => hnone⟩
    | some o =>
      have hstep : port.step e (.attempt io reads)
          = (o.engine, if o.ret = OK then some o.engine.dq.session else none) := by
        simp only [port, hsync]
      rw [hstep]
      rcases session_lumpSync hsync with ⟨hneg, hsame⟩ | ⟨hok, hlt⟩
      · have hret : o.ret ≠ OK := ne_of_lt hneg
        rw [if_neg hret]
        exact ⟨UInt64.le_of_eq hsame.symm, fun s => hnone⟩
      · rw [if_pos hok]
        exact ⟨UInt64.le_of_lt hlt, fun s hs => (Option.some.inj hs).symm⟩
  | receive reads => exact ⟨UInt64.le_of_eq (session_listen e reads).symm, fun s => hnone⟩
  | drain => exact ⟨UInt64.le_refl _, fun s => hnone⟩
  | endSession => exact ⟨UInt64.le_refl _, fun s => hnone⟩
  | post r => exact ⟨UInt64.le_of_eq (session_post e r).symm, fun s => hnone⟩
  | pop => exact ⟨UInt64.le_of_eq (session_pop _).symm, fun s => hnone⟩
  | attach onData onSync => exact ⟨UInt64.le_refl _, fun s => hnone⟩

/-- No session of a history is above the last one of the ring. -/
def NoneAbove (history : List (PortEvent × Option UInt64)) (e : Engine) : Prop :=
  ∀ x ∈ history, ∀ s, x.2 = some s → s ≤ e.dq.session

theorem sessions_le (e : Engine) (events : List PortEvent) :
    ∀ s ∈ sessions e events, s ≤ (port.run e events).dq.session := by
  have hstep : ∀ h t event, NoneAbove h t →
      NoneAbove (h ++ [(event, (port.step t event).2)]) (port.step t event).1 := by
    intro h t event hle x hx s hs
    obtain ⟨hmono, hopened⟩ := session_port t event
    rcases mem_append.mp hx with hx | hx
    · exact UInt64.le_trans (hle x hx s hs) hmono
    · obtain rfl := mem_singleton.mp hx
      exact UInt64.le_of_eq (hopened s hs)
  have hinv : NoneAbove (port.trace e events) (port.run e events) :=
    port.trace_invariant hstep (fun x hx => nomatch hx) events
  intro s hs
  obtain ⟨x, hx, hxs⟩ := mem_filterMap.mp hs
  exact hinv x hx s hxs

/-! ### The contract -/

def requiredFlags : List UInt32 := [ifCmdType, ifCmdModes, ifInfoName, ifInfoFormat]

/-- What a success promises about the public information and the ring, given the sessions before it,
the engine that it started from and what was read. -/
structure Published (earlier : List UInt64) (start : Engine) (reads : List Read) (e : Engine) :
    Prop where
  type_id : typeIdMin ≤ e.info.typeId ∧ e.info.typeId ≤ typeIdMax
  num_modes : 1 ≤ e.info.numModes ∧ e.info.numModes ≤ maxModes
  baud : baudFallback ≤ e.info.baud ∧ e.info.baud ≤ baudMax
  /-- Each flag was set by a frame, the first being the `CMD TYPE` of the resynchronization. -/
  flags : ∀ flag ∈ requiredFlags, ∃ t e', t.header = typeHeader ∧
    SetByFrame start (t :: infoFrames (infoReads reads)) e' flag ∧ e'.infoFlags = e.infoFlags
  active : e.dq.active = true
  session : ∀ s ∈ earlier, s < e.dq.session

structure Refused (e : Engine) : Prop where
  unsynced : e.info.flags &&& flagSynced = 0
  inactive : e.dq.active = false

theorem requiredFlag_mask {flag : UInt32} (h : flag ∈ requiredFlags) :
    ifRequired &&& flag = flag ∧ flag ≠ 0 := by
  simp only [requiredFlags, mem_cons, not_mem_nil, or_false] at h
  rcases h with rfl | rfl | rfl | rfl <;> decide

theorem announcesNoMode_type {t : Frame} (ht : t.header = typeHeader) (frames : List Frame) :
    announcesNoMode 0 (t :: frames) ↔ announcesNoMode 0 frames := by
  have hcmd : t.cmd = cmdType := by
    rw [Frame.cmd, ht]
    decide
  have hmodes : ¬ t.AnnouncesNoMode 0 := by
    rintro ⟨⟨-, hmodes, -⟩, -⟩
    rw [hcmd] at hmodes
    exact absurd hmodes (by decide)
  have hadder : nextAdder 0 t = 0 := by
    rw [nextAdder, if_neg]
    rintro ⟨⟨-, hext⟩, -⟩
    rw [hcmd] at hext
    exact absurd hext (by decide)
  rw [announcesNoMode, hadder, or_iff_right hmodes]

/-- **The contract of `lump_sync`**, in every history of a port and for every byte stream: an error
publishes nothing, and a success publishes what it promises unless the device has announced no
mode. -/
theorem sync_contract (onData onSync : Bool) (events : List PortEvent) (io : SyncIo)
    (reads : List Read) (o : Outcome)
    (h : lumpSync io reads (port.run (Engine.boot onData onSync) events).resetSession = some o) :
    (o.ret ≠ OK → Refused o.engine) ∧
      (o.ret = OK →
        (Published (sessions (Engine.boot onData onSync) events)
            (port.run (Engine.boot onData onSync) events).resetSession reads o.engine
          ↔ ¬ announcesNoMode 0 (infoFrames (infoReads reads)))) := by
  generalize hport : port.run (Engine.boot onData onSync) events = e at h
  have hearlier : ∀ s ∈ sessions (Engine.boot onData onSync) events, s ≤ e.dq.session := by
    rw [← hport]
    exact sessions_le _ events
  have hsession := session_lumpSync h
  rcases lumpSync_cases h (syncing_resetSession e) with ⟨hneg, hs⟩ | ⟨e', calls, rest, hc, rfl⟩
  · exact ⟨fun _ => ⟨hs.unsynced, hs.inactive⟩, fun hok => absurd hok (ne_of_lt hneg)⟩
  rcases finishSync_cases io hc.syncing calls rest with ⟨hneg, hs⟩ | ⟨hok, hpub⟩
  · exact ⟨fun _ => ⟨hs.unsynced, hs.inactive⟩, fun hok => absurd hok (ne_of_lt hneg)⟩
  -- A success: everything but the number of modes is promised in any case.
  refine ⟨fun hret => absurd hok hret, fun _ => ?_⟩
  obtain ⟨hs, ⟨t, ht, hheard⟩, hrequired⟩ := hc
  have hset : ∀ flag ∈ requiredFlags, e'.infoFlags &&& flag ≠ 0 := fun flag hflag =>
    UInt32.and_ne_zero_of_and_eq hrequired (requiredFlag_mask hflag).1 (requiredFlag_mask hflag).2
  have hzero : e'.info.numModes = 0 ↔ announcesNoMode 0 (infoFrames (infoReads reads)) := by
    have hclear : e.resetSession.infoFlags &&& ifCmdModes = 0 :=
      show (0 : UInt32) &&& ifCmdModes = 0 by decide
    exact (hheard.modes_eq_zero_iff hclear (hset _ (by decide))).trans (announcesNoMode_type ht _)
  constructor
  · intro hpublished hno
    have hone := hpublished.num_modes.1
    rw [hpub.info, show e'.info.numModes = 0 from hzero.mpr hno] at hone
    exact absurd hone (by decide)
  · intro hno
    have hpos : e'.info.numModes ≠ 0 := fun h => hno (hzero.mp h)
    refine ⟨?_, ⟨?_, ?_⟩, ?_, ?_, hpub.active, ?_⟩
    · rw [hpub.info]
      exact hs.type (hset _ (by decide))
    · rw [hpub.info]
      exact UInt8.not_lt.mp fun hlt => hpos (UInt8.lt_one_iff.mp hlt)
    · rw [hpub.info]
      exact hs.modes
    · rw [hpub.info]
      exact hs.baud
    · intro flag hflag
      have hclear : e.resetSession.infoFlags &&& flag = 0 := UInt32.zero_and
      exact ⟨t, e', ht, hheard.setByFrame hclear (hset flag hflag), hpub.infoFlags.symm⟩
    · intro s hs
      have hlt := (hsession.resolve_left fun h => absurd hok (ne_of_lt h.1)).2
      exact UInt64.lt_of_le_of_lt (hearlier s hs) hlt

def SyncIo.ok : SyncIo := ⟨0, 0, 0, 0⟩

/-- A device of two modes: `CMD TYPE`, `CMD MODES`, `CMD SPEED`, a name and a format for each
mode. -/
def twoModes : List Read :=
  [0x04, 0x40, 0x3d, 0x82, 0x49, 0x01, 0x01, 0xb6, 0x52, 0x00, 0xc2, 0x01, 0x00, 0x6e,
    0x91, 0x00, 0x4d, 0x4f, 0x44, 0x31, 0x19, 0x91, 0x80, 0x01, 0x00, 0x04, 0x00, 0xeb,
    0x90, 0x00, 0x4d, 0x4f, 0x44, 0x30, 0x19, 0x90, 0x80, 0x01, 0x00, 0x04, 0x00, 0xea,
    0x04].map .byte

/-- The device is synchronized a second time: the session is the second one. -/
theorem sync_contract_again :
    ∃ o, lumpSync .ok twoModes
        (port.run (Engine.boot true true) [.attempt .ok twoModes, .endSession]).resetSession =
          some o ∧
      o.ret = OK ∧ o.engine.dq.session = 2 ∧
      Published [1]
        (port.run (Engine.boot true true) [.attempt .ok twoModes, .endSession]).resetSession
        twoModes o.engine := by
  have hrun : (lumpSync .ok twoModes (port.run (Engine.boot true true)
      [.attempt .ok twoModes, .endSession]).resetSession).map
        (fun o => (o.ret, o.engine.dq.session)) = some (OK, 2) := by
    decide +kernel
  obtain ⟨o, ho, hret⟩ := Option.map_eq_some_iff.mp hrun
  obtain ⟨hok, hsession⟩ := Prod.mk.inj hret
  refine ⟨o, ho, hok, hsession, ?_⟩
  have hfirst : sessions (Engine.boot true true) [.attempt .ok twoModes, .endSession] = [1] := by
    decide +kernel
  rw [← hfirst]
  exact ((sync_contract true true [.attempt .ok twoModes, .endSession] .ok twoModes o ho).2 hok).mpr
    (by decide +kernel)

/-- A long `CMD MODES` whose extended count is 255, then a name and a format of mode 0. -/
def noModes : List Read :=
  [0x04, 0x40, 0x3d, 0x82, 0x51, 0x00, 0x00, 0xff, 0x00, 0x51,
    0x90, 0x00, 0x4d, 0x4f, 0x44, 0x30, 0x19, 0x90, 0x80, 0x01, 0x00, 0x04, 0x00, 0xea,
    0x04].map .byte

/-- **The count of modes wraps to zero**, and the device is published all the same. -/
theorem no_modes_published :
    ∃ o, lumpSync .ok noModes (Engine.boot true true).resetSession = some o ∧ o.ret = OK ∧
      o.engine.info.numModes = 0 ∧
      ¬ Published [] (Engine.boot true true).resetSession noModes o.engine := by
  have hrun : (lumpSync .ok noModes (Engine.boot true true).resetSession).map
      (fun o => (o.ret, o.engine.info.numModes)) = some (OK, 0) := by
    decide +kernel
  obtain ⟨o, ho, hret⟩ := Option.map_eq_some_iff.mp hrun
  obtain ⟨hok, hnum⟩ := Prod.mk.inj hret
  refine ⟨o, ho, hok, hnum, fun hpublished => ?_⟩
  have hone := hpublished.num_modes.1
  rw [hnum] at hone
  exact absurd hone (by decide)

end Brickwright.Lump
