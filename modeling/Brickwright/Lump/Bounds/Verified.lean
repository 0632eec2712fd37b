import Brickwright.Lump.Bounds.Parse
import Brickwright.Lump.Locality

/-!
# No byte stream leads the receiver out of its arrays

What `lump_recv_msg` stores is no longer than the receive buffer, since it refuses a header that
announces more; what it accepts is a whole frame, which is what the parser is promised. So every
loop around the two, whatever the device sends, makes every access it tries, and a run of a port
with checked accesses is the run without.
-/

namespace Brickwright.Lump

open Checked
open List

theorem Engine.Shaped.resetSession {e : Engine} (h : e.Shaped) : e.resetSession.Shaped :=
  ⟨h.rxMsg, DeviceInfo.shaped_zero⟩

theorem Engine.Shaped.store {e : Engine} (h : e.Shaped) {r : Recv}
    (hfits : r.stored.length ≤ rxMsgBytes) : (e.store r).Shaped := by
  refine ⟨?_, h.info⟩
  show (e.rxMsg.overlay 0 r.stored).length = _
  rw [length_overlay (by rw [h.rxMsg]; omega), h.rxMsg]

namespace Bounded

/-! ## Receiving -/

theorem readInto_eq {n i : Nat} {rx : List UInt8} (hroom : i + n ≤ rx.length) (reads : List Read) :
    readInto n i rx reads =
      some ((readBytes n reads).map fun r => (r.2.1, rx.overlay i r.1, r.2.2)) := by
  fun_induction readInto n i rx reads with
  | case1 i rx reads =>
    rw [readBytes, Option.map_some, overlay_nil]
  | case2 n i rx => rfl
  | case3 n i rx code reads =>
    rw [readBytes, Option.map_some, overlay_nil]
  | case4 n i rx b reads ih =>
    have hi : i < rx.length := by omega
    have hroom' : i + 1 + n ≤ (rx.set i b).length := by
      rw [length_set]
      omega
    rw [store_eq_some hi]
    show readInto n (i + 1) (rx.set i b) reads = _
    rw [ih _ hroom', readBytes]
    cases readBytes n reads with
    | none => rfl
    | some r =>
      show some (some (r.2.1, (rx.set i b).overlay (i + 1) r.1, r.2.2)) = _
      rw [overlay_set hi]
      rfl

theorem checksum_eq {rx : List UInt8} {len : Nat} (h : len ≤ rx.length) :
    checksum rx len = some (xorChecksum (rx.take len)) := by
  rw [checksum, span_eq_some (by omega)]
  rfl

theorem checkFrame_eq {rx bytes : List UInt8} (hroom : bytes.length ≤ rx.length) :
    checkFrame (rx.overlay 0 bytes) bytes.length =
      some (if ¬ checksumHolds bytes then -EILSEQ else OK) := by
  unfold checkFrame
  split
  next hlong =>
    have hlen : (rx.overlay 0 bytes).length = rx.length := length_overlay (by omega)
    have htake : (rx.overlay 0 bytes).take (bytes.length - 1) = bytes.take (bytes.length - 1) :=
      take_append_of_le_length (by rw [take_zero, nil_append]; omega)
    have hlast : (rx.overlay 0 bytes).getD (bytes.length - 1) 0 = bytes.getD (bytes.length - 1) 0 :=
      getD_append _ _ _ _ (by rw [take_zero, nil_append]; omega)
    rw [checksum_eq (by omega), load_eq_some (by omega) 0, htake, hlast]
    show (if _ then _ else _) = _
    unfold checksumHolds
    split
    next hne => rw [if_pos fun hall => hne (hall hlong)]
    next heq => rw [if_neg (not_not.mpr fun _ => not_not.mp heq)]
  next hshort =>
    have hholds : checksumHolds bytes := fun hlong => absurd hlong hshort
    rw [if_neg (not_not.mpr hholds)]

theorem store_part (e : Engine) (ret : Int) (bytes : List UInt8) (rest : List Read) :
    e.store ⟨ret, bytes, false, rest⟩ = { e with rxMsg := e.rxMsg.overlay 0 bytes } := rfl

variable {e : Engine}

/-- **The receiver makes every access it tries**, and leaves what the model stores. -/
theorem recvMsg_eq (h : e.Shaped) (reads : List Read) :
    recvMsg e reads =
      some ((Lump.recvMsg reads).map fun r => (r.ret, e.store r, r.rest)) := by
  have hpos : 0 < e.rxMsg.length := by
    rw [h.rxMsg]
    decide
  cases reads with
  | nil => rfl
  | cons read reads =>
    cases read with
    | fail code =>
      show some (some (code.val, e, reads)) =
        some (some (code.val, e.store ⟨_, [], false, _⟩, reads))
      rw [store_part, overlay_nil]
    | byte b =>
      have hheader : e.rxMsg.set 0 b = e.rxMsg.overlay 0 [b] := by
        rw [← overlay_set hpos, overlay_nil]
      have hload : load (e.rxMsg.set 0 b) 0 = some b := List.getElem?_set_self hpos
      unfold recvMsg Lump.recvMsg
      dsimp only
      rw [store_eq_some hpos]
      dsimp only [bind, Option.bind]
      rw [hload]
      dsimp only
      split
      · rw [hheader]
        rfl
      next hfits =>
        have hfits' : totalSize b ≤ 35 := Nat.le_of_not_lt hfits
        have hone := one_le_totalSize b
        have hroom : 1 + (totalSize b - 1) ≤ (e.rxMsg.set 0 b).length := by
          rw [length_set, h.rxMsg, rxMsgBytes]
          omega
        rw [readInto_eq hroom]
        cases hread : readBytes (totalSize b - 1) reads with
        | none => rfl
        | some r =>
          obtain ⟨bytes, ret, rest⟩ := r
          dsimp only [Option.map_some]
          rw [overlay_set hpos]
          split
          · rfl
          next hret =>
            have hlen : (b :: bytes).length = totalSize b := by
              rw [length_cons, (readBytes_spec hread).2.2 hret]
              omega
            rw [← hlen, checkFrame_eq (by rw [h.rxMsg, hlen]; exact hfits')]
            dsimp only
            split
            · rfl
            · rfl

variable {reads : List Read} {r : Recv}

theorem length_stored (h : Lump.recvMsg reads = some r) :
    r.stored.length ≤ rxMsgBytes := by
  unfold Lump.recvMsg at h
  split at h
  · cases h
  · cases h
    exact Nat.zero_le _
  next header reads =>
    split at h
    · cases h
      exact (show 1 ≤ rxMsgBytes by decide)
    next hfits =>
      split at h
      · cases h
      next bytes ret rest hread =>
        have hone := one_le_totalSize header
        have hle := (readBytes_spec hread).1
        have hlen : (header :: bytes).length ≤ rxMsgBytes := by
          rw [length_cons]
          omega
        split at h
        · cases h
          exact hlen
        · split at h
          · cases h
            exact hlen
          · cases h
            exact hlen

theorem ready_of_recvMsg (h : e.Shaped)
    (hrecv : Lump.recvMsg reads = some r) (hret : ¬ r.ret < 0) : Ready (e.store r) := by
  rcases recvMsg_cases hrecv with hneg | ⟨-, f, hstored, hwhole⟩
  · exact absurd hneg hret
  · have hshaped := h.store (length_stored hrecv)
    rw [e.store_eq_receive hstored hwhole] at hshaped ⊢
    refine ⟨hshaped, f.fits, fun htype => ?_⟩
    rw [Engine.rx_receive_zero] at htype
    apply f.three_le
    intro hsys
    have hheader : msgType f.header = .sys := hsys
    rw [htype] at hheader
    cases hheader

/-! ## The loops -/

theorem receiveType_eq (h : e.Shaped) (reads : List Read) :
    receiveType e reads =
      some ((Lump.receiveType reads).map fun r => (r.ret, e.store r, r.rest)) := by
  have hpos : 0 < e.rxMsg.length := by
    rw [h.rxMsg]
    decide
  unfold receiveType Lump.receiveType
  cases hsearch : searchType reads with
  | none => rfl
  | some s =>
    obtain ⟨ret, more⟩ := s
    dsimp only
    split
    · show some (some (ret, e, more)) = some (some (ret, e.store ⟨_, [], false, _⟩, more))
      rw [store_part, overlay_nil]
    · have hroom : 1 + 2 ≤ (e.rxMsg.set 0 typeHeader).length := by
        rw [length_set, h.rxMsg]
        decide
      rw [store_eq_some hpos]
      dsimp only [bind, Option.bind]
      rw [readInto_eq hroom]
      cases hread : readBytes 2 more with
      | none => rfl
      | some s =>
        obtain ⟨bytes, ret', rest⟩ := s
        dsimp only [Option.map_some]
        rw [overlay_set hpos]
        split
        next hneg =>
          rw [decide_eq_false (not_not.mpr hneg)]
          rfl
        next hret =>
          have hlen := (readBytes_spec hread).2.2 hret
          rw [decide_eq_true hret]
          show _ = some (some (ret', e.store ⟨ret', typeHeader :: bytes, true, rest⟩, rest))
          rw [Engine.store, if_pos rfl, length_cons, hlen]

theorem length_receiveType_stored (h : Lump.receiveType reads = some r) :
    r.stored.length ≤ 3 ∧ (¬ r.ret < 0 → r.stored.length = 3 ∧ r.whole = true) := by
  unfold Lump.receiveType at h
  split at h
  · cases h
  next ret more hsearch =>
    split at h
    next hneg =>
      cases h
      exact ⟨Nat.zero_le _, fun hret => absurd hneg hret⟩
    · split at h
      · cases h
      next bytes ret' rest hread =>
        cases h
        refine ⟨Nat.succ_le_succ (readBytes_spec hread).1, fun hret => ?_⟩
        rw [length_cons, (readBytes_spec hread).2.2 hret]
        exact ⟨rfl, decide_eq_true hret⟩

theorem badType_eq {rx bytes : List UInt8} (hlen : bytes.length = 3) :
    badType (rx.overlay 0 bytes) = some (decide (Lump.badType bytes)) := by
  match bytes, hlen with
  | [a, b, c], _ =>
    rfl

theorem foldl_store_errCount (attempts : List Recv) (e : Engine) (c d : UInt8) :
    { attempts.foldl Engine.store { e with errCount := c } with errCount := d } =
      { attempts.foldl Engine.store e with errCount := d } := by
  induction attempts generalizing e with
  | nil => rfl
  | cons r attempts ih => exact ih (e.store r)

theorem shaped_foldl_store {attempts : List Recv} (h : e.Shaped)
    (hfits : ∀ r ∈ attempts, r.stored.length ≤ rxMsgBytes) :
    (attempts.foldl Engine.store e).Shaped := by
  induction attempts generalizing e with
  | nil => exact h
  | cons r attempts ih =>
    apply ih (h.store (hfits r mem_cons_self))
    exact fun r' hr' => hfits r' (mem_cons_of_mem r hr')

variable {errCount : UInt8}

theorem resync_of_none (h : Lump.receiveType reads = none) :
    Lump.resync errCount reads = none := by
  rw [Lump.resync]
  split
  · rfl
  next hr => cases h.symm.trans hr

theorem resync_of_some (h : Lump.receiveType reads = some r) :
    Lump.resync errCount reads =
      if r.ret < 0 then some ⟨r.ret, errCount, [r], r.rest⟩
      else if Lump.badType r.stored then
        if errCount + 1 > 10 then some ⟨-EILSEQ, errCount + 1, [r], r.rest⟩
        else (Lump.resync (errCount + 1) r.rest).map fun s => { s with attempts := r :: s.attempts }
      else some ⟨OK, errCount, [r], r.rest⟩ := by
  rw [Lump.resync]
  split
  next hnone => cases h.symm.trans hnone
  next r' hr =>
    obtain rfl : r = r' := Option.some.inj (h.symm.trans hr)
    cases Lump.resync (errCount + 1) r.rest
    · rfl
    · rfl

theorem resync_eq (n : Nat) (h : e.Shaped) (hn : reads.length ≤ n) :
    resync n e reads = some ((Lump.resync e.errCount reads).map fun s =>
      (s.ret, { s.attempts.foldl Engine.store e with errCount := s.errCount }, s.rest)) := by
  induction n generalizing e reads with
  | zero =>
    obtain rfl := eq_nil_of_length_eq_zero (Nat.le_zero.mp hn)
    rw [resync_of_none rfl]
    rfl
  | succ n ih =>
    rw [resync, receiveType_eq h]
    dsimp only [bind, Option.bind]
    cases hr : Lump.receiveType reads with
    | none =>
      rw [resync_of_none hr]
      rfl
    | some r =>
      rw [resync_of_some hr]
      dsimp only [Option.map_some]
      obtain ⟨hle, hgood⟩ := length_receiveType_stored hr
      split
      · rfl
      next hret =>
        obtain ⟨hlen, hwhole⟩ := hgood hret
        have hbad : badType (e.store r).rxMsg = some (decide (Lump.badType r.stored)) :=
          badType_eq hlen
        have hstored := h.store (Nat.le_trans hle (by decide : 3 ≤ rxMsgBytes))
        rw [hbad]
        dsimp only
        by_cases hb : Lump.badType r.stored
        · have herr : (e.store r).errCount = e.errCount := rfl
          rw [if_pos hb, decide_eq_true hb, if_pos rfl, herr]
          split
          · rfl
          · have hshort := length_receiveType hr
            have hnext := ih (e := { e.store r with errCount := e.errCount + 1 })
              ⟨hstored.rxMsg, hstored.info⟩ (show r.rest.length ≤ n by omega)
            rw [hnext]
            cases Lump.resync (e.errCount + 1) r.rest with
            | none => rfl
            | some s =>
              dsimp only [Option.map_some]
              rw [foldl_store_errCount]
              rfl
        · rw [if_neg hb, decide_eq_false hb, if_neg (by decide)]
          rfl

theorem shaped_mem_none : ∀ o ∈ (none : Option Outcome), o.engine.Shaped :=
  fun o ho => absurd ho (Option.not_mem_none o)

theorem shaped_mem_some {o : Outcome} (h : o.engine.Shaped) : ∀ o' ∈ some o, o'.engine.Shaped := by
  rintro _ ⟨⟩
  exact h

theorem infoLoop_of_none (h : Lump.recvMsg reads = none) :
    Lump.infoLoop e reads = none := by
  rw [Lump.infoLoop]
  split
  · rfl
  next hr => cases h.symm.trans hr

theorem infoLoop_of_some (h : Lump.recvMsg reads = some r) :
    Lump.infoLoop e reads =
      if r.ret = -EBADMSG ∨ r.ret = -EILSEQ then Lump.infoLoop (e.store r) r.rest
      else if r.ret < 0 then some ⟨r.ret, e.store r, [], r.rest⟩
      else if (e.store r).rx 0 = sysAck then
        if e.infoFlags &&& ifRequired ≠ ifRequired then some ⟨-EILSEQ, e.store r, [], r.rest⟩
        else some ⟨OK, e.store r, [], r.rest⟩
      else
        let p := Lump.parseMsg (e.store r)
        if p.ret = -EILSEQ then some ⟨p.ret, p.engine, p.calls, r.rest⟩
        else
          (Lump.infoLoop p.engine r.rest).map fun o => { o with calls := p.calls ++ o.calls } := by
  rw [Lump.infoLoop]
  split
  next hnone => cases h.symm.trans hnone
  next r' hr =>
    obtain rfl : r = r' := Option.some.inj (h.symm.trans hr)
    dsimp only
    cases Lump.infoLoop (Lump.parseMsg (e.store r)).engine r.rest
    · rfl
    · rfl

theorem infoLoop_eq (n : Nat) (h : e.Shaped) (hn : reads.length ≤ n) :
    infoLoop n e reads = some (Lump.infoLoop e reads) ∧
      ∀ o ∈ Lump.infoLoop e reads, o.engine.Shaped := by
  induction n generalizing e reads with
  | zero =>
    obtain rfl := eq_nil_of_length_eq_zero (Nat.le_zero.mp hn)
    rw [infoLoop_of_none rfl]
    exact ⟨rfl, shaped_mem_none⟩
  | succ n ih =>
    rw [infoLoop, recvMsg_eq h]
    dsimp only [bind, Option.bind]
    cases hr : Lump.recvMsg reads with
    | none =>
      rw [infoLoop_of_none hr]
      exact ⟨rfl, shaped_mem_none⟩
    | some r =>
      have hstored := h.store (length_stored hr)
      have hshort := length_recvMsg hr
      rw [infoLoop_of_some hr]
      dsimp only [Option.map_some]
      split
      · exact ih hstored (by omega)
      split
      · exact ⟨rfl, shaped_mem_some hstored⟩
      next hret =>
        rw [load_rxMsg hstored (by decide)]
        dsimp only
        split
        · have hflags : (e.store r).infoFlags = e.infoFlags := rfl
          rw [hflags]
          split
          · exact ⟨rfl, shaped_mem_some hstored⟩
          · exact ⟨rfl, shaped_mem_some hstored⟩
        · obtain ⟨hparse, hparsed⟩ := parseMsg_eq (ready_of_recvMsg h hr hret)
          rw [hparse]
          dsimp only
          split
          · exact ⟨rfl, shaped_mem_some hparsed⟩
          · obtain ⟨hnext, hshaped⟩ := ih hparsed (show r.rest.length ≤ n by omega)
            rw [hnext]
            cases ho : Lump.infoLoop (Lump.parseMsg (e.store r)).engine r.rest with
            | none => exact ⟨rfl, shaped_mem_none⟩
            | some o => exact ⟨rfl, shaped_mem_some (hshaped o ho)⟩

/-! ## A synchronization, and a port -/

theorem shaped_finishSync (h : e.Shaped) (io : SyncIo) (calls : List Call)
    (rest : List Read) : (finishSync io e calls rest).engine.Shaped := by
  unfold finishSync
  split
  · exact h
  split
  · exact h
  split
  · exact ⟨h.rxMsg, h.info⟩
  · dsimp only
    unfold Engine.autoSelect
    split
    · exact ⟨h.rxMsg, h.info⟩
    · exact ⟨h.rxMsg, h.info⟩

theorem fits_of_resync {s : Resync}
    (h : Lump.resync errCount reads = some s) : ∀ r ∈ s.attempts, r.stored.length ≤ 3 := by
  fun_induction Lump.resync errCount reads generalizing s with
  | case1 errCount reads hrecv => cases h
  | case4 => cases h
  | case5 errCount reads r hrecv hneg hbad hfew s' hsome ih =>
    cases h
    intro r' hr'
    rcases mem_cons.mp hr' with rfl | hr'
    · exact (length_receiveType_stored hrecv).1
    · exact ih hsome r' hr'
  | case2 errCount reads r hrecv hneg =>
    cases h
    intro r' hr'
    rw [mem_singleton.mp hr']
    exact (length_receiveType_stored hrecv).1
  | case3 errCount reads r hrecv hneg hbad hmany =>
    cases h
    intro r' hr'
    rw [mem_singleton.mp hr']
    exact (length_receiveType_stored hrecv).1
  | case6 errCount reads r hrecv hneg hgood =>
    cases h
    intro r' hr'
    rw [mem_singleton.mp hr']
    exact (length_receiveType_stored hrecv).1

theorem ready_of_resync (h : e.Shaped)
    {s : Resync} (hs : Lump.resync errCount reads = some s) (hret : ¬ s.ret < 0) :
    Ready { s.attempts.foldl Engine.store e with errCount := s.errCount } := by
  have hshaped : (s.attempts.foldl Engine.store e).Shaped :=
    shaped_foldl_store h fun r hr => Nat.le_trans (fits_of_resync hs r hr) (by decide)
  obtain ⟨pre, t, hheader, hfold⟩ := (resync_cases hs).resolve_left hret
  rw [hfold e] at hshaped ⊢
  refine ⟨⟨hshaped.rxMsg, hshaped.info⟩, t.fits, fun htype => ?_⟩
  have hrx : ((pre.foldl Engine.store e).receive t).rx 0 = typeHeader :=
    (Engine.rx_receive_zero _ t).trans hheader
  have hinfo : msgType (((pre.foldl Engine.store e).receive t).rx 0) = .info := htype
  rw [hrx] at hinfo
  exact absurd hinfo (by decide)

theorem syncFrames_eq (io : SyncIo) (reads : List Read) (h : e.Shaped) :
    syncFrames io reads e = some (Lump.syncFrames io reads e) ∧
      ∀ o ∈ Lump.syncFrames io reads e, o.engine.Shaped := by
  have hcleared : ({ e with errCount := 0 } : Engine).Shaped := ⟨h.rxMsg, h.info⟩
  rw [syncFrames, Lump.syncFrames, resync_eq _ hcleared (Nat.le_refl _)]
  dsimp only [bind, Option.bind]
  cases hs : Lump.resync 0 reads with
  | none => exact ⟨rfl, shaped_mem_none⟩
  | some s =>
    dsimp only [Option.map_some]
    rw [foldl_store_errCount]
    have hfits : ∀ r ∈ s.attempts, r.stored.length ≤ rxMsgBytes := fun r hr =>
      Nat.le_trans (fits_of_resync hs r hr) (by decide)
    have hstored : (s.attempts.foldl Engine.store e).Shaped := shaped_foldl_store h hfits
    split
    · exact ⟨rfl, shaped_mem_some ⟨hstored.rxMsg, hstored.info⟩⟩
    next hret =>
      obtain ⟨hparse, hparsed⟩ := parseMsg_eq (ready_of_resync h hs hret)
      rw [hparse]
      dsimp only
      generalize Lump.parseMsg _ = p at hparsed
      split
      · exact ⟨rfl, shaped_mem_some hparsed⟩
      · have hinfo : ({ p.engine with state := .info } : Engine).Shaped :=
          ⟨hparsed.rxMsg, hparsed.info⟩
        obtain ⟨hloop, hlooped⟩ := infoLoop_eq s.rest.length hinfo (Nat.le_refl _)
        rw [hloop]
        cases ho : Lump.infoLoop { p.engine with state := .info } s.rest with
        | none => exact ⟨rfl, shaped_mem_none⟩
        | some o =>
          have hshaped := hlooped o ho
          dsimp only
          split
          · exact ⟨rfl, shaped_mem_some hshaped⟩
          · exact ⟨rfl, shaped_mem_some (shaped_finishSync hshaped io (p.calls ++ o.calls) o.rest)⟩

theorem lumpSync_eq (io : SyncIo) (reads : List Read) (h : e.Shaped) :
    lumpSync io reads e = some (Lump.lumpSync io reads e) ∧
      ∀ o ∈ Lump.lumpSync io reads e, o.engine.Shaped := by
  have hsyncing : ({ e with state := .syncing } : Engine).Shaped := ⟨h.rxMsg, h.info⟩
  unfold lumpSync Lump.lumpSync
  split
  · exact ⟨rfl, shaped_mem_some hsyncing⟩
  · cases reads with
    | nil => exact ⟨rfl, shaped_mem_none⟩
    | cons probe reads =>
      dsimp only
      split
      · split
        · exact ⟨rfl, shaped_mem_some hsyncing⟩
        · exact syncFrames_eq io reads hsyncing
      · cases probe with
        | fail code => exact ⟨rfl, shaped_mem_some hsyncing⟩
        | byte b => exact syncFrames_eq io reads hsyncing

theorem listen_eq (h : e.Shaped) (reads : List Read) :
    listen e reads = some (e.listen reads) ∧ (e.listen reads).Shaped := by
  rw [listen, recvMsg_eq h, Engine.listen]
  dsimp only [bind, Option.bind]
  cases hr : Lump.recvMsg reads with
  | none => exact ⟨rfl, h⟩
  | some r =>
    dsimp only [Option.map_some]
    split
    next hok =>
      have hret : ¬ r.ret < 0 := by
        rw [hok]
        decide
      obtain ⟨hparse, hparsed⟩ := parseMsg_eq (ready_of_recvMsg h hr hret)
      rw [hparse]
      exact ⟨rfl, hparsed⟩
    · exact ⟨rfl, h.store (length_stored hr)⟩

theorem port_eq (h : e.Shaped) (event : PortEvent) :
    port e event = some (Lump.port.step e event).1 ∧ (Lump.port.step e event).1.Shaped := by
  cases event with
  | attempt io reads =>
    obtain ⟨hsync, hshaped⟩ := lumpSync_eq io reads h.resetSession
    rw [port, hsync]
    cases ho : Lump.lumpSync io reads e.resetSession with
    | none =>
      have hstep : (Lump.port.step e (.attempt io reads)).1 = e := by
        simp only [Lump.port, ho]
      rw [hstep]
      exact ⟨rfl, h⟩
    | some o =>
      have hstep : (Lump.port.step e (.attempt io reads)).1 = o.engine := by
        simp only [Lump.port, ho]
      rw [hstep]
      exact ⟨rfl, hshaped o ho⟩
  | receive reads => exact listen_eq h reads
  | drain => exact ⟨rfl, h.rxMsg, h.info⟩
  | endSession => exact ⟨rfl, h.rxMsg, h.info⟩
  | post r =>
    refine ⟨rfl, ?_⟩
    cases r with
    | select mode => exact ⟨h.rxMsg, h.info⟩
    | send mode buf needSelect =>
      cases needSelect
      · exact ⟨h.rxMsg, h.info⟩
      · exact ⟨h.rxMsg, h.info⟩
  | pop => exact ⟨rfl, h.rxMsg, h.info⟩
  | attach onData onSync => exact ⟨rfl, h.rxMsg, h.info⟩

theorem run_eq (events : List PortEvent) (h : e.Shaped) :
    events.foldlM port e = some (Lump.port.run e events) := by
  induction events generalizing e with
  | nil => rfl
  | cons event events ih =>
    obtain ⟨hstep, hshaped⟩ := port_eq h event
    rw [foldlM_cons, hstep, Machine.run_cons]
    exact ih hshaped

/-- **No access leaves its array.** In every history of a port, with every byte stream a device can
send in every synchronization and behind it, the receiver and the parser make every access they
try, and the port comes out as without the checks. -/
theorem stays_inside (onData onSync : Bool) (events : List PortEvent) :
    events.foldlM port (Engine.boot onData onSync) =
      some (Lump.port.run (Engine.boot onData onSync) events) :=
  run_eq events (Engine.shaped_boot onData onSync)

end Bounded

end Brickwright.Lump
