import Brickwright.Lump.Requests.Basic

/-!
# The synchronization (`lump_sync`)

What the device sends and when reads time out is the list of reads; what the other calls to the UART
return is a `SyncIo`. The model answers `none` as long as the thread still waits for a read, so a
statement about every outcome is one about every byte stream.
-/

namespace Brickwright.Lump

/-- The results of the calls that do not read. A negative one ends the synchronization. -/
structure SyncIo where
  /-- Sending `CMD SPEED`. -/
  speed : Int
  /-- Setting the fallback baud rate. -/
  fallback : Int
  /-- Sending the `SYS ACK`. -/
  ack : Int
  /-- Setting the negotiated baud rate. -/
  newBaud : Int
  deriving DecidableEq

structure Outcome where
  ret : Int
  engine : Engine
  calls : List Call
  rest : List Read
  deriving DecidableEq

/-! ## Resynchronization to a `CMD TYPE` -/

def typeHeader : UInt8 := 0x40

def searchType : List Read → Option (Int × List Read)
  | [] => none
  | .fail code :: reads =>
    -- A device may take its time, so a timeout does not end the search.
    if code.val = -ETIMEDOUT then searchType reads else some (code.val, reads)
  | .byte hdr :: reads => if hdr = typeHeader then some (OK, reads) else searchType reads

/-- One attempt: the header, then the type and the checksum. -/
def receiveType (reads : List Read) : Option Recv :=
  match searchType reads with
  | none => none
  | some (ret, reads) =>
    if ret < 0 then some ⟨ret, [], false, reads⟩
    else
      match readBytes 2 reads with
      | none => none
      | some (bytes, ret, rest) => some ⟨ret, typeHeader :: bytes, ¬ ret < 0, rest⟩

/-- `bad_id || bad_cs`. -/
def badType (bytes : List UInt8) : Prop :=
  (bytes.getD 1 0 < typeIdMin ∨ bytes.getD 1 0 > typeIdMax) ∨
    xorChecksum (bytes.take 2) ≠ bytes.getD 2 0

instance (bytes : List UInt8) : Decidable (badType bytes) := inferInstanceAs (Decidable (_ ∨ _))

structure Resync where
  ret : Int
  errCount : UInt8
  /-- What the attempts stored in the receive buffer. -/
  attempts : List Recv
  rest : List Read
  deriving DecidableEq

theorem length_searchType {reads rest : List Read} {ret : Int}
    (h : searchType reads = some (ret, rest)) : rest.length < reads.length := by
  fun_induction searchType reads with
  | case1 => cases h
  | case2 code reads hcode ih => exact Nat.lt_succ_of_lt (ih h)
  | case3 code reads hcode =>
    cases h
    exact Nat.lt_succ_self _
  | case4 reads =>
    cases h
    exact Nat.lt_succ_self _
  | case5 hdr reads hne ih => exact Nat.lt_succ_of_lt (ih h)

theorem length_receiveType {reads : List Read} {r : Recv} (h : receiveType reads = some r) :
    r.rest.length < reads.length := by
  unfold receiveType at h
  split at h
  · cases h
  next ret reads' hsearch =>
    have hshort := length_searchType hsearch
    split at h
    · cases h
      exact hshort
    · split at h
      · cases h
      next bytes ret' rest hread =>
        cases h
        exact Nat.lt_of_le_of_lt (readBytes_spec hread).2.1 hshort

def resync (errCount : UInt8) (reads : List Read) : Option Resync :=
  match _h : receiveType reads with
  | none => none
  | some r =>
    if r.ret < 0 then some ⟨r.ret, errCount, [r], r.rest⟩
    else if badType r.stored then
      if errCount + 1 > 10 then some ⟨-EILSEQ, errCount + 1, [r], r.rest⟩
      else
        match resync (errCount + 1) r.rest with
        | none => none
        | some s => some { s with attempts := r :: s.attempts }
    else some ⟨OK, errCount, [r], r.rest⟩
termination_by reads.length
decreasing_by exact length_receiveType _h

/-! ## The INFO loop -/

theorem length_recvMsg {reads : List Read} {r : Recv} (h : recvMsg reads = some r) :
    r.rest.length < reads.length := by
  unfold recvMsg at h
  split at h
  · cases h
  · cases h
    exact Nat.lt_succ_self _
  · split at h
    · cases h
      exact Nat.lt_succ_self _
    · split at h
      · cases h
      next bytes ret rest hread =>
        have hle := Nat.lt_succ_of_le (readBytes_spec hread).2.1
        split at h
        · cases h
          exact hle
        · split at h
          · cases h
            exact hle
          · cases h
            exact hle

/-- Frames until the `SYS ACK` or an error. -/
def infoLoop (e : Engine) (reads : List Read) : Option Outcome :=
  match _h : recvMsg reads with
  | none => none
  | some r =>
    -- A malformed frame is skipped, but its bytes are in the receive buffer.
    if r.ret = -EBADMSG ∨ r.ret = -EILSEQ then infoLoop (e.store r) r.rest
    else if r.ret < 0 then some ⟨r.ret, e.store r, [], r.rest⟩
    -- The `SYS ACK` ends the loop and is not parsed.
    else if (e.store r).rx 0 = sysAck then
      if e.infoFlags &&& ifRequired ≠ ifRequired then some ⟨-EILSEQ, e.store r, [], r.rest⟩
      else some ⟨OK, e.store r, [], r.rest⟩
    else
      let p := parseMsg (e.store r)
      if p.ret = -EILSEQ then some ⟨p.ret, p.engine, p.calls, r.rest⟩
      else
        -- `-EBADMSG` drops the frame.
        match infoLoop p.engine r.rest with
        | none => none
        | some o => some { o with calls := p.calls ++ o.calls }
termination_by reads.length
decreasing_by all_goals exact length_recvMsg _h

/-! ## The whole synchronization -/

namespace Engine

/-- Expose `SYNCED`. -/
def publish (e : Engine) : Engine :=
  { e with info := { e.info with flags := e.info.flags ||| flagSynced, baud := e.newBaudRate } }

/-- The supply rail that the device asks for. -/
def supplyCalls (e : Engine) : List Call :=
  if e.info.capabilityFlags &&& capSupplyPin1 ≠ 0 then [.pinSupply (-1)]
  else if e.info.capabilityFlags &&& capSupplyPin2 ≠ 0 then [.pinSupply 1]
  else []

end Engine

/-- From the reply to the device's `SYS ACK` on. -/
def finishSync (io : SyncIo) (e : Engine) (calls : List Call) (rest : List Read) : Outcome :=
  if io.ack < 0 then ⟨io.ack, e, calls, rest⟩
  else if e.newBaudRate ≠ baudInitial ∧ io.newBaud < 0 then ⟨io.newBaud, e, calls, rest⟩
  -- A ring that has used up its sessions is not opened again.
  else if e.dq.begin.1 < 0 then ⟨e.dq.begin.1, { e with dq := e.dq.begin.2 }, calls, rest⟩
  else
    let e := { ({ e with dq := e.dq.begin.2 }).publish with state := .data }
    ⟨OK, e.autoSelect,
      calls ++ e.supplyCalls ++ (if e.onSync then [.onSync e.info] else []), rest⟩

def syncFrames (io : SyncIo) (reads : List Read) (e : Engine) : Option Outcome :=
  match resync 0 reads with
  | none => none
  | some s =>
    let e := { s.attempts.foldl Engine.store e with errCount := s.errCount }
    if s.ret < 0 then some ⟨s.ret, e, [], s.rest⟩
    else
      let p := parseMsg e
      if p.ret < 0 then some ⟨p.ret, p.engine, p.calls, s.rest⟩
      else
        match infoLoop { p.engine with state := .info } s.rest with
        | none => none
        | some o =>
          if o.ret < 0 then some { o with calls := p.calls ++ o.calls }
          else some (finishSync io o.engine (p.calls ++ o.calls) o.rest)

/-- No ACK in time: the device talks at the fallback rate. -/
def Read.isSlow : Read → Bool
  | .fail code => code.val = -ETIMEDOUT
  | .byte b => b ≠ sysAck

def lumpSync (io : SyncIo) (reads : List Read) (e : Engine) : Option Outcome :=
  let e := { e with state := .syncing }
  if io.speed < 0 then some ⟨io.speed, e, [], reads⟩
  else
    match reads with
    | [] => none
    | probe :: reads =>
      if probe.isSlow then
        if io.fallback < 0 then some ⟨io.fallback, e, [], reads⟩
        else syncFrames io reads e
      else
        match probe with
        | .fail code => some ⟨code.val, e, [], reads⟩
        | .byte _ => syncFrames io reads e

end Brickwright.Lump
