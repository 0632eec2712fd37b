import Brickwright.HubProgram.Upload.Steps

/-!
# What a commit commits

The history of a run says what was sent: which begins were accepted, with what they announced, and
which chunks were accepted after them. `assemble` puts the chunks of a history where they say they
belong. The invariant `TxInv` relates the state to that history: an active upload is the one of the
last accepted begin, and the bytes it has received are what the chunks accepted since assemble to.

`upload_integrity` follows: the stored program only changes in a commit that returns 0, and then it
is the assembled string, of the announced size and checksum.
-/

namespace Brickwright.HubProgram

open List

/-! ## Reading a history -/

/-- Owner and packet of a request that was answered with 0. -/
def accepted : Input × Option Answer → Option (Nat × Packet)
  | (.request r, some a) => if a.rc = 0 then r.packet.map (r.owner, ·) else none
  | _ => none

def beginOf (e : Input × Option Answer) : Option Announcement :=
  match accepted e with
  | some (owner, k) => if k.op = 0 ∨ k.op = 7 then some (k.announcement owner) else none
  | none => none

structure Chunk where
  offset : Nat
  bytes : List UInt8
  deriving DecidableEq

/-- What an accepted chunk carried, and where. -/
def chunkOf (e : Input × Option Answer) : Option Chunk :=
  match accepted e with
  | some (_, k) => if k.op = 1 then some ⟨chunkOffset k.data, k.payload⟩ else none
  | none => none

section history

variable {r : Request} {a : Answer}

attribute [local simp] accepted beginOf chunkOf

theorem beginOf_eq_some {k : Packet} (hk : r.packet = some k) (hop : k.op = 0 ∨ k.op = 7)
    (hrc : a.rc = 0) : beginOf (.request r, some a) = some (k.announcement r.owner) := by
  simp [hrc, hk, hop]

theorem chunkOf_eq_some {k : Packet} (hk : r.packet = some k) (hop : k.op = 1) (hrc : a.rc = 0) :
    chunkOf (.request r, some a) = some ⟨chunkOffset k.data, k.payload⟩ := by
  simp [hrc, hk, hop]

theorem beginOf_eq_none (h : ∀ k, r.packet = some k → k.op = 0 ∨ k.op = 7 → a.rc ≠ 0) :
    beginOf (.request r, some a) = none := by
  by_cases hrc : a.rc = 0
  · cases hk : r.packet with
    | none => simp [hrc, hk]
    | some k =>
      have hop : ¬ (k.op = 0 ∨ k.op = 7) := fun hop => h k hk hop hrc
      simp [hrc, hk, hop]
  · simp [hrc]

theorem chunkOf_eq_none (h : ∀ k, r.packet = some k → k.op = 1 → a.rc ≠ 0) :
    chunkOf (.request r, some a) = none := by
  by_cases hrc : a.rc = 0
  · cases hk : r.packet with
    | none => simp [hrc, hk]
    | some k =>
      have hop : k.op ≠ 1 := fun hop => h k hk hop hrc
      simp [hrc, hk, hop]
  · simp [hrc]

end history

/-- The byte string a list of chunks spells, each written at its own offset. -/
def assemble (chunks : List Chunk) : List UInt8 :=
  chunks.foldl (fun bytes c => bytes.overlay c.offset c.bytes) []

theorem assemble_concat (chunks : List Chunk) (c : Chunk) :
    assemble (chunks ++ [c]) = (assemble chunks).overlay c.offset c.bytes := by
  rw [assemble, foldl_append]
  rfl

def Upload.announcement (u : Upload) : Announcement := ⟨u.owner, u.id, u.language, u.size, u.crc⟩

/-! ## The invariant -/

/-- The transaction an active upload belongs to. -/
def OpenSince (h : List (Input × Option Answer)) (u : Upload) : Prop :=
  ∃ pre b mid, h = pre ++ b :: mid ∧ beginOf b = some u.announcement ∧
    (∀ e ∈ mid, beginOf e = none) ∧ assemble (mid.filterMap chunkOf) = u.assembled

structure TxInv (h : List (Input × Option Answer)) (s : Hub) : Prop where
  upload : s.upload.Ok
  tx : s.upload.active = true → OpenSince h s.upload

variable {h : List (Input × Option Answer)} {u : Upload}

/-- An event that neither begins nor carries a chunk extends the history of a transaction. -/
theorem OpenSince.skip {e : Input × Option Answer} (ho : OpenSince h u) (hb : beginOf e = none)
    (hc : chunkOf e = none) : OpenSince (h ++ [e]) u := by
  obtain ⟨pre, b, mid, rfl, hbegin, hmid, hasm⟩ := ho
  refine ⟨pre, b, mid ++ [e], by simp, hbegin, ?_, ?_⟩
  · intro x hx
    rcases mem_append.mp hx with hx | hx
    · exact hmid x hx
    · obtain rfl := mem_singleton.mp hx
      exact hb
  · rw [filterMap_append, filterMap_cons_none hc, filterMap_nil, append_nil]
    exact hasm

theorem OpenSince.chunk {u u' : Upload} {c : Chunk}
    {e : Input × Option Answer} (ho : OpenSince h u) (hb : beginOf e = none)
    (hc : chunkOf e = some c) (ha : u'.announcement = u.announcement)
    (hu' : u'.assembled = u.assembled.overlay c.offset c.bytes) : OpenSince (h ++ [e]) u' := by
  obtain ⟨pre, b, mid, rfl, hbegin, hmid, hasm⟩ := ho
  refine ⟨pre, b, mid ++ [e], by simp, ha ▸ hbegin, ?_, ?_⟩
  · intro x hx
    rcases mem_append.mp hx with hx | hx
    · exact hmid x hx
    · obtain rfl := mem_singleton.mp hx
      exact hb
  · have hlast : (mid ++ [e]).filterMap chunkOf = mid.filterMap chunkOf ++ [c] := by
      rw [filterMap_append, filterMap_cons_some hc, filterMap_nil]
    rw [hlast, assemble_concat, hasm, hu']

theorem Upload.Ok.length_assembled (h : u.Ok) : u.assembled.length = u.received := by
  have := h.received
  have := h.size
  rw [Upload.assembled, length_take, h.buffer]
  omega

theorem Upload.overlay_retry {off : Nat} {bytes : List UInt8}
    (hfit : off + bytes.length ≤ u.received)
    (hsame : (u.buffer.drop off).take bytes.length = bytes) :
    u.assembled.overlay off bytes = u.assembled := by
  apply overlay_self
  rw [Upload.assembled, drop_take, take_take, Nat.min_eq_left (by omega), hsame]

theorem Upload.Ok.overlay_extend (h : u.Ok) (bytes : List UInt8) :
    (u.buffer.overlay u.received bytes).take (u.received + bytes.length)
      = u.assembled.overlay u.received bytes := by
  have hle : u.received ≤ u.buffer.length := by
    have := h.received
    have := h.size
    rw [h.buffer]
    omega
  rw [take_overlay bytes hle, ← h.length_assembled, overlay_length,
    h.length_assembled, Upload.assembled]

/-- **One step** keeps the history of the transaction. -/
theorem txInv_step (h : List (Input × Option Answer)) (s : Hub) (i : Input) (inv : TxInv h s) :
    TxInv (h ++ [(i, (service.step s i).2)]) (service.step s i).1 := by
  cases i with
  | tick now => exact ⟨inv.upload, fun hact => (inv.tx hact).skip rfl rfl⟩
  | request r =>
    have hstep := request_step s r inv.upload
    refine ⟨hstep.upload_ok (inv.upload.expire _), ?_⟩
    intro hact
    have htx : (s.upload.expire r.now).active = true → OpenSince h (s.upload.expire r.now) := by
      intro hlive
      obtain ⟨heq, hwas⟩ := Upload.expire_active hlive
      rw [heq]
      exact inv.tx hwas
    have hok := inv.upload.expire r.now
    show OpenSince (h ++ [(Input.request r, some (request s r).2)]) (request s r).1.upload
    replace hact : (request s r).1.upload.active = true := hact
    generalize (request s r).2 = a, (request s r).1 = s' at hstep hact
    obtain ⟨p', u', w'⟩ := s'
    -- A chunk is no begin, so it extends the transaction that is open.
    have hchunk : ∀ k, r.packet = some k → k.op = 1 → beginOf (.request r, some a) = none := by
      intro k hk hop
      apply beginOf_eq_none
      intro k' hk' hop'
      obtain rfl : k = k' := Option.some.inj (hk.symm.trans hk')
      omega
    generalize hrc : a.rc = rc at hstep
    cases hstep with
    | @begun k hk hop _ _ _ _ =>
      refine ⟨h, _, [], rfl, ?_, by simp, ?_⟩
      · exact beginOf_eq_some hk hop hrc
      · simp [assemble, Upload.assembled]
    | @retried k hk hop hlive _ _ hfit hsame =>
      refine (htx hlive).chunk (hchunk k hk hop) (chunkOf_eq_some hk hop hrc) rfl ?_
      exact (Upload.overlay_retry hfit hsame).symm
    | @extended k hk hop hlive _ _ hoff _ =>
      refine (htx hlive).chunk (hchunk k hk hop) (chunkOf_eq_some hk hop hrc) rfl ?_
      rw [hoff]
      exact hok.overlay_extend k.payload
    | committed => simp at hact
    | refused _ hnot hu' _ =>
      rcases hu' with rfl | ⟨rfl, -⟩
      · apply (htx hact).skip
        · exact beginOf_eq_none fun k hk hop => hrc ▸ hnot k hk (by omega)
        · exact chunkOf_eq_none fun k hk hop => hrc ▸ hnot k hk (by omega)
      · simp at hact

theorem run_txInv (io : ProgramIo) (respond : List Event → IoCall → IoResult) (ins : List Input) :
    TxInv (service.trace (Hub.init io respond) ins) (service.run (Hub.init io respond) ins) :=
  service.trace_invariant txInv_step ⟨Upload.init_ok, fun h => by simp [Hub.init, Upload.init] at h⟩
    ins

/-! ## The committed program -/

/-- The stored program is the closed transaction of the history: `owner` began it, the chunks since
spell its bytes, and they have the size and checksum that begin announced. -/
def CommittedFrom (h : List (Input × Option Answer)) (owner : Nat) (p : Program) : Prop :=
  ∃ pre b mid a, h = pre ++ b :: mid ∧ beginOf b = some a ∧ (∀ e ∈ mid, beginOf e = none) ∧
    a.owner = owner ∧ p.id = a.id ∧ p.language = a.language ∧
    p.committedBytes = assemble (mid.filterMap chunkOf) ∧
    p.committedBytes.length = a.size ∧ (crc32 p.committedBytes).toNat = a.crc ∧
    (p.language = 0 → validate (some (p.code.take p.count)) = 0)

/-- A request stores a program in an accepted commit only. -/
theorem RequestStep.stored_changes {r : Request} {u u' : Upload} {p p' : Program} {rc : Int}
    (h : RequestStep r u p rc u' p') (hne : p'.stored ≠ p.stored) :
    ∃ k, r.packet = some k ∧ k.op = 2 ∧ rc = 0 := by
  cases h with
  | begun | retried | extended => exact absurd rfl hne
  | committed hk hop => exact ⟨_, hk, hop, rfl⟩
  | refused hstored => exact absurd hstored hne

theorem RequestStep.commits {r : Request} {u u' : Upload}
    {p p' : Program} {rc : Int} (hs : RequestStep r u p rc u' p') (hu : u.Ok)
    (htx : u.active = true → OpenSince h u) {k : Packet} (hk : r.packet = some k) (hop : k.op = 2)
    (hrc : rc = 0) : CommittedFrom h r.owner p' := by
  have hpacket : ∀ k', r.packet = some k' → k'.op = 2 := by
    intro k' hk'
    obtain rfl : k = k' := Option.some.inj (hk.symm.trans hk')
    exact hop
  cases hs with
  | begun hk' hop' => have := hpacket _ hk'; omega
  | retried hk' hop' => have := hpacket _ hk'; omega
  | extended hk' hop' => have := hpacket _ hk'; omega
  | refused _ hnot => exact absurd hrc (hnot k hk (by omega))
  | committed _ _ hactive howner hid hall hcrc hid' hlang hbytes _ hvalid =>
    obtain ⟨pre, b, mid, rfl, hbegin, hmid, hasm⟩ := htx hactive
    refine ⟨pre, b, mid, u.announcement, rfl, hbegin, hmid, howner, hid'.trans hid.symm, hlang,
      hbytes.trans hasm.symm, ?_, ?_, fun h0 => hvalid (hlang.symm.trans h0)⟩
    · rw [hbytes, hu.length_assembled, hall]
      rfl
    · rw [hbytes]
      exact hcrc

/-- **Upload integrity.** After any run from boot, the next input changes the stored program only if
it is a commit that returns 0; a commit that returns 0 leaves the closed transaction as the stored
program; and a request that returns a negative code leaves the stored program as it was. -/
theorem upload_integrity (io : ProgramIo) (respond : List Event → IoCall → IoResult)
    (ins : List Input) (i : Input) :
    let h := service.trace (Hub.init io respond) ins
    let s := service.run (Hub.init io respond) ins
    let s' := (service.step s i).1
    (s'.program.stored ≠ s.program.stored →
      ∃ r k, i = .request r ∧ r.packet = some k ∧ k.op = 2 ∧ (request s r).2.rc = 0) ∧
    (∀ r k, i = .request r → r.packet = some k → k.op = 2 → (request s r).2.rc = 0 →
      CommittedFrom h r.owner s'.program) ∧
    (∀ r, i = .request r → (request s r).2.rc < 0 → s'.program.stored = s.program.stored) := by
  intro h s s'
  have inv : TxInv h s := run_txInv io respond ins
  refine ⟨?_, ?_, ?_⟩
  · intro hne
    cases i with
    | tick now => exact absurd (tick_stored s.program now s.world) hne
    | request r =>
      obtain ⟨k, hk, hop, hrc⟩ := (request_step s r inv.upload).stored_changes hne
      exact ⟨r, k, rfl, hk, hop, hrc⟩
  · rintro r k rfl hk hop hrc
    apply (request_step s r inv.upload).commits (inv.upload.expire _) ?_ hk hop hrc
    intro hlive
    obtain ⟨heq, hwas⟩ := Upload.expire_active hlive
    rw [heq]
    exact inv.tx hwas
  · rintro r rfl hrc
    by_contra hne
    obtain ⟨-, -, -, hzero⟩ := (request_step s r inv.upload).stored_changes hne
    omega

/-!
## What is stored is a program

A commit stores rows the validator accepts, or a text without `NUL` behind which there is one.
Nothing else writes the stored part of the program, so whatever has an id is a program in this
sense after every run of the service.
-/

open Bytes

/-- The fields are values of the C type `int32_t`. -/
def Instruction.Fits (r : Instruction) : Prop :=
  Fits32 r.op ∧ Fits32 r.a ∧ Fits32 r.b ∧ Fits32 r.c

namespace Stored

/-- The arrays have the lengths of the C structure. -/
structure Sized (d : Stored) : Prop where
  code : d.code.length = programLimit
  source : d.source.length = 4096

structure RowsOk (d : Stored) : Prop where
  language : d.language = 0
  count_le : d.count ≤ programLimit
  valid : validate (some (d.code.take d.count)) = 0
  fits : ∀ r ∈ d.code.take d.count, r.Fits

structure TextOk (d : Stored) : Prop where
  language : d.language = 1
  count_pos : 0 < d.count
  count_le : d.count ≤ 4095
  noNul : 0 ∉ d.source.take d.count
  terminated : d.source[d.count]? = some 0

structure Committed (d : Stored) : Prop where
  sized : d.Sized
  id_ne : d.id ≠ 0
  id_lt : d.id < 2 ^ 32
  contents : d.RowsOk ∨ d.TextOk

/-- What is stored at any time: nothing yet, or a program. -/
structure Ok (d : Stored) : Prop where
  sized : d.Sized
  fresh : d.id = 0 → d.language = 0
  committed : d.id ≠ 0 → d.Committed

end Stored

theorem init_stored (io : ProgramIo) : (Program.init io).stored.Ok where
  sized := ⟨length_replicate, length_replicate⟩
  fresh _ := rfl
  committed h := absurd rfl h

/-! ### The two commits -/

theorem wordAt_fits (buffer : List UInt8) (off : Nat) : Fits32 (wordAt buffer off) :=
  int32_fits ((buffer.drop off).take 4)

theorem codeAt_fits (buffer : List UInt8) (i : Nat) : (codeAt buffer i).Fits := by
  simp only [Instruction.Fits, codeAt, wordAt_fits, and_self]

theorem codeView_fits (buffer : List UInt8) (count : Nat) :
    ∀ r ∈ codeView buffer count, r.Fits := by
  intro r hr
  obtain ⟨i, -, rfl⟩ := mem_map.mp hr
  exact codeAt_fits buffer i

theorem length_le_of_validate {rows : List Instruction} (h : validate (some rows) = 0) :
    rows ≠ [] ∧ rows.length ≤ programLimit := by
  rw [validate] at h
  split at h
  · cases h
  · next hlen =>
    rw [not_or] at hlen
    exact ⟨fun hnil => hlen.1 (by rw [hnil]; rfl), Nat.not_lt.mp hlen.2⟩

variable {p : Program}

theorem load_stored {id : Nat} {rows : List Instruction} (hp : p.stored.Ok)
    (hid : id < 2 ^ 32) (hfits : ∀ r ∈ rows, r.Fits) : (load p id (some rows)).2.stored.Ok := by
  by_cases hrun : p.state = .running
  · rwa [load, if_pos hrun]
  by_cases hzero : id = 0
  · rwa [load, if_neg hrun, if_pos hzero]
  rcases validate_eq (some rows) with hv | hv
  · have hlen := (length_le_of_validate hv).2
    rw [load, if_neg hrun, if_neg hzero, if_neg (by rw [hv]; decide)]
    have hover : (p.code.overlay 0 rows).length = programLimit := by
      have hcode : p.code.length = programLimit := hp.sized.code
      rw [length_overlay (by rwa [hcode, Nat.zero_add]), hcode]
    have htake : (p.code.overlay 0 rows).take rows.length = rows := by
      simpa using take_overlay (l := p.code) rows (Nat.zero_le _)
    have hsized : (⟨p.code.overlay 0 rows, p.source.set 0 0, 0, rows.length, id⟩ : Stored).Sized :=
      ⟨hover, (length_set ..).trans hp.sized.source⟩
    refine ⟨hsized, fun _ => rfl, fun _ => ⟨hsized, hzero, hid, .inl ⟨rfl, hlen, ?_, ?_⟩⟩⟩
    · show validate (some ((p.code.overlay 0 rows).take rows.length)) = 0
      rwa [htake]
    · show ∀ r ∈ (p.code.overlay 0 rows).take rows.length, r.Fits
      rwa [htake]
  · rwa [load, if_neg hrun, if_neg hzero, if_pos (by rw [hv]; decide)]

theorem commitSource_stored {id : Nat} {text : List UInt8} (hp : p.stored.Sized)
    (hzero : id ≠ 0) (hid : id < 2 ^ 32) (hpos : 0 < text.length) (hle : text.length ≤ 4095)
    (hnul : 0 ∉ text) : (commitSource p id text).stored.Ok := by
  have hlen : (p.source.overlay 0 text).length = 4096 := by
    have hsource : p.source.length = 4096 := hp.source
    rw [length_overlay (by omega), hsource]
  have hsized : (commitSource p id text).stored.Sized := ⟨hp.code, (length_set ..).trans hlen⟩
  have htext := commitSource_bytes p id text
  refine ⟨hsized, fun h => absurd h hzero, fun _ =>
    ⟨hsized, hzero, hid, .inr ⟨rfl, hpos, hle, ?_, ?_⟩⟩⟩
  · show 0 ∉ ((p.source.overlay 0 text).set text.length 0).take text.length
    exact fun h => hnul (htext ▸ h)
  · show ((p.source.overlay 0 text).set text.length 0)[text.length]? = some 0
    rw [List.getElem?_set_self]
    omega

/-! ### One request, one run -/

theorem get32_lt (data : List UInt8) : get32 data < 2 ^ 32 := by
  have hbyte (i : Nat) : byteAt data i < 2 ^ 8 := (data.getD i 0).toNat_lt
  have hshift {i k : Nat} (hk : 8 + k ≤ 32) : byteAt data i <<< k < 2 ^ 32 := by
    rw [Nat.shiftLeft_eq]
    have hmul := Nat.mul_lt_mul_of_pos_right (hbyte i) (Nat.two_pow_pos k)
    rw [← Nat.pow_add] at hmul
    exact Nat.lt_of_lt_of_le hmul (Nat.pow_le_pow_right (by omega) hk)
  have h0 : byteAt data 0 < 2 ^ 32 := Nat.lt_trans (hbyte 0) (by decide)
  exact Nat.or_lt_two_pow (Nat.or_lt_two_pow (Nat.or_lt_two_pow h0 (hshift (by omega)))
    (hshift (by omega))) (hshift (by omega))

theorem packet_id_lt {r : Request} {k : Packet} (h : r.packet = some k) : k.id < 2 ^ 32 := by
  rw [Request.packet] at h
  split at h
  · cases h
  · split at h
    · cases h
    · cases h
      exact get32_lt _

/-- An upload in progress has announced something, and a text that leaves room for its `NUL`. -/
structure Upload.Announced (u : Upload) : Prop where
  pos : u.active = true → 0 < u.size
  text : u.active = true → u.language ≠ 0 → u.size ≤ 4095

theorem Upload.Announced.inactive (u : Upload) : Upload.Announced { u with active := false } :=
  ⟨fun h => (Bool.noConfusion h), fun h => (Bool.noConfusion h)⟩

variable {u : Upload}

theorem Upload.Announced.expire (h : u.Announced) (now : Nat) :
    (u.expire now).Announced := by
  rcases u.expire_eq now with heq | heq
  · rwa [heq]
  · rw [heq]
    exact .inactive u

variable {data : List UInt8}

theorem opBegin_announced {op id owner now : Nat}
    (h : u.Announced) : (opBegin op id owner now p u data).2.Announced := by
  rw [opBegin]
  split
  · exact h
  split
  · exact h
  · by_cases hcount : get32 (data.drop 8) = 0 ∨
        get32 (data.drop 8) > (if op = 7 then 4095 else programLimit)
    · rw [if_pos hcount]
      exact h
    · rw [if_neg hcount]
      obtain ⟨hpos, hle⟩ := not_or.mp hcount
      rw [programLimit] at hle
      by_cases hop : op = 7
      · simp only [hop, if_true] at hle ⊢
        rw [Nat.mod_eq_of_lt (by omega)]
        exact ⟨fun _ => Nat.pos_of_ne_zero hpos, fun _ _ => Nat.not_lt.mp hle⟩
      · simp only [hop, if_false] at hle ⊢
        rw [Nat.mod_eq_of_lt (by omega)]
        refine ⟨fun _ => ?_, fun _ h => absurd rfl h⟩
        show 0 < get32 (data.drop 8) * 16
        omega

theorem opChunk_announced {id owner now : Nat}
    (h : u.Announced) : (opChunk id owner now u data).2.Announced := by
  rw [opChunk]
  split
  · exact h
  dsimp only
  split
  · exact h
  split
  · split
    · exact ⟨h.pos, h.text⟩
    · exact h
  split
  · exact ⟨h.pos, h.text⟩
  · exact h

theorem opCommit_stored {id owner : Nat}
    (hp : p.stored.Ok) (hu : u.Ok) (ha : u.Announced) (hzero : id ≠ 0) (hid : id < 2 ^ 32) :
    (opCommit id owner p u data).2.1.stored.Ok ∧ (opCommit id owner p u data).2.2.Announced := by
  rw [opCommit]
  split
  · exact ⟨hp, ha⟩
  next hmine =>
  simp only [not_or, Bool.not_eq_false, ne_eq, not_not] at hmine
  obtain ⟨-, hactive, -⟩ := hmine
  split
  · exact ⟨hp, .inactive u⟩
  split
  · next hlang =>
    split
    · exact ⟨hp, .inactive u⟩
    · next hnul =>
      split
      · exact ⟨hp, ha⟩
      · have hlen : (u.buffer.take u.size).length = u.size := by
          rw [length_take, hu.buffer]
          exact Nat.min_eq_left hu.size
        refine ⟨?_, .inactive u⟩
        apply commitSource_stored hp.sized hzero hid
        · rw [hlen]
          exact ha.pos hactive
        · rw [hlen]
          exact ha.text hactive hlang
        · exact hnul
  · refine ⟨load_stored hp hid (codeView_fits _ _), ?_⟩
    exact .inactive { u with buffer := _ }

theorem opAbort_announced {id owner : Nat} (h : u.Announced) :
    (opAbort id owner u data).2.Announced := by
  rw [opAbort]
  split
  · exact h
  · exact .inactive u

/-- What the service keeps between two inputs. -/
structure Hub.Ok (s : Hub) : Prop where
  stored : s.program.stored.Ok
  upload : s.upload.Ok
  announced : s.upload.Announced

theorem dispatch_ok {op id owner now : Nat} {s : Hub} (hs : s.Ok)
    (hzero : id ≠ 0 ∨ op = 5) (hid : id < 2 ^ 32) :
    (dispatch op id owner now data s).2.program.stored.Ok ∧
      (dispatch op id owner now data s).2.upload.Announced := by
  unfold dispatch
  split
  · exact ⟨hs.stored, opBegin_announced hs.announced⟩
  · exact ⟨hs.stored, opBegin_announced hs.announced⟩
  · exact ⟨hs.stored, opChunk_announced hs.announced⟩
  · exact opCommit_stored hs.stored hs.upload hs.announced (hzero.resolve_right (by decide)) hid
  · split
    · exact ⟨hs.stored, hs.announced⟩
    split
    · exact ⟨hs.stored, hs.announced⟩
    · refine ⟨?_, hs.announced⟩
      show (start s.program id now).2.stored.Ok
      rw [start_stored]
      exact hs.stored
  · split
    · exact ⟨hs.stored, hs.announced⟩
    · refine ⟨?_, hs.announced⟩
      show (stop s.program s.world).2.1.stored.Ok
      rw [stop_stored]
      exact hs.stored
  · split <;> exact ⟨hs.stored, hs.announced⟩
  · exact ⟨hs.stored, opAbort_announced hs.announced⟩
  · exact ⟨hs.stored, hs.announced⟩

/-- **A request** stores a program or leaves what is stored. -/
theorem request_ok {s : Hub} (hs : s.Ok) (r : Request) : (request s r).1.Ok := by
  have hupload := (request_step s r hs.upload).upload_ok (hs.upload.expire r.now)
  have hexpired : Hub.Ok { s with upload := s.upload.expire r.now } :=
    ⟨hs.stored, hs.upload.expire r.now, hs.announced.expire r.now⟩
  suffices h : (request s r).1.program.stored.Ok ∧ (request s r).1.upload.Announced from
    ⟨h.1, hupload, h.2⟩
  unfold request
  cases hk : r.packet with
  | none => exact ⟨hexpired.stored, hexpired.announced⟩
  | some k =>
    dsimp only
    split
    · exact ⟨hexpired.stored, hexpired.announced⟩
    · next hzero =>
      apply dispatch_ok hexpired
      · rwa [not_and_or, not_not] at hzero
      · exact packet_id_lt hk

end Brickwright.HubProgram
