import Brickwright.HubProgram.Upload.Basic

/-!
# Decoding in place

An instruction commit decodes the received bytes inside the union that holds them: each field is
written, as a native `int32_t`, over the four bytes it was decoded from. On the little-endian target
this changes no byte (`decodeRows_eq`), and the rows seen through the union's other member are
spelled by exactly the received bytes (`flatMap_rowBytes_codeView`).
-/

namespace Brickwright.HubProgram

open Bytes
open List

def rowBytes (ins : Instruction) : List UInt8 :=
  int32Bytes ins.op ++ int32Bytes ins.a ++ int32Bytes ins.b ++ int32Bytes ins.c

theorem get32_eq_leNat {p : List UInt8} (h : 4 ≤ p.length) : get32 p = leNat (p.take 4) := by
  obtain ⟨b₀, b₁, b₂, b₃, rest, rfl⟩ : ∃ b₀ b₁ b₂ b₃ rest, p = b₀ :: b₁ :: b₂ :: b₃ :: rest := by
    match p, h with
    | b₀ :: b₁ :: b₂ :: b₃ :: rest, _ => exact ⟨b₀, b₁, b₂, b₃, rest, rfl⟩
  have h₀ := b₀.toNat_lt
  have h₁ := b₁.toNat_lt
  have h₂ := b₂.toNat_lt
  have hsum : get32 (b₀ :: b₁ :: b₂ :: b₃ :: rest)
      = b₀.toNat + 2 ^ 8 * b₁.toNat + 2 ^ 16 * b₂.toNat + 2 ^ 24 * b₃.toNat := by
    show b₀.toNat ||| b₁.toNat <<< 8 ||| b₂.toNat <<< 16 ||| b₃.toNat <<< 24 = _
    have h8 : b₀.toNat ||| b₁.toNat <<< 8 = b₀.toNat + 2 ^ 8 * b₁.toNat :=
      or_shiftLeft_eq_add (by omega)
    have h16 : (b₀.toNat + 2 ^ 8 * b₁.toNat) ||| b₂.toNat <<< 16
        = b₀.toNat + 2 ^ 8 * b₁.toNat + 2 ^ 16 * b₂.toNat := or_shiftLeft_eq_add (by omega)
    rw [h8, h16, or_shiftLeft_eq_add (by omega)]
  show _ = leNat [b₀, b₁, b₂, b₃]
  simp only [leNat_cons, leNat_nil]
  omega

theorem signed32_formula {v : Nat} (h : v < 2 ^ 32) :
    (if v ≤ 0x7fffffff then (v : Int) else -((2 ^ 32 - 1 - v : Nat) : Int) - 1)
      = Int.bmod v (2 ^ 32) := by
  rw [Int.bmod_def]
  split <;> omega

theorem signed32_eq_int32 {p : List UInt8} (h : 4 ≤ p.length) : signed32 p = int32 (p.take 4) := by
  have hlt := leNat_lt (p.take 4)
  rw [length_take, Nat.min_eq_left h] at hlt
  unfold signed32 int32
  rw [get32_eq_leNat h]
  exact signed32_formula hlt

variable {buffer : List UInt8}

/-- **One field**: storing it writes the bytes that were there. -/
theorem decodeField_eq {off : Nat} (h : off + 4 ≤ buffer.length) :
    decodeField buffer off = buffer := by
  have hdrop : 4 ≤ (buffer.drop off).length := by rw [length_drop]; omega
  have hlen : ((buffer.drop off).take 4).length = 4 := by rw [length_take]; omega
  apply overlay_self
  rw [length_int32Bytes, signed32_eq_int32 hdrop, int32Bytes_int32 hlen]

theorem decodeRow_eq {i : Nat} (h : 16 * i + 16 ≤ buffer.length) :
    decodeRow buffer i = buffer := by
  have hfield : ∀ off, off + 4 ≤ 16 * i + 16 → decodeField buffer off = buffer :=
    fun off hoff => decodeField_eq (by omega)
  rw [decodeRow, hfield (16 * i) (by omega), hfield (16 * i + 4) (by omega),
    hfield (16 * i + 8) (by omega), hfield (16 * i + 12) (by omega)]

/-- **The whole loop** leaves the memory of the union as it was. -/
theorem decodeRows_eq {count : Nat} (h : 16 * count ≤ buffer.length) :
    decodeRows count buffer = buffer := by
  unfold decodeRows
  induction count with
  | zero => rfl
  | succ count ih =>
    rw [range_succ, foldl_append, ih (by omega), foldl_cons, foldl_nil,
      decodeRow_eq (by omega)]

/-! ## The rows behind the bytes -/

theorem int32Bytes_wordAt {off : Nat} (h : off + 4 ≤ buffer.length) :
    int32Bytes (wordAt buffer off) = (buffer.drop off).take 4 := by
  apply int32Bytes_int32
  rw [length_take, length_drop]
  omega

theorem rowBytes_codeAt {i : Nat} (h : 16 * i + 16 ≤ buffer.length) :
    rowBytes (codeAt buffer i) = (buffer.drop (16 * i)).take 16 := by
  have hsplit : ∀ m n off, (buffer.drop off).take (m + n)
      = (buffer.drop off).take m ++ (buffer.drop (off + m)).take n := by
    intro m n off
    rw [take_add, drop_drop]
  simp only [rowBytes, codeAt]
  rw [int32Bytes_wordAt (by omega), int32Bytes_wordAt (by omega), int32Bytes_wordAt (by omega),
    int32Bytes_wordAt (by omega), ← hsplit 4 4, ← hsplit 8 4, ← hsplit 12 4]

/-- **The rows are spelled by the received bytes.** -/
theorem flatMap_rowBytes_codeView {count : Nat} (h : 16 * count ≤ buffer.length) :
    (codeView buffer count).flatMap rowBytes = buffer.take (16 * count) := by
  unfold codeView
  induction count with
  | zero => simp
  | succ count ih =>
    have htake : buffer.take (16 * (count + 1))
        = buffer.take (16 * count) ++ (buffer.drop (16 * count)).take 16 := by
      rw [Nat.mul_succ, take_add]
    rw [range_succ, map_append, flatMap_append, ih (by omega), htake]
    simp [rowBytes_codeAt (i := count) (by omega)]

/-!
## What one request can do

`RequestStep` lists the outcomes of `bw_program_request` once the expiry at its top has been
applied: a begin, a retried or an extending chunk and a commit are accepted, and everything else
leaves the stored program alone and at most ends the requester's own upload. `request_step` says
that this list is complete; every later result about requests goes through it.
-/

/-! ### The stored program -/

/-- The part of the program that an execution does not touch. -/
structure Stored where
  code : List Instruction
  source : List UInt8
  language : Nat
  count : Nat
  id : Nat

def Program.stored (p : Program) : Stored := ⟨p.code, p.source, p.language, p.count, p.id⟩

def Control.program : Control → Program
  | .ret r => r.1
  | .next p _ => p

theorem execute_stored (now : Nat) (p : Program) (ins : Instruction) (w : World) :
    (execute now p ins w).program.stored = p.stored := by
  unfold execute
  split <;> (try simp only) <;> (try split) <;> (try split) <;> rfl

theorem interpret_stored (now budget : Nat) (p : Program) (w : World) :
    (interpret now budget p w).1.stored = p.stored := by
  induction budget generalizing p w with
  | zero => rfl
  | succ budget ih =>
    rw [interpret]
    split
    · rfl
    · next ins _ =>
      have hstep := execute_stored now p ins
        (w.observe (.fetch p.pc p.count (p.fetched.map (·.op))))
      split
      · next r heq => rwa [heq] at hstep
      · next p' w' heq =>
        rw [heq] at hstep
        exact (ih p' w').trans hstep

theorem tickEnding_stored (p : Program) (now : Nat) (w : World) :
    (tickEnding p now w).1.stored = p.stored := by
  unfold tickEnding
  split
  · split
    · split <;> rfl
    · rfl
  · exact interpret_stored now budget p w

theorem tickAwaiting_stored (p : Program) (now : Nat) (w : World) :
    (tickAwaiting p now w).1.stored = p.stored := by
  unfold tickAwaiting
  split
  · split
    · split <;> rfl
    · exact tickEnding_stored _ now _
  · exact tickEnding_stored p now w

theorem tickMoving_stored (p : Program) (now : Nat) (w : World) :
    (tickMoving p now w).1.stored = p.stored := by
  unfold tickMoving
  split
  · simp only
    split
    · rfl
    · split
      · rfl
      · exact tickAwaiting_stored _ now _
  · exact tickAwaiting_stored p now w

/-- **A tick runs the program and leaves what is stored alone.** -/
theorem tick_stored (p : Program) (now : Nat) (w : World) :
    (tick p now w).1.stored = p.stored := by
  unfold tick
  split
  · rfl
  · split
    · rfl
    · simp only
      split
      · rfl
      · split
        · rfl
        · exact tickMoving_stored _ now w

theorem start_stored (p : Program) (id now : Nat) : (start p id now).2.stored = p.stored := by
  unfold start
  split
  · rfl
  · split
    · rfl
    · split <;> rfl

theorem stop_stored (p : Program) (w : World) : (stop p w).2.1.stored = p.stored := by
  simp only [stop]
  split
  · rfl
  · split <;> rfl

theorem stop_state (p : Program) (w : World) (h : (stop p w).2.1.state = .running) :
    p.state = .running := by
  simp only [stop] at h
  split at h
  · simp [fault] at h
  · split at h
    · simp at h
    · exact h

/-- The bytes of the committed program: its rows as they lie in memory, or its source text. -/
def Program.committedBytes (p : Program) : List UInt8 :=
  if p.language = 0 then (p.code.take p.count).flatMap rowBytes else p.source.take p.count

/-! ### The upload invariant -/

/-- The buffer is the whole union, and what has been received fits what was announced. -/
structure Upload.Ok (u : Upload) : Prop where
  buffer : u.buffer.length = 4096
  received : u.received ≤ u.size
  size : u.size ≤ 4096
  language : u.language = 0 ∨ u.language = 1
  rows : u.language = 0 → 16 * (u.size / 16) = u.size

theorem Upload.init_ok : Upload.init.Ok where
  buffer := length_replicate
  received := Nat.le_refl 0
  size := Nat.zero_le 4096
  language := .inl rfl
  rows _ := rfl

variable {u : Upload}

theorem Upload.Ok.expire (h : u.Ok) (now : Nat) : (u.expire now).Ok := by
  unfold Upload.expire
  split
  · exact ⟨h.buffer, h.received, h.size, h.language, h.rows⟩
  · exact h

theorem Upload.expire_eq (u : Upload) (now : Nat) :
    u.expire now = u ∨ u.expire now = { u with active := false } := by
  unfold Upload.expire
  split
  · exact .inr rfl
  · exact .inl rfl

/-! ### What a begin announces -/

structure Announcement where
  owner : Nat
  id : Nat
  language : Nat
  size : Nat
  crc : Nat
  deriving DecidableEq

/-- The announcement a begin packet makes. -/
def Packet.announcement (k : Packet) (owner : Nat) : Announcement where
  owner := owner
  id := k.id
  language := if k.op = 7 then 1 else 0
  size := if k.op = 7 then get32 (k.data.drop 8) else get32 (k.data.drop 8) * 16
  crc := get32 (k.data.drop 12)

/-- The upload right after an accepted begin. -/
def Upload.begun (u : Upload) (a : Announcement) (now : Nat) : Upload :=
  { u with
    id := a.id, owner := a.owner, crc := a.crc, language := a.language, size := a.size
    received := 0, active := true, activity := now }

def Packet.payload (k : Packet) : List UInt8 := k.data.drop 10

/-! ### The outcomes of a request -/

/-- The outcomes of a request, from the upload `u` left by the expiry and the program `p`. -/
inductive RequestStep (r : Request) (u : Upload) (p : Program) : Int → Upload → Program → Prop where
  | begun {k : Packet} : r.packet = some k → k.op = 0 ∨ k.op = 7 → u.active = false →
      p.state ≠ .running → (k.announcement r.owner).size ≤ 4096 →
      ((k.announcement r.owner).language = 0 →
        16 * ((k.announcement r.owner).size / 16) = (k.announcement r.owner).size) →
      RequestStep r u p 0 (u.begun (k.announcement r.owner) r.now) p
  | retried {k : Packet} : r.packet = some k → k.op = 1 → u.active = true → u.owner = r.owner →
      u.id = k.id → chunkOffset k.data + k.payload.length ≤ u.received →
      (u.buffer.drop (chunkOffset k.data)).take k.payload.length = k.payload →
      RequestStep r u p 0 { u with activity := r.now } p
  | extended {k : Packet} : r.packet = some k → k.op = 1 → u.active = true → u.owner = r.owner →
      u.id = k.id → chunkOffset k.data = u.received → u.received + k.payload.length ≤ u.size →
      RequestStep r u p 0
        { u with
          buffer := u.buffer.overlay u.received k.payload
          received := u.received + k.payload.length
          activity := r.now } p
  | committed {k : Packet} {p' : Program} : r.packet = some k → k.op = 2 → u.active = true →
      u.owner = r.owner → u.id = k.id → u.received = u.size →
      (crc32 u.assembled).toNat = u.crc → p'.id = k.id →
      p'.language = u.language →
      p'.committedBytes = u.assembled → p'.state ≠ .running →
      (u.language = 0 → validate (some (p'.code.take p'.count)) = 0) →
      RequestStep r u p 0 { u with active := false } p'
  | refused {rc : Int} {u' : Upload} {p' : Program} : p'.stored = p.stored →
      (∀ k, r.packet = some k → k.op = 0 ∨ k.op = 7 ∨ k.op = 1 ∨ k.op = 2 → rc ≠ 0) →
      u' = u ∨ (u' = { u with active := false } ∧ u.active = true ∧ u.owner = r.owner) →
      (p'.state = .running → p.state = .running ∨ u'.active = false) →
      RequestStep r u p rc u' p'

/-! ### Every request is one of these -/

variable {r : Request} {p : Program} {k : Packet}

theorem opBegin_step (hk : r.packet = some k) (hop : k.op = 0 ∨ k.op = 7) :
    RequestStep r u p (opBegin k.op k.id r.owner r.now p u k.data).1
      (opBegin k.op k.id r.owner r.now p u k.data).2 p := by
  have hrefused : ∀ rc : Int, rc ≠ 0 → RequestStep r u p rc u p := fun rc hrc =>
    .refused rfl (fun _ _ _ => hrc) (.inl rfl) .inl
  simp only [opBegin]
  split
  · exact hrefused _ (by simp [EINVAL])
  · split
    · exact hrefused _ (by simp [EBUSY])
    · next hfree =>
      obtain ⟨hidle, hactive⟩ := not_or.mp hfree
      by_cases hcount : get32 (k.data.drop 8) = 0 ∨
          get32 (k.data.drop 8) > (if k.op = 7 then 4095 else programLimit)
      · rw [if_pos hcount]
        exact hrefused _ (by simp [EINVAL])
      · rw [if_neg hcount]
        have hlimit := (not_or.mp hcount).2
        -- The announced size is below 2^16, so storing it in 16 bits loses nothing.
        have hsize : (if k.op = 7 then get32 (k.data.drop 8) else get32 (k.data.drop 8) * 16)
            ≤ 4096 := by
          split at hlimit
          · next h => rw [if_pos h]; omega
          · next h => rw [if_neg h]; unfold programLimit at hlimit; omega
        have hrows : (k.announcement r.owner).language = 0 →
            16 * ((k.announcement r.owner).size / 16) = (k.announcement r.owner).size := by
          unfold Packet.announcement
          intro hlang
          split at hlang
          · simp at hlang
          · next h => simp only [if_neg h]; omega
        rw [Nat.mod_eq_of_lt (Nat.lt_of_le_of_lt hsize (by omega : 4096 < 2 ^ 16))]
        exact .begun hk hop (by simpa using hactive) hidle hsize hrows

theorem opChunk_step (hu : u.Ok) (hk : r.packet = some k) (hop : k.op = 1) :
    RequestStep r u p (opChunk k.id r.owner r.now u k.data).1
      (opChunk k.id r.owner r.now u k.data).2 p := by
  have hrefused : RequestStep r u p (-EINVAL) u p :=
    .refused rfl (fun _ _ _ => by simp [EINVAL]) (.inl rfl) .inl
  have hlen : k.payload.length = k.data.length - 10 := length_drop
  simp only [opChunk]
  split
  · exact hrefused
  · next hmine =>
    simp only [not_or, Bool.not_eq_false, ne_eq, not_not] at hmine
    obtain ⟨hge, hactive, howner, hid⟩ := hmine
    split
    · exact hrefused
    · next hfit =>
      split
      · split
        · next hretry =>
          exact .retried hk hop hactive howner hid (hlen ▸ hretry.1) (hlen ▸ hretry.2)
        · exact hrefused
      · split
        · next hoff =>
          have hfit' : u.received + k.payload.length ≤ u.size := by omega
          have hstep := RequestStep.extended (p := p) hk hop hactive howner hid hoff hfit'
          have hmod : (chunkOffset k.data + (k.data.length - 10)) % 2 ^ 16
              = u.received + k.payload.length := by
            have := hu.size
            rw [hoff, ← hlen]
            exact Nat.mod_eq_of_lt (by omega)
          rw [hmod, hoff]
          exact hstep
        · exact hrefused

theorem opAbort_step (hk : r.packet = some k) (hop : k.op = 6) :
    RequestStep r u p (opAbort k.id r.owner u k.data).1 (opAbort k.id r.owner u k.data).2 p := by
  have hother : ∀ (rc : Int) k', r.packet = some k' →
      k'.op = 0 ∨ k'.op = 7 ∨ k'.op = 1 ∨ k'.op = 2 → rc ≠ 0 := by
    intro rc k' hk' h
    obtain rfl : k = k' := Option.some.inj (hk.symm.trans hk')
    omega
  unfold opAbort
  split
  · exact .refused rfl (hother _) (.inl rfl) .inl
  · next hmine =>
    simp only [not_or, Bool.not_eq_false, ne_eq, not_not] at hmine
    exact .refused rfl (hother _) (.inr ⟨rfl, hmine.2.1, hmine.2.2.2.symm⟩) .inl

/-! #### Commit -/

theorem validate_eq (code : Option (List Instruction)) :
    validate code = 0 ∨ validate code = -EINVAL := by
  unfold validate
  split
  · exact .inr rfl
  · split
    · exact .inr rfl
    · split
      · split
        · exact .inl rfl
        · exact .inr rfl
      · exact .inr rfl

/-- A load either refuses and changes nothing, or installs exactly the rows it was given. -/
theorem load_cases (p : Program) (id : Nat) (rows : List Instruction) :
    ((load p id (some rows)).1 ≠ 0 ∧ (load p id (some rows)).2 = p) ∨
    ((load p id (some rows)).1 = 0 ∧ validate (some rows) = 0 ∧
      (load p id (some rows)).2.language = 0 ∧ (load p id (some rows)).2.id = id ∧
      (load p id (some rows)).2.state = .ready ∧
      (load p id (some rows)).2.code.take (load p id (some rows)).2.count = rows) := by
  by_cases hrun : p.state = .running
  · exact .inl (by simp [load, hrun, EBUSY])
  by_cases hid : id = 0
  · exact .inl (by simp [load, hrun, hid, EINVAL])
  rcases validate_eq (some rows) with hv | hv
  · refine .inr ?_
    have htake : (p.code.overlay 0 rows).take rows.length = rows := by
      simpa using take_overlay (l := p.code) rows (Nat.zero_le _)
    simp [load, hrun, hid, hv, htake]
  · exact .inl (by simp [load, hrun, hid, hv, EINVAL])

/-- The committed source is the text, whatever the array held before. -/
theorem commitSource_bytes (p : Program) (id : Nat) (text : List UInt8) :
    (commitSource p id text).committedBytes = text := by
  have htake : (p.source.overlay 0 text).take text.length = text := by
    simpa using take_overlay (l := p.source) text (Nat.zero_le _)
  show ((p.source.overlay 0 text).set text.length 0).take text.length = text
  rw [take_set_of_le (Nat.le_refl _), htake]

theorem opCommit_step (hu : u.Ok) (hk : r.packet = some k) (hop : k.op = 2) :
    RequestStep r u p (opCommit k.id r.owner p u k.data).1
      (opCommit k.id r.owner p u k.data).2.2 (opCommit k.id r.owner p u k.data).2.1 := by
  have hkeep : ∀ rc : Int, rc ≠ 0 → RequestStep r u p rc u p := fun rc hrc =>
    .refused rfl (fun _ _ _ => hrc) (.inl rfl) .inl
  simp only [opCommit]
  split
  · exact hkeep _ (by simp [EINVAL])
  · next hmine =>
    simp only [not_or, Bool.not_eq_false, ne_eq, not_not] at hmine
    obtain ⟨-, hactive, howner, hid, hall⟩ := hmine
    have hdrop : ∀ rc : Int, rc ≠ 0 → RequestStep r u p rc { u with active := false } p :=
      fun rc hrc => .refused rfl (fun _ _ _ => hrc) (.inr ⟨rfl, hactive, howner⟩) .inl
    have hassembled : u.buffer.take u.size = u.assembled := by rw [Upload.assembled, hall]
    split
    · exact hdrop _ (by simp [EBADMSG])
    · next hcrc =>
      rw [not_not, hassembled] at hcrc
      split
      · next hlang =>
        split
        · exact hdrop _ (by simp [EINVAL])
        · split
          · exact hkeep _ (by simp [EBUSY])
          · have hone : u.language = 1 := hu.language.resolve_left hlang
            refine .committed hk hop hactive howner hid hall hcrc rfl hone.symm ?_
              (by simp [commitSource])
              (fun h => absurd h hlang)
            rw [commitSource_bytes, hassembled]
      · next hlang =>
        have hzero : u.language = 0 := by simpa using hlang
        have hsize := hu.rows hzero
        have hfit : 16 * (u.size / 16) ≤ u.buffer.length := by rw [hu.buffer, hsize]; exact hu.size
        -- On this target the fields of a row decode to the bytes they were read from.
        rw [decodeRows_eq hfit]
        rcases load_cases p k.id (codeView u.buffer (u.size / 16)) with ⟨hrc, hp⟩ | h
        · rw [hp]
          exact hdrop _ hrc
        · obtain ⟨hrc, hvalid, hlang', hid', hstate, hrows⟩ := h
          rw [hrc]
          refine .committed hk hop hactive howner hid hall hcrc hid' (hlang'.trans hzero.symm) ?_
            (by rw [hstate]; simp) (fun _ => by rw [hrows]; exact hvalid)
          rw [Program.committedBytes, if_pos hlang', hrows, flatMap_rowBytes_codeView hfit, hsize,
            hassembled]

/-! #### Dispatch -/

/-- **The outcomes are complete**: every request, from every state, is one of `RequestStep`. -/
theorem request_step (s : Hub) (r : Request) (hu : s.upload.Ok) :
    RequestStep r (s.upload.expire r.now) s.program (request s r).2.rc (request s r).1.upload
      (request s r).1.program := by
  have hu' := hu.expire r.now
  unfold request
  cases hk : r.packet with
  | none => exact .refused rfl (fun k h => by simp [hk] at h) (.inl rfl) .inl
  | some k =>
    simp only
    split
    · exact .refused rfl (fun _ _ _ => by simp [respond, EINVAL]) (.inl rfl) .inl
    · -- A request of another opcode is refused in the sense of the list, whatever it returns.
      have hother : k.op ≠ 0 ∧ k.op ≠ 7 ∧ k.op ≠ 1 ∧ k.op ≠ 2 → ∀ (rc : Int) k',
          r.packet = some k' → k'.op = 0 ∨ k'.op = 7 ∨ k'.op = 1 ∨ k'.op = 2 → rc ≠ 0 := by
        intro hne rc k' hk' h
        obtain rfl : k = k' := Option.some.inj (hk.symm.trans hk')
        omega
      unfold dispatch
      split
      · next hop => exact opBegin_step hk (.inr hop)
      · next hop => exact opBegin_step hk (.inl hop)
      · next hop => exact opChunk_step hu' hk hop
      · next hop => exact opCommit_step hu' hk hop
      · next hop =>
        have hne := hother (by omega)
        split
        · exact .refused rfl (hne _) (.inl rfl) .inl
        · split
          · exact .refused rfl (hne _) (.inl rfl) .inl
          · next hactive =>
            exact .refused (start_stored _ _ _) (hne _) (.inl rfl)
              (fun _ => .inr (by simpa using hactive))
      · next hop =>
        have hne := hother (by omega)
        split
        · exact .refused rfl (hne _) (.inl rfl) .inl
        · exact .refused (stop_stored _ _) (hne _) (.inl rfl) (fun h => .inl (stop_state _ _ h))
      · next hop =>
        have hne := hother (by omega)
        split <;> exact .refused rfl (hne _) (.inl rfl) .inl
      · next hop => exact opAbort_step hk hop
      · next h7 h0 h1 h2 _ _ _ _ =>
        exact .refused rfl (hother ⟨h0, h7, h1, h2⟩ _) (.inl rfl) .inl

theorem RequestStep.upload_ok {u u' : Upload} {p p' : Program} {rc : Int}
    (h : RequestStep r u p rc u' p') (hu : u.Ok) : u'.Ok := by
  cases h with
  | begun hk hop _ _ hsize hrows =>
    refine ⟨hu.buffer, Nat.zero_le _, hsize, ?_, hrows⟩
    show (if _ then 1 else 0) = 0 ∨ (if _ then 1 else 0) = 1
    split <;> simp
  | retried => exact ⟨hu.buffer, hu.received, hu.size, hu.language, hu.rows⟩
  | extended _ _ _ _ _ _ hfit =>
    refine ⟨?_, hfit, hu.size, hu.language, hu.rows⟩
    have := hu.size
    rw [length_overlay (by rw [hu.buffer]; omega), hu.buffer]
  | committed => exact ⟨hu.buffer, hu.received, hu.size, hu.language, hu.rows⟩
  | refused _ _ hu' _ =>
    rcases hu' with rfl | ⟨rfl, -⟩
    · exact hu
    · exact ⟨hu.buffer, hu.received, hu.size, hu.language, hu.rows⟩

theorem Upload.expire_active {now : Nat} (h : (u.expire now).active = true) :
    u.expire now = u ∧ u.active = true := by
  rcases u.expire_eq now with heq | heq
  · exact ⟨heq, heq ▸ h⟩
  · rw [heq] at h
    simp at h

end Brickwright.HubProgram
