import Brickwright.CaptureViewer.Live

/-!
# What the live receiver keeps

Noise is dropped with the session that is found behind it, and not before. `discards_iff` says for
which streams, cut into which chunks, nothing is in the buffer that can not become a session.
-/

namespace Brickwright.CaptureViewer

open Bytes CaptureProtocol
open List

variable (strings : Strings) (resolveSchema : Option (UInt16 → Bool))

namespace Receiver

/-- A round of `RunAsync`; `none` if `EnsureCapacity` does not return. -/
def receive (r : Receiver) (chunk : Chunk) : Option Receiver :=
  (r.append chunk.bytes).map fun r =>
    ({ r with bytesRead := r.bytesRead + chunk.bytes.length }.drainSessions strings resolveSchema).2

def receives (r : Receiver) (chunks : List Chunk) : Option Receiver :=
  chunks.foldlM (receive strings resolveSchema) r

end Receiver

/-- Noise is passed over: bytes that no marker begins with, or one that is rejected. -/
inductive Passes : List UInt8 → List UInt8 → Prop
  | here {buf : List UInt8} : Passes buf buf
  | noise {byte : UInt8} {rest buf : List UInt8} :
      (btcs <+: byte :: rest → examine strings resolveSchema (byte :: rest) = .reject) →
      Passes rest buf → Passes (byte :: rest) buf

/-- **What a stream has behind its last session**, told by its bytes: all of it, when behind its
noise there is nothing or a candidate that waits. -/
inductive Leaves : List UInt8 → List UInt8 → Prop
  | session {stream buf last : List UInt8} {totalBytes : Nat} {capture : CaptureFile} :
      Passes strings resolveSchema stream buf → btcs <+: buf →
      examine strings resolveSchema buf = .accept totalBytes capture →
      Leaves (buf.drop (payloadOff + totalBytes + 4)) last → Leaves stream last
  | waits {stream buf : List UInt8} : Passes strings resolveSchema stream buf → btcs <+: buf →
      examine strings resolveSchema buf = .wait → Leaves stream stream
  | noise {stream : List UInt8} : Passes strings resolveSchema stream [] → Leaves stream stream

/-- What the scanner leaves of a stream. -/
def leftover (stream : List UInt8) : List UInt8 :=
  ((sessionScanner strings resolveSchema).scan stream).2

/-- A candidate that waits for more data, or a proper prefix of a marker. -/
def Pending (buf : List UInt8) : Prop :=
  btcs <+: buf ∧ examine strings resolveSchema buf = .wait ∨ ∃ k < btcs.length, buf = btcs.take k

/-- After each chunk the buffer has nothing in front of what may become a session. -/
def Discards (chunks : List Chunk) : Prop :=
  ∀ before, before <+: chunks →
    ∃ r, Receiver.receives strings resolveSchema {} before = some r ∧
      Pending strings resolveSchema r.buf

section Rounds

variable {strings resolveSchema} {r r' : Receiver} {chunk : Chunk} {chunks : List Chunk}
  {stream buf last : List UInt8}

theorem received_concat (chunks : List Chunk) (chunk : Chunk) :
    received (chunks ++ [chunk]) = received chunks ++ chunk.bytes := by
  simp [received]

theorem leftover_append (stream more : List UInt8) :
    leftover strings resolveSchema (leftover strings resolveSchema stream ++ more) =
      leftover strings resolveSchema (stream ++ more) := by
  rw [leftover, leftover, leftover, Scanner.scan_append stream]

/-! ### The scanner and the bytes of the stream -/

theorem tryScanFrom_noise {byte : UInt8} {rest : List UInt8} {start : Nat}
    (h : btcs <+: byte :: rest → examine strings resolveSchema (byte :: rest) = .reject) :
    tryScanFrom strings resolveSchema start (byte :: rest) =
      tryScanFrom strings resolveSchema (start + 1) rest := by
  by_cases hmarker : btcs <+: byte :: rest
  · rw [tryScanFrom_of_indexOf (indexOf_of_start hmarker), drop_zero, h hmarker]
    rfl
  have hcons := indexOf_of_not_start hmarker
  cases hfound : btcs.indexOf rest with
  | none =>
    rw [hfound] at hcons
    rw [tryScanFrom_of_none hcons, tryScanFrom_of_none hfound]
  | some hit =>
    rw [hfound] at hcons
    rw [tryScanFrom_of_indexOf hcons, tryScanFrom_of_indexOf hfound, drop_succ_cons,
      drop_succ_cons, Nat.add_right_comm start 1 hit, Nat.add_assoc start hit 1]

theorem tryScanFrom_of_passes (h : Passes strings resolveSchema stream buf) (start : Nat) :
    ∃ k, buf = stream.drop k ∧
      tryScanFrom strings resolveSchema start stream =
        tryScanFrom strings resolveSchema (start + k) buf := by
  induction h generalizing start with
  | here => exact ⟨0, rfl, rfl⟩
  | noise hnoise _ ih =>
    obtain ⟨k, hbuf, hscan⟩ := ih (start + 1)
    exact ⟨k + 1, hbuf, by rw [tryScanFrom_noise hnoise, hscan, Nat.add_assoc, Nat.add_comm 1]⟩

/-- Behind the noise there is nothing, or a candidate that is not rejected. -/
theorem exists_passes (stream : List UInt8) : ∃ buf, Passes strings resolveSchema stream buf ∧
    (buf = [] ∨ btcs <+: buf ∧ examine strings resolveSchema buf ≠ .reject) := by
  induction stream with
  | nil => exact ⟨[], .here, .inl rfl⟩
  | cons byte rest ih =>
    by_cases hnoise : btcs <+: byte :: rest → examine strings resolveSchema (byte :: rest) = .reject
    · obtain ⟨buf, hpasses, hbuf⟩ := ih
      exact ⟨buf, .noise hnoise hpasses, hbuf⟩
    · exact ⟨byte :: rest, .here, .inr (Classical.not_imp.mp hnoise)⟩

theorem tryScan_of_passes (h : Passes strings resolveSchema stream buf) (hmarker : btcs <+: buf) :
    ∃ k, buf = stream.drop k ∧
      tryScan strings resolveSchema stream =
        match examine strings resolveSchema buf with
        | .wait => none
        | .reject => tryScanFrom strings resolveSchema (k + 1) (buf.drop 1)
        | .accept totalBytes capture => some ⟨k, k + payloadOff + totalBytes + 4, capture⟩ := by
  obtain ⟨k, hbuf, hscan⟩ := tryScanFrom_of_passes h 0
  rw [Nat.zero_add] at hscan
  refine ⟨k, hbuf, hscan.trans ?_⟩
  cases hcons : buf with
  | nil => exact absurd (hcons ▸ hmarker) (by decide)
  | cons byte rest =>
    rw [tryScanFrom_of_indexOf (indexOf_of_start (hcons ▸ hmarker))]
    rfl

theorem leftover_of_leaves (h : Leaves strings resolveSchema stream last) :
    leftover strings resolveSchema stream = last := by
  induction h with
  | session hpasses hmarker haccept _ ih =>
    obtain ⟨k, rfl, hscan⟩ := tryScan_of_passes hpasses hmarker
    rw [haccept] at hscan
    have hnext : (sessionScanner strings resolveSchema).next _ = some _ :=
      congrArg (Option.map _) hscan
    rw [leftover, Scanner.scan_of_some hnext, ← ih, drop_drop]
    simp only [leftover, Nat.add_assoc]
  | waits hpasses hmarker hwait =>
    obtain ⟨k, -, hscan⟩ := tryScan_of_passes hpasses hmarker
    rw [hwait] at hscan
    exact congrArg Prod.snd (Scanner.scan_of_none (congrArg (Option.map _) hscan))
  | noise hpasses =>
    obtain ⟨k, -, hscan⟩ := tryScanFrom_of_passes hpasses 0
    have hnone := hscan.trans (tryScanFrom_of_none (show btcs.indexOf [] = none by decide))
    exact congrArg Prod.snd (Scanner.scan_of_none (congrArg (Option.map _) hnone))

theorem leaves_leftover (stream : List UInt8) :
    Leaves strings resolveSchema stream (leftover strings resolveSchema stream) := by
  obtain ⟨buf, hpasses, rfl | ⟨hmarker, hkept⟩⟩ := @exists_passes strings resolveSchema stream
  · have h := Leaves.noise hpasses
    rwa [leftover_of_leaves h]
  cases hverdict : examine strings resolveSchema buf with
  | wait =>
    have h := Leaves.waits hpasses hmarker hverdict
    rwa [leftover_of_leaves h]
  | reject => exact absurd hverdict hkept
  | accept totalBytes capture =>
    obtain ⟨k, hbuf, -⟩ := tryScanFrom_of_passes hpasses 0
    have hlength := length_of_accept hverdict
    have h := Leaves.session hpasses hmarker hverdict
      (leaves_leftover (buf.drop (payloadOff + totalBytes + 4)))
    rwa [leftover_of_leaves h]
termination_by stream.length
decreasing_by
  have hle := congrArg List.length hbuf
  simp only [length_drop] at hle ⊢
  omega

/-- **The scanner leaves what the bytes say.** -/
theorem leaves_iff :
    Leaves strings resolveSchema stream last ↔ last = leftover strings resolveSchema stream :=
  ⟨fun h => (leftover_of_leaves h).symm, fun h => h ▸ leaves_leftover stream⟩

/-! ### The rounds -/

theorem receive_of_le (hr : r.Sized) (h : r.buf.length + chunk.bytes.length ≤ 2 ^ 30) :
    ∃ r', r.receive strings resolveSchema chunk = some r' ∧ r'.Sized ∧
      r'.buf = leftover strings resolveSchema (r.buf ++ chunk.bytes) := by
  obtain ⟨r₁, happend, hsized, hbuf⟩ := Receiver.append_of_le hr h
  have hread : Receiver.Sized { r₁ with bytesRead := r₁.bytesRead + chunk.bytes.length } :=
    ⟨hsized.power, hsized.holds⟩
  rw [Receiver.receive, happend, ← hbuf]
  exact ⟨_, rfl, Receiver.drainSessions_sized hread, rfl⟩

theorem of_receive (hr : r.Sized) (h : r.receive strings resolveSchema chunk = some r') :
    r'.Sized ∧ r'.buf = leftover strings resolveSchema (r.buf ++ chunk.bytes) := by
  rcases Nat.lt_or_ge (2 ^ 30) (r.buf.length + chunk.bytes.length) with hfull | hfits
  · rw [Receiver.receive, Receiver.append_of_lt hr hfull] at h
    cases h
  · obtain ⟨_, hsome, hspec⟩ := receive_of_le hr hfits
    cases hsome.symm.trans h
    exact hspec

theorem receives_concat (chunks : List Chunk) (chunk : Chunk) :
    Receiver.receives strings resolveSchema r (chunks ++ [chunk]) =
      (Receiver.receives strings resolveSchema r chunks).bind
        (Receiver.receive strings resolveSchema · chunk) := by
  simp [Receiver.receives]

/-- **The buffer after any chunks** is what their bytes have behind the last session. -/
theorem of_receives (h : Receiver.receives strings resolveSchema {} chunks = some r) :
    r.Sized ∧ r.buf = leftover strings resolveSchema (received chunks) := by
  induction chunks using List.reverseRecOn generalizing r with
  | nil =>
    cases h
    exact ⟨Receiver.sized_default, (congrArg Prod.snd (Scanner.scan_of_none Scanner.next_nil)).symm⟩
  | append_singleton chunks chunk ih =>
    rw [receives_concat] at h
    obtain ⟨r₀, h₀, hlast⟩ := Option.bind_eq_some_iff.mp h
    obtain ⟨hsized, hbuf⟩ := ih h₀
    obtain ⟨hsized', hbuf'⟩ := of_receive hsized hlast
    rw [hbuf, leftover_append, ← received_concat] at hbuf'
    exact ⟨hsized', hbuf'⟩

theorem totalBytes_le {metaBlock : List UInt8} (h : plausibleMeta strings resolveSchema metaBlock) :
    (int32 (metaBlock.window 4 4)).toNat ≤ payloadSanityMaxBytes := by
  unfold plausibleMeta isPlausible at h
  split at h
  · cases h
  split at h
  · cases h
  next hmax => exact Int.toNat_le.mpr (Int.not_lt.mp hmax)

theorem conclude_ne_wait (totalBytes : Nat) (payload terminator : List UInt8) :
    conclude strings totalBytes payload terminator ≠ .wait := by
  unfold conclude
  split
  · exact nofun
  · split <;> exact nofun

/-- A candidate does not wait for long. -/
theorem length_of_pending {buf : List UInt8} (h : Pending strings resolveSchema buf) :
    buf.length ≤ payloadOff + payloadSanityMaxBytes + 4 := by
  rcases h with ⟨-, hwait⟩ | ⟨k, hk, rfl⟩
  · unfold examine at hwait
    dsimp only at hwait
    split at hwait
    · omega
    split at hwait
    · cases hwait
    next hplausible =>
    split at hwait
    · have hmax := totalBytes_le (not_not.mp hplausible)
      omega
    · exact absurd hwait (conclude_ne_wait _ _ _)
  · have hfour : btcs.length ≤ payloadOff := by decide
    exact Nat.le_trans (length_take_le ..) (by omega)

/-- **When noise is discarded**, and the buffer never full. -/
theorem discards_iff (chunks : List Chunk) : Discards strings resolveSchema chunks ↔
    ∀ before, before <+: chunks → ∃ last, Leaves strings resolveSchema (received before) last ∧
      Pending strings resolveSchema last := by
  constructor
  · intro h before hbefore
    obtain ⟨r, hr, hpending⟩ := h before hbefore
    exact ⟨r.buf, leaves_iff.mpr (of_receives hr).2, hpending⟩
  · intro h before
    induction before using List.reverseRecOn with
    | nil => exact fun _ => ⟨{}, rfl, .inr ⟨0, by decide, rfl⟩⟩
    | append_singleton before chunk ih =>
      intro hbefore
      obtain ⟨r, hr, hpending⟩ := ih ((prefix_append ..).trans hbefore)
      have hsmall := length_of_pending hpending
      have hchunk := chunk.fits
      have hroom : payloadOff + payloadSanityMaxBytes + 4 + readChunkBytes ≤ 2 ^ 30 := by decide
      obtain ⟨r', hr', -⟩ := (@receive_of_le strings resolveSchema) (of_receives hr).1
        (show r.buf.length + chunk.bytes.length ≤ 2 ^ 30 by omega)
      have hall : Receiver.receives strings resolveSchema {} (before ++ [chunk]) = some r' := by
        rw [receives_concat, hr]
        exact hr'
      refine ⟨r', hall, ?_⟩
      obtain ⟨last, hleaves, hlast⟩ := h _ hbefore
      rwa [(of_receives hall).2, ← leaves_iff.mp hleaves]

end Rounds

/-- A byte of noise. -/
theorem not_discards : ¬ ∀ strings resolveSchema chunks, Discards strings resolveSchema chunks := by
  intro h
  obtain ⟨r, hr, hpending⟩ := h ascii none [⟨[0], by decide, by decide⟩] _ prefix_rfl
  have hnone : (sessionScanner ascii none).next [0] = none := by
    show (tryScan ascii none [0]).map _ = none
    rw [tryScan, tryScanFrom_of_none (by decide)]
    rfl
  have hbuf : r.buf = [0] :=
    (of_receives hr).2.trans (congrArg Prod.snd (Scanner.scan_of_none hnone))
  rw [hbuf] at hpending
  rcases hpending with ⟨hmarker, -⟩ | hprefix
  · exact absurd hmarker (by decide)
  · exact absurd hprefix (by decide)

end Brickwright.CaptureViewer
