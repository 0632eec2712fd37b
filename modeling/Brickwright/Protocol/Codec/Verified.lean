import Brickwright.Protocol.Codec.Memory

/-!
# The two codecs agree

* `pack_sound`: a packed frame is what both implementations send, its control bytes stand where the
  stream decoder expects them, and unpacking it gives the payload back.
* `unpack_agrees`: on any bytes at all the two decoders accept the same frames and find the same
  payloads, and the C decoder stays within the memory it was given.
-/

namespace Brickwright.Protocol

open List

/-! ## Escaping -/

theorem unescape_eq (bytes : List UInt8) : C.unescape bytes = Js.unescape bytes := by
  induction bytes with
  | nil => rfl
  | cons b bytes ih =>
    have hcond : (b = 1 ∨ b = 2 ∨ b = 3) ↔ (b ≥ 1 ∧ b ≤ 3) := by
      rw [ge_iff_le, UInt8.le_iff_toNat_le, UInt8.le_iff_toNat_le, ← UInt8.toNat_inj,
        ← UInt8.toNat_inj, ← UInt8.toNat_inj]
      show (b.toNat = 1 ∨ b.toNat = 2 ∨ b.toNat = 3) ↔ (1 ≤ b.toNat ∧ b.toNat ≤ 3)
      omega
    rw [C.unescape, Js.unescape, ih]
    simp only [hcond]
    rfl

/-- A masked byte is a control byte exactly when the byte is reserved. -/
theorem masked_control (b : UInt8) (hb : ¬ b ≤ 2) :
    ¬ (b ^^^ C.xor = 1 ∨ b ^^^ C.xor = 2 ∨ b ^^^ C.xor = 3) := by
  have hback : ∀ x : UInt8, b ^^^ C.xor = x → b = x ^^^ C.xor := by
    rintro x rfl
    rw [UInt8.xor_assoc, UInt8.xor_self, UInt8.xor_zero]
  rintro (h | h | h)
  all_goals
    apply hb
    rw [hback _ h]
    decide

theorem unescape_mask {bytes : List UInt8} (h : ∀ b ∈ bytes, scheme.reserved b = false) :
    C.unescape (bytes.map (· ^^^ C.xor)) = some bytes := by
  induction bytes with
  | nil => rfl
  | cons b bytes ih =>
    have hb : ¬ b ≤ 2 := by
      rw [← reserved_iff, h b mem_cons_self]
      simp
    rw [map_cons, C.unescape, if_neg (masked_control b hb),
      ih fun x hx => h x (mem_cons_of_mem b hx)]
    show some ((b ^^^ C.xor ^^^ C.xor) :: bytes) = _
    rw [UInt8.xor_assoc, UInt8.xor_self, UInt8.xor_zero]

/-! ## Unpacking -/

/-- The length of a frame's encoded body. -/
def bodyLength (frame : List UInt8) : Nat :=
  frame.length - (if frame.getD 0 0 = 1 then 1 else 0) - 1

theorem cobsDecode_decodes (src : List UInt8) (dst : Region) :
    C.Decodes dst.cells dst.capacity [] (Js.cobsDecode src) (C.cobsDecode src dst) := by
  rw [Js.cobsDecode_eq, C.cobsDecode]
  by_cases hnil : src = []
  · rw [if_pos hnil, if_pos (by rw [hnil]; rfl)]
    exact .invalid (Nat.zero_le _)
  · rw [if_neg hnil, if_neg (fun h => hnil (length_eq_zero_iff.mp h))]
    exact C.decode_from dst.fits src 0 0 dst.cells [] rfl rfl (Nat.zero_le _)

/-- **Unpacking**, on any bytes whose body fits the scratch buffer. -/
theorem unpack_decodes {frame : List UInt8} (hbody : bodyLength frame ≤ 1024) (payload : Region) :
    C.Decodes payload.cells payload.capacity [] (Js.unpack frame) (C.unpack frame payload) := by
  have hinvalid : C.Decodes payload.cells payload.capacity [] none ⟨.invalid, payload.cells, 0⟩ :=
    .invalid (Nat.zero_le _)
  rw [Js.unpack, C.unpack, show C.delimiterEnd = Js.END from rfl]
  by_cases hend : frame.length < 2 ∨ frame.getD (frame.length - 1) 0 ≠ Js.END
  · rw [if_pos hend, if_pos hend]
    exact hinvalid
  · rw [if_neg hend, if_neg hend]
    unfold bodyLength at hbody
    generalize (if frame.getD 0 0 = 1 then 1 else 0) = start at hbody ⊢
    have htake : (frame.drop start).take (frame.length - start - 1) =
        (frame.drop start).dropLast := by
      rw [dropLast_eq_take, length_drop]
    by_cases hempty : frame.length - start - 1 = 0
    · rw [if_pos hempty, if_pos (.inl hempty)]
      exact hinvalid
    · have hfits : ¬ (frame.length - start - 1 = 0 ∨ frame.length - start - 1 > C.scratchSize) := by
        unfold C.scratchSize
        omega
      rw [if_neg hempty, if_neg hfits, htake, unescape_eq]
      cases Js.unescape (frame.drop start).dropLast with
      | none => exact hinvalid
      | some scratch => exact cobsDecode_decodes scratch payload

/-- **The decoders agree.** The C decoder succeeds with a payload exactly when the JavaScript
decoder returns it and it fits; a payload that does not fit is reported as such, and a frame that
the JavaScript decoder rejects gives an error; and the memory behind the capacity is as it was. -/
theorem unpack_agrees {frame : List UInt8} (hbody : bodyLength frame ≤ 1024) (payload : Region) :
    let w := C.unpack frame payload
    (∀ p, w.status = .ok ∧ w.cells.take w.length = p ↔
      Js.unpack frame = some p ∧ p.length ≤ payload.capacity) ∧
    (∀ p, Js.unpack frame = some p → payload.capacity < p.length → w.status = .noSpace) ∧
    (Js.unpack frame = none → w.status = .noSpace ∨ w.status = .invalid) ∧
    w.cells.length = payload.cells.length ∧
    w.cells.drop payload.capacity = payload.cells.drop payload.capacity := by
  intro w
  have h := unpack_decodes hbody payload
  have hroom := payload.fits
  obtain ⟨l, hl, hbound⟩ := h.bounded
  have hfits : ∀ p, Js.unpack frame = some p → p.length ≤ payload.capacity →
      w = ⟨.ok, C.filled payload.cells p, p.length⟩ := h.fits
  have hoverflows : ∀ p, Js.unpack frame = some p → payload.capacity < p.length →
      w.status = .noSpace := h.overflows
  refine ⟨fun p => ⟨?_, ?_⟩, hoverflows, ?_, ?_, ?_⟩
  · rintro ⟨hok, rfl⟩
    cases hjs : Js.unpack frame with
    | none => exact absurd hok (h.fails hjs)
    | some q =>
      by_cases hle : q.length ≤ payload.capacity
      · rw [hfits q hjs hle, C.take_filled]
        exact ⟨rfl, hle⟩
      · have hfull := hoverflows q hjs (Nat.not_le.mp hle)
        rw [hfull] at hok
        simp at hok
  · rintro ⟨hp, hle⟩
    rw [hfits p hp hle]
    exact ⟨rfl, C.take_filled _ _⟩
  · intro hnone
    cases hs : w.status with
    | ok => exact absurd hs (h.fails hnone)
    | invalid => exact .inr rfl
    | noSpace => exact .inl rfl
  · show (C.unpack frame payload).cells.length = _
    rw [hl, C.filled, length_append, length_drop]
    omega
  · show (C.unpack frame payload).cells.drop _ = _
    rw [hl, C.drop_filled hbound]

/-- The frame of the payload `01`, and one byte of memory to unpack it into. -/
theorem unpack_agrees_sample :
    bodyLength [0x54, 0, 2] ≤ 1024 ∧
    ∀ p, (C.unpack [0x54, 0, 2] ⟨[0xaa, 0xbb], 1, by decide⟩).status = .ok ∧
        (C.unpack [0x54, 0, 2] ⟨[0xaa, 0xbb], 1, by decide⟩).cells.take
          (C.unpack [0x54, 0, 2] ⟨[0xaa, 0xbb], 1, by decide⟩).length = p ↔
      Js.unpack [0x54, 0, 2] = some p ∧ p.length ≤ 1 :=
  ⟨by decide, (unpack_agrees (by decide) ⟨[0xaa, 0xbb], 1, by decide⟩).1⟩

/-! ## Packing and unpacking -/

def packedBody (payload : List UInt8) : List UInt8 := (scheme.stuff payload).map (· ^^^ C.xor)

theorem pack_eq (payload : List UInt8) (high : Bool) :
    Js.pack payload high = (if high then [1] else []) ++ packedBody payload ++ [2] :=
  C.jsPack_eq payload high

theorem length_lt_packedBody (payload : List UInt8) :
    payload.length < (packedBody payload).length := by
  rw [packedBody, length_map]
  exact scheme.length_lt_stuff payload

theorem packedBody_plain (payload : List UInt8) :
    ∀ b ∈ packedBody payload, b ≠ 1 ∧ b ≠ 2 ∧ b ≠ 3 := by
  intro b hb
  obtain ⟨x, hx, rfl⟩ := mem_map.mp hb
  have hplain : ¬ x ≤ 2 := by
    rw [← reserved_iff, scheme.stuff_plain payload x hx]
    simp
  have h := masked_control x hplain
  simp only [not_or] at h
  exact h

theorem unescape_packedBody (payload : List UInt8) :
    C.unescape (packedBody payload) = some (scheme.stuff payload) :=
  unescape_mask (scheme.stuff_plain payload)

theorem jsUnpack_frame {payload body : List UInt8} {high : Bool} (hbody : body ≠ [])
    (hfirst : body.getD 0 0 ≠ 1) (h : C.unescape body = some (scheme.stuff payload)) :
    Js.unpack ((if high then [1] else []) ++ body ++ [2]) = some payload := by
  obtain ⟨b, rest, rfl⟩ := exists_cons_of_ne_nil hbody
  have hlonger := scheme.length_lt_stuff payload
  have hstuff : scheme.stuff payload ≠ [] := by
    intro hnil
    rw [hnil] at hlonger
    simp at hlonger
  have hdecode : Js.cobsDecode (scheme.stuff payload) = some payload := by
    rw [Js.cobsDecode_eq, if_neg hstuff, scheme.unstuff_stuff]
  have hescape : Js.unescape (b :: rest) = some (scheme.stuff payload) := by
    rw [← unescape_eq]
    exact h
  have hlast : (b :: (rest ++ [2])).dropLast = b :: rest := by
    rw [← cons_append, dropLast_concat]
  cases high with
  | false =>
    have hb : b ≠ 1 := hfirst
    simp [Js.unpack, Js.END, hb, hlast, hescape, hdecode]
  | true => simp [Js.unpack, Js.END, hlast, hescape, hdecode]

theorem jsUnpack_pack (payload : List UInt8) (high : Bool) :
    Js.unpack (Js.pack payload high) = some payload := by
  have hlonger := length_lt_packedBody payload
  have hbody : packedBody payload ≠ [] := by
    intro hnil
    rw [hnil] at hlonger
    simp at hlonger
  rw [pack_eq]
  apply jsUnpack_frame hbody ?_ (unescape_packedBody payload)
  obtain ⟨b, rest, heq⟩ := exists_cons_of_ne_nil hbody
  rw [heq]
  exact (packedBody_plain payload b (by rw [heq]; exact mem_cons_self)).1

theorem bodyLength_pack (payload : List UInt8) (high : Bool) :
    bodyLength (Js.pack payload high) = (packedBody payload).length := by
  have hlonger := length_lt_packedBody payload
  have hplain := packedBody_plain payload
  rw [pack_eq]
  cases hbody : packedBody payload with
  | nil => simp [hbody] at hlonger
  | cons b rest =>
    have hb : b ≠ 1 := (hplain b (by rw [hbody]; exact mem_cons_self)).1
    cases high <;> simp [bodyLength, hb]

theorem unpack_pack {payload : List UInt8}
    (hshort : (packedBody payload).length ≤ 1024) (high : Bool)
    {region : Region} (hroom : payload.length ≤ region.capacity) :
    C.unpack (Js.pack payload high) region
      = ⟨.ok, C.filled region.cells payload, payload.length⟩ := by
  have hbody : bodyLength (Js.pack payload high) ≤ 1024 := by rwa [bodyLength_pack]
  exact (unpack_decodes hbody region).fits payload (jsUnpack_pack payload high) hroom

/-- **Packing is sound.** The C codec and the JavaScript codec pack a payload into the same frame;
control bytes stand at its ends only; and a frame whose body fits the scratch buffer unpacks to the
payload. -/
theorem pack_sound (payload : List UInt8) (high : Bool) :
    (∀ frame : Region, let w := C.pack payload high frame
      (w.status = .ok ↔ (Js.pack payload high).length ≤ frame.capacity) ∧
      (w.status = .ok → w.cells.take w.length = Js.pack payload high)) ∧
    ∃ body, Js.pack payload high = (if high then [1] else []) ++ body ++ [2] ∧
      (∀ b ∈ body, b ≠ 1 ∧ b ≠ 2 ∧ b ≠ 3) ∧
      (body.length ≤ 1024 → ∀ region : Region, payload.length ≤ region.capacity →
        let w := C.unpack (Js.pack payload high) region
        w.status = .ok ∧ w.cells.take w.length = payload) := by
  refine ⟨fun frame => ?_, packedBody payload, pack_eq payload high, packedBody_plain payload, ?_⟩
  · by_cases hfits : (Js.pack payload high).length ≤ frame.capacity
    · rw [C.pack_fits hfits]
      exact ⟨⟨fun _ => hfits, fun _ => rfl⟩, fun _ => C.take_filled _ _⟩
    · obtain ⟨l, heq, -⟩ := C.pack_overflows (Nat.not_le.mp hfits)
      rw [heq]
      exact ⟨⟨fun h => by simp at h, fun h => absurd h hfits⟩, fun h => by simp at h⟩
  · intro hshort region hroom
    rw [unpack_pack hshort high hroom]
    exact ⟨rfl, C.take_filled _ _⟩

end Brickwright.Protocol
