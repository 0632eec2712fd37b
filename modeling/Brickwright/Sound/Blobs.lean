import Brickwright.Sound.Basic

/-!
# What a blob does (`stm32_pcm.c`)

`pcm_write` makes its checks before it stops what is playing, and `stm32_sound_play_pcm` makes one
more behind that. `pcmContract_iff` says what this one costs.
-/

namespace Brickwright.Sound

open List

/-- What `pcm_write` copies from the caller: offsets and lengths. -/
def pcmReads (blob : List UInt8) (userOk : Bool) : List (Nat × Nat) :=
  if blob.length < sizeofPcmHeader ∨ ¬userOk then []
  else
    (0, sizeofPcmHeader) ::
      if pcmRefused (pcmHeader blob) blob.length = none then
        [((pcmHeader blob).hdrSize, (pcmHeader blob).sampleCount * 2)]
      else []

/-- Blobs that differ at most where `pcm_write` does not read. -/
def SameReads (blob blob' : List UInt8) (userOk : Bool) : Prop :=
  blob'.length = blob.length ∧
    ∀ r ∈ pcmReads blob userOk, blob'.window r.1 r.2 = blob.window r.1 r.2

/-- A well-formed header of a blob of this length. -/
structure PcmHeader.WellFormed (hdr : PcmHeader) (nbytes : Nat) : Prop where
  magic : hdr.magic = pcmWriteMagic
  version : hdr.version ≤ pcmWriteVersion
  hdrSize : sizeofPcmHeader ≤ hdr.hdrSize ∧ hdr.hdrSize ≤ nbytes
  sampleRate : 1000 ≤ hdr.sampleRate ∧ hdr.sampleRate ≤ 100000
  payload : nbytes - hdr.hdrSize = 2 * hdr.sampleCount
  fits : hdr.sampleCount ≤ pcmBufSamples

/-- The samples of the blob are in the buffer, and played. -/
structure Plays (file : Nat) (blob : List UInt8) (s : Shared) : Prop where
  playing : s.playing =
    some ⟨.pcm, (pcmHeader blob).sampleCount, (pcmHeader blob).sampleRate, file⟩
  samples : s.pcmBuf.take (pcmHeader blob).sampleCount = pcmSamples blob (pcmHeader blob)

structure Unchanged (s s' : Shared) : Prop where
  playing : s'.playing = s.playing
  pcmBuf : s'.pcmBuf = s.pcmBuf
  owner : s'.owner = s.owner
  mode : s'.mode = s.mode
  stopFlag : s'.stopFlag = s.stopFlag

structure PcmContract (s : Shared) (file : Nat) (ubuf : Option (List UInt8)) (userOk : Bool) :
    Prop where
  rejected : ∀ ret < 0, .returns ret ∈ (pcmWrite s file ubuf userOk).2 →
    Unchanged s (pcmWrite s file ubuf userOk).1
  accepted : ∀ ret ≥ 0, .returns ret ∈ (pcmWrite s file ubuf userOk).2 → ∃ blob, ubuf = some blob ∧
    (pcmHeader blob).WellFormed blob.length ∧ Plays file blob (pcmWrite s file ubuf userOk).1
  inside : ∀ blob, ubuf = some blob → ∀ r ∈ pcmReads blob userOk, r.1 + r.2 ≤ blob.length
  reads : ∀ blob blob', ubuf = some blob → SameReads blob blob' userOk →
    pcmWrite s file (some blob') userOk = pcmWrite s file ubuf userOk

/-- The checks pass a blob of no sample, or of one. -/
def TooShort (blob : List UInt8) (userOk : Bool) : Prop :=
  sizeofPcmHeader ≤ blob.length ∧ userOk = true ∧
    pcmRefused (pcmHeader blob) blob.length = none ∧ (pcmHeader blob).sampleCount < 2

section Blobs

variable {s : Shared} {file : Nat} {blob blob' : List UInt8} {userOk : Bool}

theorem wellFormed_of_not_refused {hdr : PcmHeader} {nbytes : Nat}
    (h : pcmRefused hdr nbytes = none) : hdr.WellFormed nbytes := by
  unfold pcmRefused at h
  split at h
  · cases h
  split at h
  · cases h
  next hmagic =>
  split at h
  · cases h
  split at h
  · cases h
  split at h
  · cases h
  split at h
  · cases h
  split at h
  · cases h
  exact ⟨not_not.mp hmagic, by omega, by omega, by omega, by omega, by omega⟩

theorem returned {notes : List Note} {ret ret' : Int} (h : notes = [.returns ret'])
    (hmem : .returns ret ∈ notes) : ret = ret' := by
  rw [h] at hmem
  cases mem_singleton.mp hmem
  rfl

theorem negative_of_refused {hdr : PcmHeader} {nbytes : Nat} {ret : Int}
    (h : pcmRefused hdr nbytes = some ret) : ret < 0 := by
  unfold pcmRefused at h
  repeat' split at h
  all_goals cases h
  all_goals decide

theorem inside_pcmReads : ∀ r ∈ pcmReads blob userOk, r.1 + r.2 ≤ blob.length := by
  intro r hr
  unfold pcmReads at hr
  split at hr
  · exact absurd hr not_mem_nil
  next hpass =>
  rcases mem_cons.mp hr with rfl | hr
  · exact Nat.le_of_not_lt fun hshort => hpass (.inl (by omega))
  split at hr
  · next hnone =>
    obtain ⟨-, -, hsize, -, hpayload, -⟩ := wellFormed_of_not_refused hnone
    cases mem_singleton.mp hr
    omega
  · exact absurd hr not_mem_nil

theorem pcmHeader_of_window (h : blob'.window 0 sizeofPcmHeader = blob.window 0 sizeofPcmHeader) :
    pcmHeader blob' = pcmHeader blob := by
  have hfield : ∀ {off n}, off + n ≤ sizeofPcmHeader → blob'.window off n = blob.window off n :=
    fun hle => window_of_window h (by omega) (by omega)
  simp only [pcmHeader, hfield (show 0 + 4 ≤ _ by decide), hfield (show 4 + 2 ≤ _ by decide),
    hfield (show 6 + 2 ≤ _ by decide), hfield (show 8 + 4 ≤ _ by decide),
    hfield (show 12 + 4 ≤ _ by decide), hfield (show 16 + 4 ≤ _ by decide)]

theorem pcmSamples_of_window {hdr : PcmHeader}
    (h : blob'.window hdr.hdrSize (hdr.sampleCount * 2) =
      blob.window hdr.hdrSize (hdr.sampleCount * 2)) :
    pcmSamples blob' hdr = pcmSamples blob hdr := by
  refine map_congr_left fun i hi => ?_
  have hi := mem_range.mp hi
  rw [window_of_window h (by omega) (by omega)]

/-- **Nothing else is read**: a blob with the same bytes there does the same. -/
theorem pcmWrite_of_sameReads (h : SameReads blob blob' userOk) :
    pcmWrite s file (some blob') userOk = pcmWrite s file (some blob) userOk := by
  obtain ⟨hlength, hreads⟩ := h
  rw [pcmReads] at hreads
  simp only [pcmWrite, hlength]
  by_cases hlt : blob.length < sizeofPcmHeader
  · rw [if_pos hlt, if_pos hlt]
  by_cases huser : ¬userOk
  · rw [if_neg hlt, if_neg hlt, if_pos huser, if_pos huser]
  rw [if_neg (not_or.mpr ⟨hlt, huser⟩)] at hreads
  rw [pcmHeader_of_window (hreads _ mem_cons_self)]
  cases hcheck : pcmRefused (pcmHeader blob) blob.length with
  | some ret => rfl
  | none =>
    rw [if_pos hcheck] at hreads
    rw [pcmSamples_of_window (hreads _ (mem_cons_of_mem _ mem_cons_self))]

/-- A blob that is refused at once. -/
theorem contract_of_refused {ubuf : Option (List UInt8)} {ret : Int} (hret : ret < 0)
    (h : pcmWrite s file ubuf userOk = (s, [.returns ret])) : PcmContract s file ubuf userOk where
  rejected _ _ _ := by
    rw [h]
    exact ⟨rfl, rfl, rfl, rfl, rfl⟩
  accepted ret' hpos hmem := by
    have := returned (congrArg Prod.snd h) hmem
    omega
  inside _ _ := inside_pcmReads
  reads _ _ heq hsame := by
    subst heq
    exact pcmWrite_of_sameReads hsame

/-- **What a blob does**, exactly. -/
theorem pcmContract_iff (ubuf : Option (List UInt8)) :
    PcmContract s file ubuf userOk ↔ ∀ blob, ubuf = some blob → TooShort blob userOk →
      s.stopFlag = true ∧ s.playing = none ∧ pcmSamples blob (pcmHeader blob) <+: s.pcmBuf := by
  cases ubuf with
  | none => exact iff_of_true (contract_of_refused (by decide) rfl) nofun
  | some blob =>
    have hrefused : ∀ {ret : Int}, ret < 0 → ¬TooShort blob userOk →
        pcmWrite s file (some blob) userOk = (s, [.returns ret]) →
        (PcmContract s file (some blob) userOk ↔ ∀ blob', some blob = some blob' →
          TooShort blob' userOk → s.stopFlag = true ∧ s.playing = none ∧
            pcmSamples blob' (pcmHeader blob') <+: s.pcmBuf) := by
      intro ret hret hnot h
      refine iff_of_true (contract_of_refused hret h) fun blob' heq hshort => ?_
      cases heq
      exact absurd hshort hnot
    by_cases hlength : blob.length < sizeofPcmHeader
    · exact hrefused (by decide) (fun h => Nat.not_lt_of_le h.1 hlength) (if_pos hlength)
    by_cases huser : userOk = true
    swap
    · exact hrefused (by decide) (fun h => huser h.2.1) ((if_neg hlength).trans (if_pos huser))
    have hwrite : pcmWrite s file (some blob) userOk = _ :=
      (if_neg hlength).trans (if_neg (not_not.mpr huser))
    dsimp only [Shared.playPcm] at hwrite
    cases hcheck : pcmRefused (pcmHeader blob) blob.length with
    | some ret =>
      rw [hcheck] at hwrite
      exact hrefused (negative_of_refused hcheck)
        (fun h => absurd (hcheck.symm.trans h.2.2.1) nofun) hwrite
    | none =>
      have hwell := wellFormed_of_not_refused hcheck
      rw [hcheck] at hwrite
      by_cases hshort : (pcmHeader blob).sampleCount < 2
      · -- the hardware is stopped and the buffer written before this is found out
        rw [if_pos (.inl hshort)] at hwrite
        constructor
        · intro hc blob' heq _
          cases heq
          obtain ⟨hplaying, hbuf, -, -, hstop⟩ :=
            hc.rejected (-EINVAL) (by decide) (by simp [hwrite])
          rw [hwrite] at hplaying hbuf hstop
          exact ⟨hstop.symm, hplaying.symm, prefix_iff_eq_append.mpr hbuf⟩
        · intro h
          obtain ⟨hstop, hplaying, hbuf⟩ :=
            h blob rfl ⟨Nat.le_of_not_lt hlength, huser, hcheck, hshort⟩
          refine ⟨fun _ _ _ => ?_, fun ret hret hmem => ?_, fun _ _ => inside_pcmReads,
            fun _ _ heq hsame => ?_⟩
          · rw [hwrite]
            exact ⟨hplaying.symm, prefix_iff_eq_append.mp hbuf, rfl, rfl, hstop.symm⟩
          · cases returned (congrArg Prod.snd hwrite) hmem
            exact absurd hret (by decide)
          · cases heq
            exact pcmWrite_of_sameReads hsame
      · have hrate := hwell.sampleRate
        rw [if_neg (by omega)] at hwrite
        have hnonneg : ∀ {ret : Int}, Note.returns ret ∈ (pcmWrite s file (some blob) userOk).2 →
            0 ≤ ret := by
          intro ret hmem
          rw [hwrite] at hmem
          rcases mem_cons.mp hmem with heq | hmem
          · cases heq
          · cases mem_singleton.mp hmem
            exact Int.natCast_nonneg _
        refine iff_of_true ⟨fun ret hret hmem => ?_, fun ret _ _ => ?_, fun _ _ => inside_pcmReads,
          fun _ _ heq hsame => ?_⟩ fun blob' heq h => ?_
        · exact absurd (hnonneg hmem) (Int.not_le.mpr hret)
        · refine ⟨blob, rfl, hwell, ?_⟩
          rw [hwrite]
          refine ⟨rfl, take_left' ?_⟩
          simp [pcmSamples]
        · cases heq
          exact pcmWrite_of_sameReads hsame
        · cases heq
          exact absurd h.2.2.2 hshort

end Blobs

def emptyBlob : List UInt8 :=
  [0x50, 0x43, 0x4d, 0x30, 1, 0, 20, 0, 0, 0, 0, 0, 0xe8, 3, 0, 0, 0, 0, 0, 0]

theorem not_pcmContract : ¬ ∀ s file ubuf userOk, PcmContract s file ubuf userOk := by
  intro h
  obtain ⟨-, -, -, -, hstop⟩ := (h {} 0 (some emptyBlob) true).rejected (-EINVAL) (by decide)
    (by decide)
  exact absurd hstop (by decide)

end Brickwright.Sound
