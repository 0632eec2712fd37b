import Brickwright.Capture.Session

/-!
# What a capture that ends clean has sent

`capture_init` announces the size of the head and of the records; `capture_deinit` returns 0 once
the channel is idle again.

* `complete_iff` — behind a clean end the channel has accepted what was announced exactly when the
  payloads make up the records and no `write` has failed half-way. `bytes_written` is counted, but
  it is never compared to `total_bytes`.
* `not_complete` — four records are announced and none is written; the capture ends clean.
-/

namespace Brickwright.Capture

open Btcap

/-! ## Returns -/

section Returns

variable {s : State} {data : Buffer} {piece : Piece} {remaining : List UInt8} {op op' : Op}
  {rc rc' n state : Int} {point : Point}

@[simp] theorem mem_returns : .returned op rc ∈ (s.returns op' rc').2 ↔ op = op' ∧ rc = rc' := by
  simp [State.returns]

@[simp] theorem goes_snd : (s.goes point).2 = [] := rfl

theorem op_of_writePayload (h : .returned op rc ∈ (s.writePayload data).2) : op = .write data := by
  revert h
  unfold State.writePayload
  split
  · exact fun h => (mem_returns.mp h).1
  · split
    · exact fun h => (mem_returns.mp h).1
    · exact nofun

theorem op_of_captureWrite (h : .returned op rc ∈ (s.captureWrite data).2) : op = .write data := by
  revert h
  unfold State.captureWrite
  split
  · exact fun h => (mem_returns.mp h).1
  · split
    · exact nofun
    · exact op_of_writePayload

theorem op_of_wrote (h : .returned op rc ∈ (s.wrote piece remaining data n).2) :
    op = .write data := by
  revert h
  unfold State.wrote
  split
  · dsimp only
    split
    · exact nofun
    · cases piece with
      | header => exact nofun
      | descs => exact op_of_writePayload
      | data => exact fun h => (mem_returns.mp h).1
  · split
    · exact fun h => (mem_returns.mp h).1
    · split
      · exact fun h => (mem_returns.mp h).1
      · exact fun h => (mem_returns.mp h).1

theorem closes_of_resume (h : .returned .deinit rc ∈ (s.resume n state).2) :
    s.point = .closes .deinit rc ∧ s.resume n state = s.closed.returns .deinit rc := by
  revert h
  unfold State.resume
  cases hpoint : s.point with
  | start | reads descs | idle | polls => exact nofun
  | opens =>
    dsimp only
    split <;> simp
  | registers =>
    dsimp only
    split <;> simp
  | fails rc' => simp
  | finalises =>
    dsimp only
    split <;> simp
  | queries =>
    dsimp only [State.queried]
    split
    · simp
    · split
      · simp
      · split <;> simp
  | aborts => simp
  | pushes piece remaining data =>
    intro h
    cases op_of_wrote h
  | closes op rc' =>
    intro h
    obtain ⟨rfl, rfl⟩ := mem_returns.mp h
    exact ⟨rfl, rfl⟩

variable {setup : Setup}

theorem closes_of_onChannel {input : Btcap.Input}
    (h : .returned .deinit rc ∈ (onChannel setup s input).2) : s.point = .closes .deinit rc ∧
      (onChannel setup s input).1.point = .idle ∧
      (onChannel setup s input).1.handle.headerSent = s.handle.headerSent := by
  cases hanswer : answer s.point (noted setup s input) with
  | none =>
    rw [onChannel_of_none hanswer] at h
    obtain ⟨n, -, heq⟩ := List.mem_map.mp h
    cases heq
  | some rc' =>
    rw [onChannel_of_some hanswer] at h ⊢
    rcases List.mem_append.mp h with hmem | hmem
    · obtain ⟨n, -, heq⟩ := List.mem_map.mp hmem
      cases heq
    · obtain ⟨hpoint, hresume⟩ := closes_of_resume hmem
      rw [hresume]
      exact ⟨hpoint, rfl, rfl⟩

/-- **`capture_deinit` returns** behind `close`, or without a descriptor. -/
theorem closes_of_step {input : Input} (h : .returned .deinit rc ∈ (step setup s input).2) :
    (s.point = .closes .deinit rc ∨ s.handle.fd = none) ∧
      (step setup s input).1.point = .idle ∧
      (step setup s input).1.handle.headerSent = s.handle.headerSent := by
  revert h
  cases input with
  | other i input =>
    unfold step
    dsimp only
    split
    · exact nofun
    · intro h
      obtain ⟨n, -, heq⟩ := List.mem_map.mp h
      cases heq
  | call op =>
    unfold step
    dsimp only
    split
    · unfold captureInit
      split <;> simp
    · intro h
      cases op_of_captureWrite h
    · unfold State.captureDeinit
      split
      · next hfd => exact fun _ => ⟨.inr hfd, rfl, rfl⟩
      · split <;> exact nofun
    · unfold State.captureAbort
      split <;> simp
    · exact nofun
  | run picks =>
    unfold step
    dsimp only
    split
    · exact nofun
    · intro h
      obtain ⟨hpoint, hrest⟩ := closes_of_onChannel h
      exact ⟨.inl hpoint, hrest⟩
  | giveUp ret =>
    unfold step
    dsimp only
    split
    · exact nofun
    · intro h
      obtain ⟨hpoint, hrest⟩ := closes_of_onChannel h
      exact ⟨.inl hpoint, hrest⟩
  | clock nowUs =>
    unfold step
    dsimp only
    split
    · unfold clockRead
      dsimp only
      split <;> simp
    · exact nofun
  | polled rc' =>
    unfold step
    dsimp only
    split
    · split <;> exact nofun
    · exact nofun

end Returns

/-! ## Complete captures -/

variable (setup : Setup)

/-- The channel has accepted the head and the payload, and that is what it has been told to
expect. -/
structure Complete (h : List Entry) (s : State) : Prop where
  bytes : pushed setup.me (chan h) = s.handle.staged.head ++ payload h
  announced : (pushed setup.me (chan h)).length =
    (sessionMeta setup s.handle.staged).totalBytes.toNat

variable {setup} {size lost : Nat} {h : List Entry} {s : State}

theorem Keeping.complete_settled_iff (hk : Keeping setup size lost h s) (hquiet : s.point.Quiet)
    (hheader : s.handle.headerSent = true) (hannounced : Announced setup s) :
    Complete setup h s ↔
      (payload h).length = setup.recordCount.toNat * setup.schema.recordSize.toNat ∧ lost = 0 := by
  have hsettled : s.settled h = s.handle.staged.head ++ payload h := by
    rw [State.settled, if_pos hheader]
  have htally := hk.tally hquiet
  rw [hsettled] at htally
  obtain ⟨xs, hxs, hzero, hlen⟩ := htally
  rw [List.append_nil] at hxs
  rw [List.length_append] at hlen
  unfold Announced at hannounced
  constructor
  · rintro ⟨hbytes, htotal⟩
    rw [← hxs, hbytes, List.length_append] at hlen
    rw [hbytes, List.length_append] at htotal
    omega
  · rintro ⟨hpayload, hlost⟩
    have hall := hzero hlost
    refine ⟨hxs.trans hall, ?_⟩
    rw [hxs, hlen]
    omega

variable (setup size) in
structure Kept (h : List Entry) (s : State) : Prop where
  keeping : ∃ lost, Keeping setup size lost h s
  told : Told setup h s
  live : Live s

theorem Kept.step (hkept : Kept setup size h s) (input : Input) :
    Kept setup size (h ++ (step setup s input).2) (step setup s input).1 := by
  obtain ⟨lost, hk⟩ := hkept.keeping
  obtain ⟨lost', hk', -⟩ := hk.step input
  exact ⟨⟨lost', hk'⟩, hkept.told.step hk.fits input, hkept.live.step hk input⟩

theorem kept_run (setup : Setup) (size : Nat) (inputs : List Input) :
    Kept setup size ((machine setup).history (boot size) inputs)
      ((machine setup).run (boot size) inputs) := by
  have hboot : Kept setup size [] (boot size) := ⟨⟨0, keeping_boot⟩, told_boot, live_boot⟩
  exact @Machine.history_invariant _ _ _ (machine setup) _ (Kept setup size)
    (fun _ _ input hkept => hkept.step input) _ hboot inputs

/-- **A clean end is that of a complete capture exactly when the payloads make up the records and no
write has failed half-way.** The head has been sent, unless the session was taken down before. -/
theorem complete_iff (setup : Setup) (size : Nat) (inputs : List Input) (input : Input)
    (hinit : .returned .init 0 ∈ (machine setup).history (boot size) inputs)
    (hdeinit : .returned .deinit 0 ∈
      (step setup ((machine setup).run (boot size) inputs) input).2) :
    (((machine setup).run (boot size) (inputs ++ [input])).handle.headerSent = true →
      (Complete setup ((machine setup).history (boot size) (inputs ++ [input]))
          ((machine setup).run (boot size) (inputs ++ [input])) ↔
        (payload ((machine setup).history (boot size) (inputs ++ [input]))).length =
            setup.recordCount.toNat * setup.schema.recordSize.toNat ∧
          (machine setup).Throughout (fun s input => ¬Torn setup s input) (boot size)
            (inputs ++ [input]))) ∧
      (((machine setup).run (boot size) (inputs ++ [input])).handle.headerSent = true ∨
        Ended ((machine setup).history (boot size) inputs)) := by
  obtain ⟨hclosed, hidle, hheader⟩ := closes_of_step hdeinit
  have hrun := (machine setup).run_concat (boot size) inputs input
  have hmem : .returned .init 0 ∈ (machine setup).history (boot size) (inputs ++ [input]) := by
    rw [Machine.history_append]
    exact List.mem_append_left _ hinit
  have hkept := kept_run setup size inputs
  have hannounced := (kept_run setup size (inputs ++ [input])).told.announced (.inr (.inr hmem))
  obtain ⟨lost, hk, hzero⟩ := keeping_boot.run (inputs ++ [input])
  rw [List.nil_append] at hk
  constructor
  · intro hsent
    have hquiet : ((machine setup).run (boot size) (inputs ++ [input])).point.Quiet := by
      rw [hrun]
      exact quiet_of_point hidle nofun
    rw [hk.complete_settled_iff hquiet hsent hannounced, hzero, and_iff_right rfl]
  · rw [hrun]
    rcases hclosed with hpoint | hfd
    · exact .inl (hheader.trans (hkept.live.clean hpoint))
    · exact .inr (hkept.told.ended hinit hfd)

def sampleSchema : Schema where
  magic := 1
  recordSize := 1
  fieldCount := 1
  name := Vector.replicate 32 0
  fields := Vector.replicate 8 {}

def sampleSetup (recordCount : UInt32) : Setup := ⟨sampleSchema, recordCount, 0⟩

/-- One payload, in some sections; the reader comes and goes while `capture_deinit` waits. -/
def sampleRun (data : List UInt8) (sections : Nat) : List Input :=
  [.call .init, .clock 0, .run (0, 0), .run (0, 0), .call (.write (.memory data))] ++
    List.replicate sections (.run (0, 0)) ++
    [.call .deinit, .run (0, 0), .run (0, 0), .polled 0, .other 1 (.openFile false true),
      .other 1 (.closeFile .reader (0, 0)), .run (0, 0)]

/-- One record is announced and written. -/
theorem complete_sample :
    Complete (sampleSetup 1)
      ((machine (sampleSetup 1)).history (boot 200) (sampleRun [7] 9 ++ [.run (0, 0)]))
      ((machine (sampleSetup 1)).run (boot 200) (sampleRun [7] 9 ++ [.run (0, 0)])) := by
  have hiff := complete_iff (sampleSetup 1) 200 (sampleRun [7] 9) (.run (0, 0))
    (by decide +kernel) (by decide +kernel)
  exact (hiff.1 (by decide +kernel)).mpr ⟨by decide +kernel, by decide +kernel⟩

/-- Four records are announced and none is written. -/
theorem not_complete : ¬∀ (setup : Setup) (size : Nat) (inputs : List Input) (input : Input),
    .returned .init 0 ∈ (machine setup).history (boot size) inputs →
    .returned .deinit 0 ∈ (step setup ((machine setup).run (boot size) inputs) input).2 →
    Complete setup ((machine setup).history (boot size) (inputs ++ [input]))
      ((machine setup).run (boot size) (inputs ++ [input])) := by
  intro h
  have hcomplete := h (sampleSetup 4) 200 (sampleRun [] 6) (.run (0, 0)) (by decide +kernel)
    (by decide +kernel)
  exact absurd hcomplete.announced (by decide +kernel)

end Brickwright.Capture
