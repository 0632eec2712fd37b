import Brickwright.HubProgram.Upload.Transaction

/-!
# Other owners do not interfere with an upload

An upload belongs to the owner whose begin was accepted. A request of any other owner leaves it
exactly as it is (`request_other`), so deleting those requests from a run is an instance of the
unwinding rule: the relation is `SameUpload`, two hubs whose uploads agree in everything but the
bytes of the buffer that have not been received, and the promise is `Window`, the clock and the
deadline as the full run meets them.

What an owner does see of the others is the program they share: four fields of every reply describe
it. `replies_leak` is the run that shows it, and `ownReply` is the rest of the reply.
-/

namespace Brickwright.HubProgram

open List

/-! ## Running and uploading exclude each other -/

structure Hub.Apart (s : Hub) : Prop where
  upload : s.upload.Ok
  apart : s.upload.active = true → s.program.state ≠ .running

theorem tick_idle {p : Program} (h : p.state ≠ .running) (now : Nat) (w : World) :
    tick p now w = (p, w) := by
  rw [tick, if_pos h]

variable {s : Hub}

theorem Hub.Apart.expire (h : s.Apart) {now : Nat}
    (hlive : (s.upload.expire now).active = true) : s.program.state ≠ .running := by
  rcases s.upload.expire_eq now with heq | heq
  · exact h.apart (heq ▸ hlive)
  · rw [heq] at hlive
    simp at hlive

variable {r : Request}

theorem RequestStep.apart {u u' : Upload} {p p' : Program} {rc : Int}
    (h : RequestStep r u p rc u' p') (hap : u.active = true → p.state ≠ .running) :
    u'.active = true → p'.state ≠ .running := by
  cases h with
  | begun _ _ _ hidle => exact fun _ => hidle
  | retried _ _ hlive => exact fun _ => hap hlive
  | extended _ _ hlive => exact fun _ => hap hlive
  | committed => exact fun hactive => by simp at hactive
  | refused _ _ hu' hstate =>
    intro hactive hrun
    rcases hstate hrun with hp | hoff
    · rcases hu' with rfl | ⟨rfl, -⟩
      · exact hap hactive hp
      · simp at hactive
    · simp [hoff] at hactive

theorem apart_step (s : Hub) (i : Input) (h : s.Apart) : (service.step s i).1.Apart := by
  cases i with
  | tick now =>
    refine ⟨h.upload, fun hactive => ?_⟩
    show (tick s.program now s.world).1.state ≠ .running
    rw [tick_idle (h.apart hactive)]
    exact h.apart hactive
  | request r =>
    have hstep := request_step s r h.upload
    exact ⟨hstep.upload_ok (h.upload.expire _), hstep.apart h.expire⟩

theorem run_apart (io : ProgramIo) (respond : List Event → IoCall → IoResult) (ins : List Input) :
    (service.run (Hub.init io respond) ins).Apart :=
  service.run_invariant apart_step _ ins
    ⟨Upload.init_ok, fun h => by simp [Hub.init, Upload.init] at h⟩

/-! ## A foreign request -/

/-- No deadline has passed at `now`. -/
def Upload.Timely (u : Upload) (now : Nat) : Prop := u.activity ≤ now ∧ now < u.activity + 30000

theorem Upload.Timely.expire {u : Upload} {now : Nat} (h : u.Timely now) : u.expire now = u := by
  obtain ⟨hback, hdue⟩ := h
  rw [Upload.expire, if_neg]
  omega

/-- **A request of another owner** leaves a timely upload and the stored program as they are. -/
theorem request_other (h : s.Apart) (hactive : s.upload.active = true)
    (htime : s.upload.Timely r.now) (howner : r.owner ≠ s.upload.owner) :
    (request s r).1.upload = s.upload ∧ (request s r).1.program.stored = s.program.stored := by
  have hstep := request_step s r h.upload
  rw [htime.expire] at hstep
  generalize hu : (request s r).1.upload = u', hp : (request s r).1.program = p',
    (request s r).2.rc = rc at hstep
  cases hstep with
  | begun _ _ hidle => rw [hactive] at hidle; simp at hidle
  | retried _ _ _ hmine => exact absurd hmine.symm howner
  | extended _ _ _ hmine => exact absurd hmine.symm howner
  | committed _ _ _ hmine => exact absurd hmine.symm howner
  | refused hstored _ hu' _ =>
    rcases hu' with rfl | ⟨-, -, hmine⟩
    · exact ⟨rfl, hstored⟩
    · exact absurd hmine.symm howner

/-! ## Two uploads that cannot be told apart -/

/-- The uploads differ at most in the bytes of the buffer that have not been received. -/
def SameUpload (u v : Upload) : Prop :=
  ∃ b, v = { u with buffer := b } ∧ b.take u.received = u.assembled

variable {u v : Upload}

theorem SameUpload.assembled (h : SameUpload u v) : v.assembled = u.assembled := by
  obtain ⟨b, rfl, hb⟩ := h
  exact hb

/-- A retry is compared with received bytes only. -/
theorem window_take {l : List UInt8} {off n received : Nat} (h : off + n ≤ received) :
    (l.drop off).take n = ((l.take received).drop off).take n := by
  rw [drop_take, take_take, Nat.min_eq_left (by omega)]

theorem opBegin_busy {u : Upload} (h : u.active = true) (op id owner now : Nat) (p : Program)
    (data : List UInt8) :
    opBegin op id owner now p u data = (if data.length ≠ 16 then -EINVAL else -EBUSY, u) := by
  unfold opBegin
  split
  · rfl
  · rw [if_pos (.inr h)]

theorem opChunk_same (h : SameUpload u v) (hu : u.Ok) (hv : v.Ok)
    (id owner now : Nat) (data : List UInt8) :
    (opChunk id owner now v data).1 = (opChunk id owner now u data).1 ∧
      SameUpload (opChunk id owner now u data).2 (opChunk id owner now v data).2 := by
  obtain ⟨b, rfl, hb⟩ := h
  simp only [opChunk]
  split
  · exact ⟨rfl, b, rfl, hb⟩
  · split
    · exact ⟨rfl, b, rfl, hb⟩
    · split
      · -- Behind the end: a retry, whose comparison both uploads decide alike.
        by_cases hfit : chunkOffset data + (data.length - 10) ≤ u.received
        · rw [window_take hfit, hb, Upload.assembled, ← window_take hfit]
          split
          · exact ⟨rfl, b, rfl, hb⟩
          · exact ⟨rfl, b, rfl, hb⟩
        · rw [if_neg (fun hc => hfit hc.1), if_neg (fun hc => hfit hc.1)]
          exact ⟨rfl, b, rfl, hb⟩
      · split
        · next hfit _ hoff =>
          have hmod : (chunkOffset data + (data.length - 10)) % 2 ^ 16
              = u.received + (data.drop 10).length := by
            have := hu.size
            rw [length_drop, ← hoff]
            exact Nat.mod_eq_of_lt (by omega)
          refine ⟨rfl, b.overlay (chunkOffset data) (data.drop 10), rfl, ?_⟩
          have hext := hv.overlay_extend (data.drop 10)
          show _ = List.take _ _
          rw [hmod, hoff, hu.overlay_extend (data.drop 10), ← hb]
          exact hext
        · exact ⟨rfl, b, rfl, hb⟩

/-- The rows of a commit are read from received bytes only. -/
theorem codeView_congr {b b' : List UInt8} {count : Nat}
    (h : b'.take (16 * count) = b.take (16 * count)) : codeView b' count = codeView b count := by
  have hword : ∀ off, off + 4 ≤ 16 * count → wordAt b' off = wordAt b off := by
    intro off hoff
    rw [wordAt, wordAt, window_take hoff, window_take (l := b) hoff, h]
  apply map_congr_left
  intro i hi
  have hi := mem_range.mp hi
  simp only [codeAt]
  rw [hword _ (by omega), hword _ (by omega), hword _ (by omega), hword _ (by omega)]

theorem load_rc_idle {p : Program} (h : p.state ≠ .running) (id : Nat)
    (code : Option (List Instruction)) :
    (load p id code).1 =
      if id = 0 then -EINVAL else if validate code < 0 then validate code else 0 := by
  rw [load, if_neg h]
  split
  · rfl
  · split <;> rfl

theorem opCommit_same {p q : Program} (h : SameUpload u v) (hu : u.Ok) (hv : v.Ok)
    (hp : p.state ≠ .running) (hq : q.state ≠ .running) (id owner : Nat) (data : List UInt8) :
    (opCommit id owner q v data).1 = (opCommit id owner p u data).1 ∧
      SameUpload (opCommit id owner p u data).2.2 (opCommit id owner q v data).2.2 := by
  obtain ⟨b, rfl, hb⟩ := h
  simp only [opCommit]
  split
  · exact ⟨rfl, b, rfl, hb⟩
  · next hmine =>
    -- Everything has been received, so the two buffers agree on all that is committed.
    have hall : u.received = u.size := by tauto
    have htext : b.take u.size = u.buffer.take u.size := by
      rwa [Upload.assembled, hall] at hb
    rw [htext]
    split
    · exact ⟨rfl, b, rfl, hb⟩
    · split
      · split <;> exact ⟨rfl, b, rfl, hb⟩
      · next hlang =>
        have hrows := hu.rows (by simpa using hlang)
        have hfit : 16 * (u.size / 16) ≤ u.buffer.length := by
          rw [hu.buffer, hrows]
          exact hu.size
        have hfit' : 16 * (u.size / 16) ≤ b.length := by
          rw [show b.length = 4096 from hv.buffer, hrows]
          exact hu.size
        have hview : codeView b (u.size / 16) = codeView u.buffer (u.size / 16) :=
          codeView_congr (by rw [hrows]; exact htext)
        rw [decodeRows_eq hfit, decodeRows_eq hfit', load_rc_idle hp, load_rc_idle hq, hview]
        exact ⟨rfl, b, rfl, hb⟩

theorem opAbort_same (h : SameUpload u v) (id owner : Nat) (data : List UInt8) :
    (opAbort id owner v data).1 = (opAbort id owner u data).1 ∧
      SameUpload (opAbort id owner u data).2 (opAbort id owner v data).2 := by
  obtain ⟨b, rfl, hb⟩ := h
  simp only [opAbort]
  split <;> exact ⟨rfl, b, rfl, hb⟩

/-! ## What an owner sees -/

/-- A begin, chunk, commit or abort request. -/
def Request.transactional (r : Request) : Bool :=
  match r.packet with
  | some k => k.op ∈ [0, 1, 2, 6, 7]
  | none => false

/-- The reply without the fields that describe the shared program: its state, its program counter,
its length and its error. -/
def Answer.own (a : Answer) : Int × List UInt8 :=
  (a.rc, a.reply.take 3 ++ (a.reply.drop 4).take 8 ++ (a.reply.drop 16).take 2)

def ownReply : Input → Option Answer → Option (Int × List UInt8)
  | .request r, some a => if r.transactional then some a.own else none
  | _, _ => none

/-- What is left of a run when the requests of the other owners are deleted. -/
def concerns (owner : Nat) : Input → Bool
  | .request r => r.owner == owner
  | .tick _ => true

/-- The count an upload puts into a reply. -/
def Upload.header (u : Upload) : Nat := if u.active = true then u.received else 0

theorem SameUpload.header (h : SameUpload u v) : v.header = u.header := by
  obtain ⟨b, rfl, -⟩ := h
  rfl

theorem respond_own {op : Nat} (hop : op ≠ 5) (id : Nat) (rc : Int) (s : Hub) :
    (respond op id rc s).own = (rc, [0x71, 1, UInt8.ofNat op] ++ (put32 id ++ put32 (toUnsigned rc))
      ++ put16 s.upload.header) := by
  have hid : (if op = 5 ∧ id = 0 then s.program.id else id) = id := if_neg fun h => hop h.1
  rw [respond, hid]
  rfl

theorem request_own {k : Packet} (hk : r.packet = some k) (hop : k.op ≠ 5) :
    (request s r).2.own = ((request s r).2.rc,
      [0x71, 1, UInt8.ofNat k.op] ++ (put32 k.id ++ put32 (toUnsigned (request s r).2.rc))
        ++ put16 (request s r).1.upload.header) := by
  unfold request
  simp only [hk]
  split <;> exact respond_own hop _ _ _

theorem dispatch_same {s t : Hub} (hs : s.Apart) (ht : t.Apart)
    (h : SameUpload s.upload t.upload) (hactive : s.upload.active = true) (op id owner now : Nat)
    (data : List UInt8) :
    SameUpload (dispatch op id owner now data s).2.upload
      (dispatch op id owner now data t).2.upload ∧
      (op ∈ [0, 1, 2, 6, 7] →
        (dispatch op id owner now data t).1 = (dispatch op id owner now data s).1) := by
  have hactive' : t.upload.active = true := by
    obtain ⟨b, hb, -⟩ := h
    rw [hb]
    exact hactive
  unfold dispatch
  split
  · rw [opBegin_busy hactive, opBegin_busy hactive']
    exact ⟨h, fun _ => rfl⟩
  · rw [opBegin_busy hactive, opBegin_busy hactive']
    exact ⟨h, fun _ => rfl⟩
  · obtain ⟨hrc, hsame⟩ := opChunk_same h hs.upload ht.upload id owner now data
    exact ⟨hsame, fun _ => hrc⟩
  · obtain ⟨hrc, hsame⟩ :=
      opCommit_same h hs.upload ht.upload (hs.apart hactive) (ht.apart hactive') id owner data
    exact ⟨hsame, fun _ => hrc⟩
  · split
    · exact ⟨h, by simp⟩
    · exact ⟨h, by simp⟩
  · refine ⟨?_, by simp⟩
    split <;> split <;> exact h
  · refine ⟨?_, by simp⟩
    split <;> exact h
  · obtain ⟨hrc, hsame⟩ := opAbort_same h id owner data
    exact ⟨hsame, fun _ => hrc⟩
  · exact ⟨h, fun _ => rfl⟩

theorem Request.transactional_iff :
    r.transactional = true ↔ ∃ k, r.packet = some k ∧ k.op ∈ [0, 1, 2, 6, 7] := by
  unfold Request.transactional
  cases r.packet <;> simp

/-- **One request**, seen by two hubs with the same upload: the same upload and the same own
reply. -/
theorem request_same {s t : Hub} (hs : s.Apart) (ht : t.Apart)
    (h : SameUpload s.upload t.upload) (hactive : s.upload.active = true)
    (htime : s.upload.Timely r.now) :
    SameUpload (request s r).1.upload (request t r).1.upload ∧
      (r.transactional = true → (request s r).2.own = (request t r).2.own) := by
  have htime' : t.upload.Timely r.now := by
    obtain ⟨b, hb, -⟩ := h
    rw [hb]
    exact htime
  -- The upload and the return value decide the owner's part of the reply.
  have key : SameUpload (request s r).1.upload (request t r).1.upload ∧
      (r.transactional = true → (request t r).2.rc = (request s r).2.rc) := by
    rw [Request.transactional_iff]
    unfold request
    rw [htime.expire, htime'.expire]
    cases hk : r.packet with
    | none => exact ⟨h, fun _ => rfl⟩
    | some k =>
      simp only
      split
      · exact ⟨h, fun _ => rfl⟩
      · obtain ⟨hsame, hrc⟩ := dispatch_same hs ht h hactive k.op k.id r.owner r.now k.data
        refine ⟨hsame, ?_⟩
        rintro ⟨k', hk', hmem⟩
        obtain rfl := Option.some.inj hk'
        exact hrc hmem
  obtain ⟨hsame, hrc⟩ := key
  refine ⟨hsame, fun htx => ?_⟩
  obtain ⟨k, hk, hmem⟩ := Request.transactional_iff.mp htx
  have hop : k.op ≠ 5 := fun h5 => by simp [h5] at hmem
  rw [request_own hk hop, request_own hk hop, hrc htx, hsame.header]

/-! ## The window of a transaction -/

/-- The environment's side of an upload of `owner`, along the run from `s`: the clock does not go
back behind `clock`, every request comes less than 30 seconds after `last`, the time of the owner's
last accepted begin or chunk, and the run ends with the request by which the owner closes the
upload. -/
def Window (owner : Nat) : Nat → Nat → Hub → List Input → Prop
  | _, _, _, [] => True
  | last, clock, s, .tick now :: is => Window owner last clock (service.step s (.tick now)).1 is
  | last, clock, s, .request r :: is =>
    clock ≤ r.now ∧ r.now < last + 30000 ∧
      (r.owner = owner → (request s r).1.upload.active = true ∨ is = []) ∧
      Window owner
        (if r.owner = owner ∧ (chunkOf (.request r, some (request s r).2)).isSome then r.now
          else last)
        r.now (request s r).1 is

/-- What the unwinding needs of the full run. -/
structure InWindow (owner : Nat) (s : Hub) (is : List Input) : Prop where
  apart : s.Apart
  mine : s.upload.owner = owner
  open_ : s.upload.active = true ∨ is = []
  window : ∃ clock, s.upload.activity ≤ clock ∧ Window owner s.upload.activity clock s is

theorem request_renews (h : s.Apart) (hactive : s.upload.active = true)
    (htime : s.upload.Timely r.now) :
    (request s r).1.upload.owner = s.upload.owner ∧
      (request s r).1.upload.activity =
        if (chunkOf (.request r, some (request s r).2)).isSome then r.now
        else s.upload.activity := by
  have hstep := request_step s r h.upload
  rw [htime.expire] at hstep
  generalize (request s r).1.upload = u', (request s r).1.program = p',
    (request s r).2 = a at hstep
  generalize hrc : a.rc = rc at hstep
  cases hstep with
  | begun _ _ hidle => rw [hactive] at hidle; simp at hidle
  | retried hk hop =>
    rw [chunkOf_eq_some hk hop hrc]
    exact ⟨rfl, rfl⟩
  | extended hk hop =>
    rw [chunkOf_eq_some hk hop hrc]
    exact ⟨rfl, rfl⟩
  | @committed k _ hk hop =>
    have hnone : chunkOf (.request r, some a) = none := by
      apply chunkOf_eq_none
      intro k' hk' hop'
      obtain rfl : k = k' := Option.some.inj (hk.symm.trans hk')
      omega
    rw [hnone]
    exact ⟨rfl, rfl⟩
  | refused _ hnot hu' _ =>
    have hnone : chunkOf (.request r, some a) = none :=
      chunkOf_eq_none fun k hk hop => hrc ▸ hnot k hk (by omega)
    rw [hnone]
    rcases hu' with rfl | ⟨rfl, -⟩
    · exact ⟨rfl, rfl⟩
    · exact ⟨rfl, rfl⟩

variable {is : List Input}

theorem InWindow.timely {owner : Nat}
    (h : InWindow owner s (.request r :: is)) : s.upload.Timely r.now := by
  obtain ⟨clock, hclock, hmono, hdue, -⟩ := h.window
  exact ⟨Nat.le_trans hclock hmono, hdue⟩

theorem InWindow.active {owner : Nat} {i : Input}
    (h : InWindow owner s (i :: is)) : s.upload.active = true :=
  h.open_.resolve_right (cons_ne_nil i is)

theorem InWindow.step {owner : Nat} {i : Input}
    (h : InWindow owner s (i :: is)) : InWindow owner (service.step s i).1 is := by
  have hactive := h.active
  cases i with
  | tick now => exact ⟨apart_step s _ h.apart, h.mine, .inl hactive, h.window⟩
  | request r =>
    have htime := h.timely
    obtain ⟨howner, hrenew⟩ := request_renews h.apart hactive htime
    obtain ⟨clock, hclock, hmono, hdue, hclose, hwin⟩ := h.window
    -- The owner's own request moves the window, and no other request touches the upload.
    by_cases hmine : r.owner = owner
    · refine ⟨apart_step s _ h.apart, howner.trans h.mine, hclose hmine, r.now, ?_, ?_⟩
      · show (request s r).1.upload.activity ≤ r.now
        rw [hrenew]
        split
        · exact Nat.le_refl _
        · exact htime.1
      · show Window owner (request s r).1.upload.activity r.now (request s r).1 is
        rw [hrenew]
        simpa [hmine] using hwin
    · have hother := (request_other h.apart hactive htime (h.mine ▸ hmine)).1
      refine ⟨apart_step s _ h.apart, howner.trans h.mine, .inl ?_, r.now, ?_, ?_⟩
      · show (request s r).1.upload.active = true
        rw [hother]
        exact hactive
      · show (request s r).1.upload.activity ≤ r.now
        rw [hother]
        exact htime.1
      · show Window owner (request s r).1.upload.activity r.now (request s r).1 is
        rw [hother]
        simpa [hmine] using hwin

/-! ## Noninterference -/

/-- Two reachable hubs with the same upload. -/
structure Twin (s t : Hub) : Prop where
  left : s.Apart
  right : t.Apart
  upload : SameUpload s.upload t.upload

/-- The unwinding: what the other owners send moves neither the upload nor the owner's replies. -/
theorem unwinding (owner : Nat) :
    service.Unwinding Twin (InWindow owner) (concerns owner) ownReply where
  ok_step _ _ _ h := h.step
  deleted s t i is h hok hdel := by
    cases i with
    | tick now => simp [concerns] at hdel
    | request r =>
      have hother : r.owner ≠ s.upload.owner := by
        rw [hok.mine]
        simpa [concerns] using hdel
      refine ⟨apart_step s _ h.left, h.right, ?_⟩
      show SameUpload (request s r).1.upload t.upload
      rw [(request_other h.left hok.active hok.timely hother).1]
      exact h.upload
  kept s t i is h hok _ := by
    cases i with
    | tick now => exact ⟨⟨apart_step s _ h.left, apart_step t _ h.right, h.upload⟩, rfl⟩
    | request r =>
      obtain ⟨hsame, hreply⟩ := request_same h.left h.right h.upload hok.active hok.timely
      refine ⟨⟨apart_step s _ h.left, apart_step t _ h.right, hsame⟩, ?_⟩
      show (if r.transactional then some (request s r).2.own else none)
        = if r.transactional then some (request t r).2.own else none
      split
      · next htx => rw [hreply htx]
      · rfl

/-- An accepted begin leaves the upload it announced, whatever was there before. -/
theorem request_begun (h : s.Apart) {k : Packet} (hk : r.packet = some k)
    (hop : k.op = 0 ∨ k.op = 7) (hrc : (request s r).2.rc = 0) :
    (request s r).1.upload = (s.upload.expire r.now).begun (k.announcement r.owner) r.now := by
  have hstep := request_step s r h.upload
  generalize (request s r).1.upload = u', (request s r).1.program = p', (request s r).2.rc = rc
    at hstep hrc
  have hpacket : ∀ k', r.packet = some k' → k'.op = k.op :=
    fun k' hk' => by rw [Option.some.inj (hk.symm.trans hk')]
  cases hstep with
  | begun hk' =>
    obtain rfl := Option.some.inj (hk.symm.trans hk')
    rfl
  | retried hk' hop' => have := hpacket _ hk'; omega
  | extended hk' hop' => have := hpacket _ hk'; omega
  | committed hk' hop' => have := hpacket _ hk'; omega
  | refused _ hnot => exact absurd hrc (hnot k hk (by omega))

theorem begun_same (u v : Upload) (a : Announcement) (now : Nat) :
    SameUpload (u.begun a now) (v.begun a now) :=
  ⟨v.buffer, rfl, by simp [Upload.begun, Upload.assembled]⟩

/-- **Isolation.** In every reachable hub a running program and an active upload exclude each other
and the upload fits its buffer; a request of another owner leaves a timely upload and the stored
program as they are; and when a begin is accepted by two reachable hubs, then along every window of
that transaction the requests of the other owners can be deleted without changing the owner's own
replies or the assembled buffer. -/
theorem upload_isolation (io io' : ProgramIo) (respond respond' : List Event → IoCall → IoResult)
    (pre pre' : List Input) :
    let s := service.run (Hub.init io respond) pre
    let t := service.run (Hub.init io' respond') pre'
    (¬ (s.program.state = .running ∧ s.upload.active = true) ∧
      s.upload.received ≤ s.upload.size ∧ s.upload.size ≤ 4096) ∧
    (∀ r : Request, s.upload.active = true → s.upload.Timely r.now → r.owner ≠ s.upload.owner →
      (request s r).1.upload = s.upload ∧ (request s r).1.program.stored = s.program.stored) ∧
    ∀ (b : Request) (k : Packet) (is : List Input), b.packet = some k → k.op = 0 ∨ k.op = 7 →
      (request s b).2.rc = 0 → (request t b).2.rc = 0 →
      Window b.owner b.now b.now (request s b).1 is →
      (request s b).2.own = (request t b).2.own ∧
      Machine.observe (concerns b.owner) ownReply (service.trace (request s b).1 is)
        = Machine.observe (concerns b.owner) ownReply
            (service.trace (request t b).1 (is.filter (concerns b.owner))) ∧
      (service.run (request s b).1 is).upload.assembled
        = (service.run (request t b).1 (is.filter (concerns b.owner))).upload.assembled := by
  intro s t
  have hs : s.Apart := run_apart io respond pre
  have ht : t.Apart := run_apart io' respond' pre'
  refine ⟨⟨fun ⟨hrun, hactive⟩ => hs.apart hactive hrun, hs.upload.received, hs.upload.size⟩,
    fun r hactive htime howner => request_other hs hactive htime howner, ?_⟩
  intro b k is hk hop hrc hrc' hwin
  have hu := request_begun hs hk hop hrc
  have hsame : SameUpload (request s b).1.upload (request t b).1.upload := by
    rw [hu, request_begun ht hk hop hrc']
    exact begun_same _ _ _ _
  have hok : InWindow b.owner (request s b).1 is := by
    refine ⟨apart_step s (.request b) hs, ?_, .inl ?_, b.now, ?_, ?_⟩
    all_goals rw [hu]
    · rfl
    · rfl
    · exact Nat.le_refl b.now
    · exact hwin
  have htwin : Twin (request s b).1 (request t b).1 :=
    ⟨apart_step s (.request b) hs, apart_step t (.request b) ht, hsame⟩
  obtain ⟨hend, hobs⟩ := (unwinding b.owner).purge _ is _ _ htwin hok
  refine ⟨?_, hobs, hend.upload.assembled.symm⟩
  rw [request_own hk (by omega), request_own hk (by omega), hrc, hrc', hsame.header]

/-! ## What the others do show -/

def packet (owner now op id : Nat) (body : List UInt8) : Request :=
  ⟨owner, now, some ([0x70, 1, UInt8.ofNat op, 0] ++ put32 id ++ body)⟩

/-- Owner 1 stores the one-byte source `x` under id 5 and begins to send another as id 6. -/
def storedThenBegun : List Input :=
  [.request (packet 1 0 7 5 (put32 1 ++ put32 0x8cdc1683)),
    .request (packet 1 0 1 5 [0, 0, 0x78]),
    .request (packet 1 0 2 5 []),
    .request (packet 1 0 7 6 (put32 1 ++ put32 0x8cdc1683))]

/-- Owner 2 stops program 5; owner 1 sends its chunk. -/
def stopThenChunk : List Input :=
  [.request (packet 2 0 4 5 []), .request (packet 1 0 1 6 [0, 0, 0x78])]

/-- The hub without a program and without devices. -/
def Hub.bare : Hub := Hub.init ⟨true, true, true, true, true⟩ fun _ _ => ⟨0, 0⟩

/-- **Whole replies are not isolated**: inside a window of owner 1, the stop of owner 2 shows in the
status that owner 1's accepted chunk is answered with. -/
theorem replies_leak :
    (∀ e ∈ service.trace Hub.bare storedThenBegun, ∃ a, e.2 = some a ∧ a.rc = 0) ∧
    Window 1 0 0 (service.run Hub.bare storedThenBegun) stopThenChunk ∧
    Machine.observe (concerns 1) (fun _ a => a)
        (service.trace Hub.bare (storedThenBegun ++ stopThenChunk))
      ≠ Machine.observe (concerns 1) (fun _ a => a)
          (service.trace Hub.bare ((storedThenBegun ++ stopThenChunk).filter (concerns 1))) := by
  refine ⟨?_, ?_, ?_⟩
  · have h : ∀ e ∈ service.trace Hub.bare storedThenBegun, (e.2.map Answer.rc) = some 0 := by
      decide +kernel
    intro e he
    simpa using h e he
  · exact ⟨by decide, by decide, by simp [packet], by decide +kernel, by decide +kernel,
      fun _ => .inr rfl, trivial⟩
  · decide +kernel

end Brickwright.HubProgram
