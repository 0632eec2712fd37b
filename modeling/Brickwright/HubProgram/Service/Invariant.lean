import Brickwright.HubProgram.Service.Basic
import Brickwright.HubProgram.Storage.Verified
import Brickwright.Machine.History

/-!
# What the critical sections keep

Only a start arms a Python program, and nothing replaces an executing one. `Kept` says so of a
section that leaves Python as active as it was, which is every section but the two of the worker
and the one that creates it.
-/

namespace Brickwright.HubProgram.Service

open List

/-! ## Notes -/

/-- The program stored at an accepted start. -/
def Note.started : Note → Option Stored
  | .answered r rc d => if opOf r.data = 3 ∧ rc = 0 then some d else none
  | _ => none

def Note.IsMark : Note → Prop
  | .marked _ => True
  | _ => False

def Note.Decides (n : Note) : Prop := n.started ≠ none ∨ n.IsMark

/-- The last accepted start is of the stored program `d`, and nothing was executed since. -/
def Pending (d : Stored) (h : List Note) : Prop :=
  Outstanding (fun n => n.started = some d) Note.Decides h

/-- An execution has begun and not ended. -/
def InProgress (h : List Note) : Prop := Outstanding Note.IsMark (· = .cleared) h

/-- The text a stored Python program is. -/
def Stored.text (d : Stored) : List UInt8 := d.source.take d.count

/-! ## The opcode -/

theorem opOf_packet {r : Request} {k : Packet} (h : r.packet = some k) : opOf r.data = k.op := by
  rw [Request.packet] at h
  cases hdata : r.data with
  | none =>
    rw [hdata] at h
    cases h
  | some data =>
    rw [hdata] at h
    dsimp only at h
    split at h
    · cases h
    · next hok =>
      cases h
      exact if_pos (by omega)

/-! ## What arms a program -/

variable {s s' : State} {p q : Program} {r : Request} {a : Answer}

theorem armed_of_not_running (h : p.state ≠ .running) : armed p = false := by
  rw [armed, decide_eq_false_iff_not]
  exact fun h' => h h'.1

theorem running_of_armed (h : armed p = true) : p.state = .running := by
  rw [armed, decide_eq_true_eq] at h
  exact h.1

theorem load_armed (p : Program) (id : Nat) (rows : List Instruction) :
    (load p id (some rows)).2 = p ∨ armed (load p id (some rows)).2 = false := by
  rcases load_cases p id rows with ⟨-, h⟩ | ⟨-, -, -, -, h, -⟩
  · exact .inl h
  · exact .inr (armed_of_not_running (by rw [h]; decide))

theorem opCommit_armed (id owner : Nat) (p : Program) (u : Upload) (data : List UInt8) :
    (opCommit id owner p u data).2.1 = p ∨ armed (opCommit id owner p u data).2.1 = false := by
  rw [opCommit]
  split
  · exact .inl rfl
  split
  · exact .inl rfl
  split
  · split
    · exact .inl rfl
    split
    · exact .inl rfl
    · exact .inr (armed_of_not_running (fun h => ProgramState.noConfusion h))
  · exact load_armed p id _

theorem stop_not_running (p : Program) (w : World) :
    (HubProgram.stop p w).2.1.state ≠ .running := by
  rw [HubProgram.stop]
  split
  · exact fun h => by cases h
  split
  · exact fun h => by cases h
  · next h =>
    rw [not_not] at h
    show p.state ≠ .running
    rw [h]
    exact fun h => by cases h

theorem start_armed (p : Program) (id now : Nat) :
    (HubProgram.start p id now).2 = p ∨ (HubProgram.start p id now).1 = 0 := by
  rw [HubProgram.start]
  split
  · exact .inl rfl
  split
  · exact .inl rfl
  split
  · exact .inl rfl
  · exact .inr rfl

/-- **Only a start arms**: an opcode leaves the program as it was, or not armed, or it was a start
that was accepted. -/
theorem dispatch_armed (op id owner now : Nat) (data : List UInt8) (hub : Hub)
    (h : armed (dispatch op id owner now data hub).2.program = true) :
    (dispatch op id owner now data hub).2.program = hub.program ∨
      (op = 3 ∧ (dispatch op id owner now data hub).1 = 0) := by
  revert h
  unfold dispatch
  split
  · exact fun _ => .inl rfl
  · exact fun _ => .inl rfl
  · exact fun _ => .inl rfl
  · intro h
    rcases opCommit_armed id owner hub.program hub.upload data with heq | hno
    · exact .inl heq
    · exact absurd h (Bool.eq_false_iff.mp hno)
  · split
    · exact fun _ => .inl rfl
    split
    · exact fun _ => .inl rfl
    · intro h
      rcases start_armed hub.program id now with heq | hrc
      · exact .inl heq
      · exact .inr ⟨rfl, hrc⟩
  · split
    · exact fun _ => .inl rfl
    · intro h
      exact absurd (running_of_armed h) (stop_not_running hub.program hub.world)
  · split <;> exact fun _ => .inl rfl
  · exact fun _ => .inl rfl
  · exact fun _ => .inl rfl

theorem request_armed (hub : Hub) (r : Request)
    (h : armed (HubProgram.request hub r).1.program = true) :
    (HubProgram.request hub r).1.program = hub.program ∨
      (opOf r.data = 3 ∧ (HubProgram.request hub r).2.rc = 0) := by
  revert h
  unfold HubProgram.request
  cases hk : r.packet with
  | none => exact fun _ => .inl rfl
  | some k =>
    dsimp only
    split
    · exact fun _ => .inl rfl
    · rw [opOf_packet hk]
      exact dispatch_armed k.op k.id r.owner r.now k.data _

/-! ## What stays while Python is active -/

theorem dispatch_stored {op id owner now : Nat} {data : List UInt8} {hub : Hub} (hop : op ≠ 2) :
    (dispatch op id owner now data hub).2.program.stored = hub.program.stored := by
  unfold dispatch
  split
  · rfl
  · rfl
  · rfl
  · exact absurd rfl hop
  · split
    · rfl
    split
    · rfl
    · exact start_stored hub.program id now
  · split
    · rfl
    · exact stop_stored hub.program hub.world
  · split <;> rfl
  · rfl
  · rfl

theorem request_stored {hub : Hub} {r : Request} (hop : opOf r.data ≠ 2) :
    (HubProgram.request hub r).1.program.stored = hub.program.stored := by
  unfold HubProgram.request
  cases hk : r.packet with
  | none => rfl
  | some k =>
    rw [opOf_packet hk] at hop
    dsimp only
    split
    · rfl
    · exact dispatch_stored hop

theorem dispatch_status (id owner now : Nat) (data : List UInt8) (hub : Hub) :
    (dispatch 5 id owner now data hub).2 = hub := by
  show (if data.length = 8 then ((0 : Int), hub) else (-EINVAL, hub)).2 = hub
  split <;> rfl

theorem status_program (s : State) (r : Request) :
    (s.status r).1.hub.program = s.hub.program := by
  show (HubProgram.request s.hub (statusRequest r)).1.program = _
  unfold HubProgram.request
  cases hk : (statusRequest r).packet with
  | none => rfl
  | some k =>
    have hop : k.op = 5 := (opOf_packet hk).symm
    dsimp only
    split
    · rfl
    · rw [hop]
      show (dispatch 5 _ _ _ _ _).2.program = _
      rw [dispatch_status]

theorem status_ok (hs : s.hub.Ok) (r : Request) : (s.status r).1.hub.Ok :=
  HubProgram.request_ok hs (statusRequest r)

/-! ## A request -/

/-- The opcodes that would begin, commit, start, save or restore. -/
def Replaces (op : Nat) : Prop := op = 0 ∨ op = 2 ∨ op = 3 ∨ op = 7 ∨ op = 8 ∨ op = 9

/-- What `request_locked` does. -/
structure Requested (s : State) (r : Request) (s' : State) (rc : Int) : Prop where
  ok : s'.hub.Ok
  frame : s'.initialized = s.initialized ∧ s'.pythonActive = s.pythonActive ∧
    s'.workers = s.workers ∧ s'.blocked = s.blocked
  /-- An armed program was armed before, unless the request started it. -/
  armed : armed s'.hub.program = true →
    s'.hub.program = s.hub.program ∨ (opOf r.data = 3 ∧ rc = 0)
  /-- While Python is active the request replaces nothing and is told so. -/
  frozen : s.pythonActive = true → s'.hub.program.stored = s.hub.program.stored ∧
    (Replaces (opOf r.data) → rc = -EBUSY)

theorem restoreFile_program {id : UInt32} {io : RestoreIo} {files : Files} {rc : Int}
    (hp : p.stored.Ok) (h : restoreFile p id io files = some (rc, q)) :
    q.stored.Ok ∧ (q = p ∨ q.state = .ready) := by
  have hcases : ∀ io file, restore p id io file = some (rc, q) →
      q.stored.Ok ∧ (q = p ∨ q.state = .ready) := by
    intro io file h
    rcases restore_cases h with ⟨-, rfl⟩ | ⟨-, hrun, hid, r, hgood, -, rfl⟩
    · exact ⟨hp, .inl rfl⟩
    · exact ⟨install_ok hgood hp hid, .inr (install_good hgood hrun hid).2.2.2.1⟩
  rw [restoreFile] at h
  split at h
  · exact hcases _ _ h
  · exact hcases _ _ h

theorem storageCall_requested {io : StorageIo} {rc : Int} (hs : s.hub.Ok)
    (h : storageCall s r io = some (rc, s')) :
    s'.hub.Ok ∧ (s'.initialized = s.initialized ∧ s'.pythonActive = s.pythonActive ∧
      s'.workers = s.workers ∧ s'.blocked = s.blocked) ∧
      (s'.hub.program = s.hub.program ∨ armed s'.hub.program = false) ∧
      (s.pythonActive = true → s' = s ∧ rc = -EBUSY) := by
  rw [storageCall] at h
  split at h
  · cases h
    exact ⟨hs, ⟨rfl, rfl, rfl, rfl⟩, .inl rfl, fun _ => ⟨rfl, rfl⟩⟩
  next hactive =>
  split at h
  · split at h
    · cases h
      exact ⟨hs, ⟨rfl, rfl, rfl, rfl⟩, .inl rfl, fun h => absurd h hactive⟩
    split at h
    · obtain ⟨⟨rc', files⟩, -, heq⟩ := Option.map_eq_some_iff.mp h
      cases heq
      exact ⟨hs, ⟨rfl, rfl, rfl, rfl⟩, .inl rfl, fun h => absurd h hactive⟩
    · obtain ⟨⟨rc', q⟩, hrestore, heq⟩ := Option.map_eq_some_iff.mp h
      cases heq
      obtain ⟨hq, hprogram⟩ := restoreFile_program hs.stored hrestore
      refine ⟨⟨hq, hs.upload, hs.announced⟩, ⟨rfl, rfl, rfl, rfl⟩, ?_, fun h => absurd h hactive⟩
      rcases hprogram with rfl | hready
      · exact .inl rfl
      · refine .inr (armed_of_not_running ?_)
        show q.state ≠ .running
        rw [hready]
        exact fun h => nomatch h
  · cases h
    exact ⟨hs, ⟨rfl, rfl, rfl, rfl⟩, .inl rfl, fun h => absurd h hactive⟩

/-- **One request under the lock.** -/
theorem requestLocked_requested {io : StorageIo} (hs : s.hub.Ok)
    (h : requestLocked s r io = some (s', a)) : Requested s r s' a.rc := by
  rw [requestLocked] at h
  split at h
  · next hdiverted =>
    obtain ⟨⟨rc, t⟩, hcall, heq⟩ := Option.map_eq_some_iff.mp h
    cases heq
    obtain ⟨hok, ⟨hinit, hact, hwork, hblock⟩, hprogram, hfrozen⟩ :=
      storageCall_requested (status_ok hs r) hcall
    have ht := status_program t r
    rw [status_program] at hprogram
    refine ⟨status_ok hok r, ⟨hinit, hact, hwork, hblock⟩, ?_, ?_⟩
    · intro harmed
      change armed (t.status r).1.hub.program = true at harmed
      change (t.status r).1.hub.program = _ ∨ _
      rw [ht] at harmed ⊢
      exact hprogram.imp_right fun h => absurd harmed (Bool.eq_false_iff.mp h)
    · intro hactive
      obtain ⟨rfl, hrc⟩ := hfrozen hactive
      refine ⟨?_, fun _ => hrc⟩
      change (((s.status r).1.status r).1.hub.program).stored = _
      rw [status_program, status_program]
  · next hplain =>
    cases h
    refine ⟨HubProgram.request_ok hs r, ⟨rfl, rfl, rfl, rfl⟩, request_armed s.hub r, ?_⟩
    intro hactive
    rw [diverted, Bool.not_eq_true, decide_eq_false_iff_not] at hplain
    have hops : ¬ Replaces (opOf r.data) := by
      intro h
      apply hplain
      rcases h with h | h | h | h | h | h <;> simp [h, hactive]
    exact ⟨request_stored fun h => hops (.inr (.inl h)), fun h => absurd h hops⟩

/-! ## One section -/

/-- **A critical section that leaves Python as active as it was.** -/
structure Kept (s : State) (notes : List Note) (s' : State) : Prop where
  ok : s'.hub.Ok
  initialized : s'.initialized = s.initialized
  active : s'.pythonActive = s.pythonActive
  workers : s'.workers = s.workers
  /-- An armed program was armed by the last start of the section, or it was armed before. -/
  armed : armed s'.hub.program = true → Pending s'.hub.program.stored notes ∨
    armed s.hub.program = true ∧ s'.hub.program.stored = s.hub.program.stored ∧
      ∀ n ∈ notes, ¬ n.Decides
  quiet : ∀ n ∈ notes, ¬ n.IsMark ∧ n ≠ .cleared
  frozen : s.pythonActive = true → s'.hub.program.stored = s.hub.program.stored ∧
    ∀ r rc d, .answered r rc d ∈ notes → Replaces (opOf r.data) → rc = -EBUSY

theorem Kept.silent (hok : s'.hub.Ok)
    (hframe : s'.initialized = s.initialized ∧ s'.pythonActive = s.pythonActive ∧
      s'.workers = s.workers)
    (hstored : s'.hub.program.stored = s.hub.program.stored)
    (harmed : Service.armed s'.hub.program = true → Service.armed s.hub.program = true) :
    Kept s [] s' where
  ok := hok
  initialized := hframe.1
  active := hframe.2.1
  workers := hframe.2.2
  armed h := .inr ⟨harmed h, hstored, fun _ hn => nomatch hn⟩
  quiet _ hn := nomatch hn
  frozen _ := ⟨hstored, fun _ _ _ hn => nomatch hn⟩

theorem Kept.andThen {s₁ s₂ : State} {notes : List Note} (h : Kept s notes s₁)
    (h' : Kept s₁ [] s₂) : Kept s notes s₂ where
  ok := h'.ok
  initialized := h'.initialized.trans h.initialized
  active := h'.active.trans h.active
  workers := h'.workers.trans h.workers
  armed harmed := by
    rcases h'.armed harmed with hpending | ⟨hbefore, hstored, -⟩
    · exact absurd hpending Outstanding.nil
    · rw [hstored]
      exact h.armed hbefore
  quiet := h.quiet
  frozen hactive := by
    obtain ⟨hstored, hanswers⟩ := h.frozen hactive
    exact ⟨(h'.frozen (h.active.trans hactive)).1.trans hstored, hanswers⟩

theorem Requested.kept {rc : Int} (h : Requested s r s' rc) :
    Kept s [.answered r rc s'.hub.program.stored] s' where
  ok := h.ok
  initialized := h.frame.1
  active := h.frame.2.1
  workers := h.frame.2.2.1
  armed harmed := by
    by_cases hstart : opOf r.data = 3 ∧ rc = 0
    · exact .inl ⟨[], _, [], rfl, if_pos hstart, fun _ hn => nomatch hn⟩
    · rcases h.armed harmed with heq | hstart'
      · refine .inr ⟨heq ▸ harmed, by rw [heq], ?_⟩
        intro n hn
        cases mem_singleton.mp hn
        rintro (hstarted | hmark)
        · exact hstarted (if_neg hstart)
        · exact hmark
      · exact absurd hstart' hstart
  quiet n hn := by
    cases mem_singleton.mp hn
    exact ⟨fun h => h, fun h => nomatch h⟩
  frozen hactive := by
    obtain ⟨hstored, hbusy⟩ := h.frozen hactive
    refine ⟨hstored, ?_⟩
    intro r' rc' d hn
    cases mem_singleton.mp hn
    exact hbusy

theorem requestLocked_kept {io : StorageIo} {x : State × List Note} (hs : s.hub.Ok)
    (h : (requestLocked s r io).map (noted r) = some x) : Kept s x.2 x.1 := by
  obtain ⟨⟨s₁, a⟩, hrequest, rfl⟩ := Option.map_eq_some_iff.mp h
  exact (requestLocked_requested hs hrequest).kept

/-! ## The ticks -/

theorem setProgram_ok {w : World} (hs : s.hub.Ok)
    (hstored : p.stored = s.hub.program.stored) : (s.setProgram p w).hub.Ok :=
  ⟨by show p.stored.Ok; rw [hstored]; exact hs.stored, hs.upload, hs.announced⟩

theorem armed_of_ending (h : p.ending = true) : armed p = false := by
  rw [armed, decide_eq_false_iff_not]
  exact fun h' => Bool.noConfusion (h.symm.trans h'.2.2)

theorem armed_of_instructions (h : p.language = 0) : armed p = false := by
  rw [armed, decide_eq_false_iff_not]
  exact fun h' => h'.2.1 h

theorem tickMoving_ending (now : Nat) (w : World) (h : p.ending = true) :
    (tickMoving p now w).1.ending = true := by
  have hending : ∀ (q : Program) (w : World), q.ending = true →
      (tickEnding q now w).1.ending = true := by
    intro q w hq
    rw [tickEnding, if_pos hq]
    split
    · split <;> exact hq
    · exact hq
  have hawaiting : ∀ (q : Program) (w : World), q.ending = true →
      (tickAwaiting q now w).1.ending = true := by
    intro q w hq
    rw [tickAwaiting]
    split
    · split
      · split <;> exact hq
      · exact hending _ _ hq
    · exact hending q w hq
  rw [tickMoving]
  split
  · dsimp only
    split
    · exact h
    split
    · exact h
    · exact hawaiting _ _ h
  · exact hawaiting p w h

theorem tick_ending (now : Nat) (w : World) (h : p.ending = true) :
    (HubProgram.tick p now w).1.ending = true := by
  unfold HubProgram.tick
  split
  · exact h
  split
  · exact h
  simp only
  split
  · exact h
  split
  · exact h
  · exact tickMoving_ending now w h

theorem tickProgram_kept (hs : s.hub.Ok) (t : TickIo) : Kept s [] (tickProgram s t) := by
  rw [tickProgram]
  split
  · exact .silent hs ⟨rfl, rfl, rfl⟩ rfl id
  split
  · have hstored := stop_stored s.hub.program s.hub.world
    refine .silent (setProgram_ok hs hstored) ⟨rfl, rfl, rfl⟩ hstored fun h => ?_
    exact absurd (running_of_armed h) (fun h => nomatch h)
  split
  · next hticked =>
    have hstored := tick_stored s.hub.program t.now s.hub.world
    refine .silent (setProgram_ok hs hstored) ⟨rfl, rfl, rfl⟩ hstored fun h => ?_
    have hno : armed (HubProgram.tick s.hub.program t.now s.hub.world).1 = false := by
      rcases hticked with hlanguage | hending
      · exact armed_of_instructions ((congrArg Stored.language hstored).trans hlanguage)
      · exact armed_of_ending (tick_ending _ _ hending)
    exact absurd h (Bool.eq_false_iff.mp hno)
  · exact .silent hs ⟨rfl, rfl, rfl⟩ rfl id

/-- **A tick**, with what the mailbox had. -/
theorem tickLocked_kept {t : TickIo} {x : State × List Note} (hs : s.hub.Ok)
    (h : tickLocked s t = some x) : Kept s x.2 x.1 := by
  obtain ⟨⟨s₁, notes⟩, hdebug, rfl⟩ := Option.map_eq_some_iff.mp h
  have hkept : Kept s notes s₁ := by
    rw [debugLocked] at hdebug
    split at hdebug
    · cases hdebug
      exact .silent hs ⟨rfl, rfl, rfl⟩ rfl id
    · exact requestLocked_kept hs hdebug
  exact hkept.andThen (tickProgram_kept hkept.ok t)

/-! ## The other sections -/

theorem serviceStop_kept (hs : s.hub.Ok) : Kept s [] (serviceStop s) := by
  rw [serviceStop]
  split
  · have hstored := stop_stored s.hub.program s.hub.world
    refine .silent ⟨?_, Upload.init_ok, .inactive Upload.init⟩ ⟨rfl, rfl, rfl⟩ hstored fun h => ?_
    · show (HubProgram.stop s.hub.program s.hub.world).2.1.stored.Ok
      rw [hstored]
      exact hs.stored
    · exact absurd (running_of_armed h) (stop_not_running s.hub.program s.hub.world)
  · exact .silent hs ⟨rfl, rfl, rfl⟩ rfl id

/-- A call of a device changes only which ports are owned. -/
theorem setProgram_kept {w : World} (hs : s.hub.Ok)
    (hstored : p.stored = s.hub.program.stored) (harmed : armed p = armed s.hub.program) :
    Kept s [] (s.setProgram p w) :=
  .silent (setProgram_ok hs hstored) ⟨rfl, rfl, rfl⟩ hstored fun h => harmed.symm.trans h

theorem drive_kept (hs : s.hub.Ok) (port : Nat) (call : IoCall) :
    Kept s [] (drive s port call) := by
  rw [drive]
  split
  · exact .silent hs ⟨rfl, rfl, rfl⟩ rfl id
  · exact setProgram_kept hs rfl rfl

theorem serviceDone_kept (hs : s.hub.Ok) (port : Nat) : Kept s [] (serviceDone s port) := by
  rw [serviceDone]
  split
  · exact .silent hs ⟨rfl, rfl, rfl⟩ rfl id
  · exact setProgram_kept hs rfl rfl

theorem serviceSensor_kept (hs : s.hub.Ok) (predicate : Nat) :
    Kept s [] (serviceSensor s predicate) := by
  rw [serviceSensor]
  split
  · exact .silent hs ⟨rfl, rfl, rfl⟩ rfl id
  · exact setProgram_kept hs rfl rfl

/-! ## The worker -/

/-- When the execution has returned, nothing is armed, and what is stored is what was. -/
theorem executed_eq (p : Program) (w : World) (rc : Int) :
    (executed p w rc).1.stored = p.stored ∧ armed (executed p w rc).1 = false := by
  rw [executed]
  split
  · dsimp only
    split
    · exact ⟨stop_stored p w, armed_of_not_running fun h => nomatch h⟩
    · exact ⟨stop_stored p w, armed_of_ending rfl⟩
  · next hrun => exact ⟨rfl, armed_of_not_running hrun⟩

theorem cString_text {d : Stored} (h : d.TextOk) : cString d.source = Stored.text d := by
  obtain ⟨rest, hrest⟩ : ∃ rest, d.source.drop d.count = 0 :: rest := by
    obtain ⟨hlt, hget⟩ := List.getElem?_eq_some_iff.mp h.terminated
    exact ⟨_, by rw [drop_eq_getElem_cons hlt, hget]⟩
  have hsplit : d.source = Stored.text d ++ 0 :: rest := by
    rw [← hrest, Stored.text, take_append_drop]
  have hall : ∀ b ∈ Stored.text d, decide (b ≠ 0) = true := by
    intro b hb
    rw [decide_eq_true_eq]
    rintro rfl
    exact h.noNul hb
  calc cString d.source = (Stored.text d ++ 0 :: rest).takeWhile (· ≠ 0) := by rw
    [cString, ← hsplit]
    _ = Stored.text d ++ (0 :: rest).takeWhile (· ≠ 0) := takeWhile_append_of_pos hall
    _ = Stored.text d := by
      rw [takeWhile_cons_of_neg (by decide), append_nil]

theorem source_of_armed (hs : s.hub.Ok) (h : armed s.hub.program = true) :
    s.hub.program.stored.language ≠ 0 ∧
      cString s.hub.program.source = Stored.text s.hub.program.stored := by
  rw [armed, decide_eq_true_eq] at h
  have hlanguage : s.hub.program.stored.language ≠ 0 := h.2.1
  have hid : s.hub.program.stored.id ≠ 0 := fun hid => hlanguage (hs.stored.fresh hid)
  refine ⟨hlanguage, ?_⟩
  rcases (hs.stored.committed hid).contents with hrows | htext
  · exact absurd hrows.language hlanguage
  · exact cString_text htext

end Brickwright.HubProgram.Service
