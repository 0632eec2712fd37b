import Brickwright.Drivebase.Chardev.Basic
import Brickwright.Ring.Fenced

/-!
# STOP supersedes

For the daemon the ring is a queue with fences: a STOP raises the epoch below which drive commands
are dropped. That works as long as STOPs are pushed in the order in which they bumped the epoch
(`InOrder`). Then the epoch the daemon has seen never decreases, a drive command that was pushed
behind a STOP with a later epoch than its own is not executed, and every STOP is picked up, or one
with a later epoch in its place (`stop_supersedes_of_inOrder`).

The bump and the push are two sections of `db_handle_stop`, though, so that one caller can overtake
another. The daemon then takes the epoch of the late one at its word, and in the ring the late one
overwrites the other (`overtaken`).
-/

namespace Brickwright.Drivebase.Chardev

open List

variable {s s' : State} {h notes pre post : List Note} {q q' : List Envelope} {env stop : Envelope}

/-! ## What is said of a run -/

/-- The commands a STOP supersedes: those that move the base, and the one that configures it. -/
def Cmd.drives : Cmd → Bool
  | .config | .driveStraight | .driveCurve | .driveArcAngle | .driveArcDistance | .driveForever
  | .turn => true
  | _ => false

def pushes (h : List Note) : List Envelope :=
  h.filterMap fun
    | .pushed env => some env
    | _ => none

def picks (h : List Note) : List Envelope :=
  h.filterMap fun
    | .picked env => some env
    | _ => none

@[simp] theorem pushes_append (h h' : List Note) : pushes (h ++ h') = pushes h ++ pushes h' :=
  filterMap_append

@[simp] theorem picks_append (h h' : List Note) : picks (h ++ h') = picks h ++ picks h' :=
  filterMap_append

/-- STOPs are pushed in the order of their epochs. -/
def InOrder (h : List Note) : Prop :=
  Fenced.InOrder Envelope.isStop (fun env => env.epoch.toNat) (pushes h)

/-- After `post`, a STOP with this epoch or a later one was picked up, or it will be when at most
`cmdRingDepth - 1` envelopes have been since the push. -/
def Followed (q : List Envelope) (post : List Note) (epoch : UInt32) : Prop :=
  ∃ stop : Envelope, stop.isStop = true ∧ epoch ≤ stop.epoch ∧
    (stop ∈ picks post ∨ ∃ i, q[i]? = some stop ∧ i + (picks post).length + 1 < cmdRingDepth)

/-- When a STOP gets to its push and is given the lock, the push succeeds. -/
def State.StoresStop (s : State) (e : Event) : Prop :=
  ∀ i lock memory arg epoch, e = .resume i lock memory → s.caller i = .stopActuated arg epoch →
    0 ≤ lock → ∃ env : Envelope, env.isStop = true ∧ env.epoch = epoch ∧
      (s.step e).2 = [.pushed env, .returned .stop 0]

structure Supersedes (s : State) (events : List Event) : Prop where
  seen : machine.Throughout
    (fun s e => s.handler.outputEpochSeen ≤ (s.step e).1.handler.outputEpochSeen) s events
  executed : ∀ (stop env : Envelope) (call : Call), stop.isStop = true →
    env.cmdKind.drives = true →
    [Note.pushed stop, .pushed env, .called env call].Sublist (machine.history s events) →
    stop.epoch ≤ env.epoch
  stored : machine.Throughout State.StoresStop s events
  followed : ∀ pre (stop : Envelope) post, machine.history s events = pre ++ .pushed stop :: post →
    stop.isStop = true → Followed (machine.run s events).dev.queue post stop.epoch

/-! ## What a dispatch does -/

variable {initRc resetRc : Int} {handler : Handler}

theorem Envelope.seen_of_stop (env : Envelope) (hstop : env.isStop = true) :
    (handler.dispatchEnvelope env initRc resetRc).1.outputEpochSeen = env.epoch := by
  have hkind : env.cmdKind = .stop := beq_iff_eq.mp hstop
  simp only [Handler.dispatchEnvelope, hkind]

theorem Envelope.seen_of_not_stop (env : Envelope) (hstop : env.isStop = false) :
    (handler.dispatchEnvelope env initRc resetRc).1.outputEpochSeen = handler.outputEpochSeen := by
  have hkind : env.cmdKind ≠ .stop := beq_eq_false_iff_ne.mp hstop
  unfold Handler.dispatchEnvelope
  split <;> grind

/-- A drive command is executed only if its epoch is not over. -/
theorem Envelope.epoch_of_called (env : Envelope) (hdrives : env.cmdKind.drives = true)
    (hcalled : (handler.dispatchEnvelope env initRc resetRc).2 ≠ []) :
    handler.outputEpochSeen ≤ env.epoch := by
  by_contra hlt
  apply hcalled
  unfold Handler.dispatchEnvelope
  split <;> simp_all [Cmd.drives]

/-! ## The invariant -/

/-- What the daemon has still to dispatch. -/
def State.line (s : State) : List Envelope := s.picked.toList ++ s.dev.queue

structure Inv (h : List Note) (s : State) : Prop where
  queues : s.dev.Queues s.dev.queue
  args : ∀ i arg epoch, s.caller i = .stopBumped arg epoch ∨ s.caller i = .stopActuated arg epoch →
    arg.length ≤ cmdPayloadBytes
  seq : ∀ env ∈ pushes h, env.cmdSeq ≤ s.dev.cmdSeq
  sound : InOrder h → Fenced.Sound Envelope.isStop (fun env => env.epoch.toNat) (pushes h) s.line
    s.handler.outputEpochSeen.toNat
  followed : InOrder h → ∀ pre (stop : Envelope) post, h = pre ++ .pushed stop :: post →
    stop.isStop = true → Followed s.dev.queue post stop.epoch

theorem inv_start (motorLPortIdx motorRPortIdx defaultOnCompletion : UInt8) :
    Inv [] (start motorLPortIdx motorRPortIdx defaultOnCompletion) := by
  have hqueues : (start motorLPortIdx motorRPortIdx defaultOnCompletion).dev.Queues [] :=
    Dev.queues_afterAttach motorLPortIdx motorRPortIdx defaultOnCompletion
  have hqueue := hqueues.queue_eq
  refine ⟨by rw [hqueue]; exact hqueues, ?_, fun env henv => absurd henv not_mem_nil, ?_, ?_⟩
  · rintro i arg epoch (hc | hc) <;> cases hc
  · intro _
    rw [State.line, hqueue]
    exact Fenced.sound_nil Nat.zero_le
  · intro _ pre stop post hsplit
    exact absurd hsplit (by simp)

theorem InOrder.of_append (horder : InOrder (h ++ notes)) : InOrder h := by
  rw [InOrder, pushes_append] at horder
  exact Fenced.inOrder_of_prefix horder

/-- A push keeps what is followed, if the new envelope is no STOP of an earlier epoch. -/
theorem Pushed.followed {epoch : UInt32} (hpush : Pushed q env q')
    (hle : env.isStop = true → ∀ g ∈ q, g.isStop = true → g.epoch ≤ env.epoch)
    (hfollowed : Followed q post epoch) : Followed q' post epoch := by
  obtain ⟨g, hg, hepoch, hpicked | ⟨i, hi, hcount⟩⟩ := hfollowed
  · exact ⟨g, hg, hepoch, .inl hpicked⟩
  · have hlt : i < q.length := (List.getElem?_eq_some_iff.mp hi).1
    cases hpush with
    | append =>
      refine ⟨g, hg, hepoch, .inr ⟨i, ?_, hcount⟩⟩
      rw [List.getElem?_append_left hlt, hi]
    | @coalesce l old hq hold hstop =>
      subst hq
      by_cases hil : i < l.length
      · refine ⟨g, hg, hepoch, .inr ⟨i, ?_, hcount⟩⟩
        rw [List.getElem?_append_left hil] at hi ⊢
        exact hi
      · have hgle := hle hstop g (mem_of_getElem? hi) hg
        refine ⟨env, hstop, UInt32.le_trans hepoch hgle, .inr ⟨i, ?_, hcount⟩⟩
        rw [length_append, length_singleton] at hlt
        rw [show i = l.length by omega, List.getElem?_concat_length]
    | @compact l r d hq hd hstop =>
      subst hq
      rcases Nat.lt_trichotomy i l.length with hil | hil | hil
      · refine ⟨g, hg, hepoch, .inr ⟨i, ?_, hcount⟩⟩
        rw [List.getElem?_append_left hil] at hi
        rw [append_assoc, List.getElem?_append_left hil, hi]
      · -- The envelope that was dropped is no STOP.
        subst hil
        rw [List.getElem?_append_right (Nat.le_refl _), Nat.sub_self] at hi
        obtain rfl : d = g := Option.some.inj hi
        rw [hg] at hd
        cases hd
      · refine ⟨g, hg, hepoch, .inr ⟨i - 1, ?_, by omega⟩⟩
        rw [List.getElem?_append_right (by omega),
          show i - l.length = i - 1 - l.length + 1 by omega, List.getElem?_cons_succ] at hi
        rw [append_assoc, List.getElem?_append_right (by omega),
          List.getElem?_append_left (by
            rw [length_append, length_cons] at hlt
            omega), hi]

theorem Pushed.newest (hpush : Pushed q env q') : ∃ l, q' = l ++ [env] := by
  cases hpush with
  | append => exact ⟨q, rfl⟩
  | @coalesce l old => exact ⟨l, rfl⟩
  | @compact l r d => exact ⟨l ++ r, rfl⟩

theorem Pushed.sound {picked pushed : List Envelope} {seen : Nat} (hpush : Pushed q env q')
    (hsound : Fenced.Sound Envelope.isStop (fun env => env.epoch.toNat) pushed (picked ++ q) seen)
    (hfresh : env ∉ pushed)
    (horder : Fenced.InOrder Envelope.isStop (fun env => env.epoch.toNat) (pushed ++ [env])) :
    Fenced.Sound Envelope.isStop (fun env => env.epoch.toNat) (pushed ++ [env]) (picked ++ q')
      seen := by
  cases hpush with
  | append =>
    rw [← append_assoc]
    exact hsound.push (r := []) hfresh horder (append_nil _).symm
      fun g hg => absurd hg not_mem_nil
  | @coalesce l old hq hold hstop =>
    subst hq
    rw [← append_assoc]
    exact hsound.push hfresh horder (append_assoc ..).symm fun _ _ _ => hstop
  | @compact l r d hq hd hstop =>
    subst hq
    rw [← append_assoc] at hsound
    rw [← append_assoc, ← append_assoc]
    exact (hsound.drop hd).push (r := []) hfresh horder (append_nil _).symm
      fun g hg => absurd hg not_mem_nil

/-! ## What the sections keep -/

namespace Inv

theorem quiet (hinv : Inv h s) (hqueues : s'.dev.Queues s.dev.queue)
    (hseq : s'.dev.cmdSeq = s.dev.cmdSeq) (hhandler : s'.handler = s.handler)
    (hpicked : s'.picked = s.picked) (hargs : ∀ i arg epoch, s'.caller i = .stopBumped arg epoch ∨
      s'.caller i = .stopActuated arg epoch → arg.length ≤ cmdPayloadBytes)
    (hpushes : pushes notes = []) (hpicks : picks notes = []) : Inv (h ++ notes) s' := by
  have hqueue := hqueues.queue_eq
  have hline : s'.line = s.line := by rw [State.line, hpicked, hqueue, State.line]
  have hpushed : pushes (h ++ notes) = pushes h := by rw [pushes_append, hpushes, append_nil]
  refine ⟨by rw [hqueue]; exact hqueues, hargs, ?_, ?_, ?_⟩
  · rw [hpushed, hseq]
    exact hinv.seq
  · intro horder
    rw [hpushed, hline, hhandler]
    exact hinv.sound horder.of_append
  · intro horder pre stop post hsplit hstop
    rcases Fenced.split_cases hsplit with ⟨m, hm, rfl⟩ | ⟨m, -, hm⟩
    · have hfollowed := hinv.followed horder.of_append pre stop m hm hstop
      rw [hqueue, Followed, picks_append, hpicks, append_nil]
      exact hfollowed
    · rw [hm, pushes_append] at hpushes
      exact absurd hpushes (by simp [pushes])

theorem push (hinv : Inv h s) (hpush : Pushed s.dev.queue env q') (hqueues : s'.dev.Queues q')
    (henv : env.cmdSeq = s.dev.cmdSeq + 1) (hseq : s'.dev.cmdSeq = s.dev.cmdSeq + 1)
    (hhandler : s'.handler = s.handler) (hpicked : s'.picked = s.picked)
    (hargs : ∀ i arg epoch, s'.caller i = .stopBumped arg epoch ∨
      s'.caller i = .stopActuated arg epoch → arg.length ≤ cmdPayloadBytes)
    (cmd : Cmd) (ret : Int) : Inv (h ++ [.pushed env, .returned cmd ret]) s' := by
  have hqueue := hqueues.queue_eq
  have hpushed : pushes (h ++ [.pushed env, .returned cmd ret]) = pushes h ++ [env] :=
    pushes_append h _
  have hfresh : env ∉ pushes h := by
    intro hmem
    have := hinv.seq env hmem
    omega
  refine ⟨by rw [hqueue]; exact hqueues, hargs, ?_, ?_, ?_⟩
  · intro env' hmem
    rw [hpushed] at hmem
    rw [hseq]
    rcases mem_append.mp hmem with hmem | hmem
    · exact Nat.le_succ_of_le (hinv.seq env' hmem)
    · rw [mem_singleton.mp hmem, henv]
  · intro horder
    have hsound := hinv.sound horder.of_append
    rw [InOrder, hpushed] at horder
    rw [hpushed, State.line, hpicked, hqueue, hhandler]
    exact hpush.sound hsound hfresh horder
  · intro horder pre stop post hsplit hstop
    rw [hqueue]
    rcases Fenced.split_cases hsplit with ⟨m, hm, rfl⟩ | ⟨m, -, hm⟩
    · have hfollowed := hinv.followed horder.of_append pre stop m hm hstop
      have hsound := hinv.sound horder.of_append
      rw [InOrder, hpushed] at horder
      have hkept := @Pushed.followed m _ _ _ stop.epoch hpush (fun henvstop g hg hgstop => by
        have hmem : g ∈ pushes h := hsound.mem g (mem_append_right _ hg)
        exact UInt32.le_iff_toNat_le.mpr (horder.le_last henvstop hmem hgstop)) hfollowed
      rw [Followed, picks_append, show picks [.pushed env, .returned cmd ret] = [] from rfl,
        append_nil]
      exact hkept
    · -- The push itself.
      obtain ⟨l, rfl⟩ := hpush.newest
      obtain ⟨rfl, rfl⟩ : env = stop ∧ post = [.returned cmd ret] := by
        cases m with
        | nil => simpa [eq_comm] using hm
        | cons a m =>
          cases m with
          | nil => simp at hm
          | cons b m => simp at hm
      have hroom := hqueues.room
      refine ⟨env, hstop, UInt32.le_refl _, .inr ⟨l.length, List.getElem?_concat_length, ?_⟩⟩
      simpa [picks] using hroom

theorem pickup (hinv : Inv h s) (hnone : s.picked = none) (hline : s.dev.queue = env :: q)
    (hqueues : s'.dev.Queues q) (hseq : s'.dev.cmdSeq = s.dev.cmdSeq)
    (hhandler : s'.handler = s.handler) (hpicked : s'.picked = some env)
    (hcaller : s'.caller = s.caller) : Inv (h ++ [.picked env]) s' := by
  have hqueue := hqueues.queue_eq
  have hpushed : pushes (h ++ [.picked env]) = pushes h := by
    rw [pushes_append]
    exact append_nil _
  refine ⟨by rw [hqueue]; exact hqueues, by rw [hcaller]; exact hinv.args, ?_, ?_, ?_⟩
  · rw [hpushed, hseq]
    exact hinv.seq
  · intro horder
    have hsound := hinv.sound horder.of_append
    rw [State.line, hnone, hline] at hsound
    rw [hpushed, State.line, hpicked, hqueue, hhandler]
    exact hsound
  · intro horder pre stop post hsplit hstop
    rw [hqueue]
    rcases Fenced.split_cases hsplit with ⟨m, hm, rfl⟩ | ⟨m, -, hm⟩
    · obtain ⟨g, hg, hepoch, hmem | ⟨i, hi, hcount⟩⟩ :=
        hinv.followed horder.of_append pre stop m hm hstop
      · exact ⟨g, hg, hepoch, .inl (by rw [picks_append]; exact mem_append_left _ hmem)⟩
      · rw [hline] at hi
        cases i with
        | zero =>
          obtain rfl : env = g := Option.some.inj hi
          refine ⟨env, hg, hepoch, .inl ?_⟩
          rw [picks_append]
          exact mem_append_right _ mem_cons_self
        | succ i =>
          refine ⟨g, hg, hepoch, .inr ⟨i, hi, ?_⟩⟩
          rw [picks_append, length_append, show (picks [Note.picked env]).length = 1 from rfl]
          omega
    · have hnil := congrArg pushes hm
      simp [pushes] at hnil

theorem pushes_called (calls : List Call) : pushes (calls.map (Note.called env)) = [] := by
  induction calls with
  | nil => rfl
  | cons call calls ih => exact ih

theorem picks_called (calls : List Call) : picks (calls.map (Note.called env)) = [] := by
  induction calls with
  | nil => rfl
  | cons call calls ih => exact ih

theorem dispatch (hinv : Inv h s) (hsome : s.picked = some env) (initRc resetRc : Int) :
    Inv (h ++ (s.step (.dispatch initRc resetRc)).2) (s.step (.dispatch initRc resetRc)).1 := by
  have hstep : s.step (.dispatch initRc resetRc) =
      ({ s with
          handler := (s.handler.dispatchEnvelope env initRc resetRc).1
          picked := none },
        (s.handler.dispatchEnvelope env initRc resetRc).2.map (.called env)) := by
    simp only [State.step, hsome]
  have hpushed : pushes (h ++ (s.step (.dispatch initRc resetRc)).2) = pushes h := by
    rw [hstep, pushes_append, pushes_called, append_nil]
  refine ⟨by rw [hstep]; exact hinv.queues, by rw [hstep]; exact hinv.args, ?_, ?_, ?_⟩
  · rw [hpushed, hstep]
    exact hinv.seq
  · intro horder
    have hsound := hinv.sound horder.of_append
    rw [State.line, hsome] at hsound
    rw [hpushed, hstep]
    cases hstop : env.isStop with
    | true =>
      rw [env.seen_of_stop hstop]
      exact (hsound.serve_fence hstop).2
    | false =>
      rw [env.seen_of_not_stop hstop]
      exact (hsound.serve hstop).2
  · intro horder pre stop post hsplit hstop
    rcases Fenced.split_cases hsplit with ⟨m, hm, rfl⟩ | ⟨m, -, hm⟩
    · have hfollowed := hinv.followed horder.of_append pre stop m hm hstop
      rw [hstep, Followed, picks_append, picks_called, append_nil]
      exact hfollowed
    · have hnil := congrArg pushes hm
      rw [hstep, pushes_called, pushes_append] at hnil
      simp [pushes] at hnil

theorem pushed (hinv : Inv h s) (i : Nat) (lock : Int) (cmd : Cmd) (epoch : UInt32)
    (payload : List UInt8) :
    Inv (h ++ (s.push i lock cmd epoch payload).2) (s.push i lock cmd epoch payload).1 := by
  have hargs : ∀ j arg epoch', (s.push i lock cmd epoch payload).1.caller j =
      .stopBumped arg epoch' ∨ (s.push i lock cmd epoch payload).1.caller j =
      .stopActuated arg epoch' → arg.length ≤ cmdPayloadBytes := by
    intro j arg epoch' hc
    by_cases hji : j = i
    · subst hji
      rcases hc with hc | hc <;> simp [State.push, State.setCaller] at hc
    · simp only [State.push, State.setCaller, Function.update_of_ne hji] at hc
      exact hinv.args j arg epoch' hc
  by_cases hret : (s.dev.pushEnvelope lock cmd epoch payload).2 = 0
  · obtain ⟨env, q', -, -, hseq, hpush, hqueues, hseq'⟩ := hinv.queues.push_ok hret
    obtain ⟨l, rfl⟩ := hpush.newest
    have hnotes : (s.push i lock cmd epoch payload).2 = [.pushed env, .returned cmd 0] := by
      simp only [State.push, hret, if_true, hqueues.newest]
      rfl
    rw [hnotes]
    refine hinv.push hpush ?_ hseq ?_ ?_ ?_ hargs cmd 0
    exacts [hqueues, hseq', rfl, rfl]
  · obtain ⟨hqueues, hseq⟩ := hinv.queues.push_failed hret
    have hnotes : (s.push i lock cmd epoch payload).2 =
        [.returned cmd (s.dev.pushEnvelope lock cmd epoch payload).2] := by
      simp only [State.push, if_neg hret, nil_append]
    rw [hnotes]
    refine hinv.quiet ?_ ?_ ?_ ?_ hargs rfl rfl
    exacts [hqueues, hseq, rfl, rfl]

theorem moved (hinv : Inv h s) (i : Nat) (c : Caller) {dev : Dev} (hbuf : dev.cmdBuf = s.dev.cmdBuf)
    (hhead : dev.cmdHead = s.dev.cmdHead) (htail : dev.cmdTail = s.dev.cmdTail)
    (hseq : dev.cmdSeq = s.dev.cmdSeq)
    (hc : ∀ arg epoch, c = .stopBumped arg epoch ∨ c = .stopActuated arg epoch →
      arg.length ≤ cmdPayloadBytes)
    (hpushes : pushes notes = []) (hpicks : picks notes = []) :
    Inv (h ++ notes) ({ s with dev := dev }.setCaller i c) := by
  have hqueues : dev.Queues s.dev.queue := by
    have hold := hinv.queues
    refine ⟨by rw [hbuf]; exact hold.depth, ?_, hold.room⟩
    rw [hbuf, hhead, htail]
    exact hold.holds
  refine hinv.quiet hqueues hseq rfl rfl ?_ hpushes hpicks
  intro j arg epoch hj
  by_cases hji : j = i
  · subst hji
    simp only [State.setCaller, Function.update_self] at hj
    exact hc arg epoch hj
  · simp only [State.setCaller, Function.update_of_ne hji] at hj
    exact hinv.args j arg epoch hj

theorem stays (hinv : Inv h s) (hpushes : pushes notes = []) (hpicks : picks notes = []) :
    Inv (h ++ notes) s :=
  hinv.quiet hinv.queues rfl rfl rfl hinv.args hpushes hpicks

end Inv

theorem length_readArg (memory : Nat → UInt8) (len : Nat) : (readArg memory len).length = len := by
  rw [readArg, length_map, length_range]

theorem pushes_emergencyActuate (dev : Dev) (onCompletion : UInt8) :
    pushes (emergencyActuate dev onCompletion) = [] ∧
      picks (emergencyActuate dev onCompletion) = [] := by
  simp only [emergencyActuate]
  split <;> split <;> exact ⟨rfl, rfl⟩

/-- **Every section keeps the invariant.** -/
theorem inv_step (hinv : Inv h s) (e : Event) : Inv (h ++ (s.step e).2) (s.step e).1 := by
  cases e with
  | ioctl i cmd arg =>
    simp only [State.step]
    split
    · split
      · split
        · exact hinv.stays rfl rfl
        · next dev c hstop =>
          simp only [handleStop] at hstop
          split at hstop
          · cases hstop
          · split at hstop
            · cases hstop
            · cases hstop
            · next memory =>
              cases hstop
              refine hinv.moved i _ rfl rfl rfl rfl ?_ rfl rfl
              rintro arg epoch (hc | hc) <;> cases hc
              rw [length_readArg]
              decide
      · split
        · exact hinv.stays rfl rfl
        · next c hdrive =>
          simp only [handleUserDrive] at hdrive
          split at hdrive
          · cases hdrive
          · split at hdrive <;> cases hdrive
            refine hinv.moved i _ rfl rfl rfl rfl ?_ rfl rfl
            rintro arg epoch (hc | hc) <;> cases hc
    · exact hinv.stays rfl rfl
  | resume i lock memory =>
    simp only [State.step]
    split
    · exact hinv.stays rfl rfl
    · exact hinv.pushed i lock _ _ _
    · next arg epoch hcaller =>
      obtain ⟨hpushes, hpicks⟩ := pushes_emergencyActuate
        { s.dev with defaultOnCompletion := uint8At arg 0 } (uint8At arg 0)
      refine hinv.moved i _ rfl rfl rfl rfl ?_ hpushes hpicks
      rintro arg' epoch' (hc | hc) <;> cases hc
      exact hinv.args i arg epoch (.inl hcaller)
    · exact hinv.pushed i lock _ _ _
  | pickup outOk lock =>
    simp only [State.step]
    split
    · exact hinv.stays rfl rfl
    · next hnone =>
      split
      · exact hinv.stays rfl rfl
      · rcases hinv.queues.pop outOk lock with ⟨ret, hret⟩ | ⟨env, q, hline, hret, hqueues, hseq⟩
        · split
          · exact hinv.stays rfl rfl
          · next hpop =>
            rw [hpop] at hret
            cases hret
        · split
          · next hpop =>
            rw [hpop] at hret
            cases hret
          · next hpop =>
            rw [hpop] at hret hqueues hseq
            cases hret
            exact hinv.pickup hnone hline hqueues hseq rfl rfl rfl
  | dispatch initRc resetRc =>
    cases hpicked : s.picked with
    | none =>
      have hstep : s.step (.dispatch initRc resetRc) = (s, []) := by
        simp only [State.step, hpicked]
      rw [hstep]
      exact hinv.stays rfl rfl
    | some env => exact hinv.dispatch hpicked initRc resetRc

/-! ## Runs -/

/-- **The epoch seen never decreases.** -/
theorem seen_step (hinv : Inv h s) (horder : InOrder h) (e : Event) :
    s.handler.outputEpochSeen ≤ (s.step e).1.handler.outputEpochSeen := by
  cases e with
  | ioctl i cmd arg =>
    simp only [State.step]
    repeat' split
    all_goals exact UInt32.le_refl _
  | resume i lock memory =>
    simp only [State.step]
    split <;> exact UInt32.le_refl _
  | pickup outOk lock =>
    simp only [State.step]
    repeat' split
    all_goals exact UInt32.le_refl _
  | dispatch initRc resetRc =>
    simp only [State.step]
    split
    · exact UInt32.le_refl _
    · next env hsome =>
      have hsound := hinv.sound horder
      rw [State.line, hsome] at hsound
      show _ ≤ (s.handler.dispatchEnvelope env initRc resetRc).1.outputEpochSeen
      cases hstop : env.isStop with
      | true =>
        rw [env.seen_of_stop hstop]
        exact UInt32.le_iff_toNat_le.mpr (hsound.serve_fence hstop).1
      | false =>
        rw [env.seen_of_not_stop hstop]
        exact UInt32.le_refl _

/-- **A STOP is stored**, whatever the order. -/
theorem storesStop (hinv : Inv h s) (e : Event) : s.StoresStop e := by
  rintro i lock memory arg epoch rfl hcaller hlock
  have hlen := hinv.args i arg epoch (.inr hcaller)
  have hret := s.dev.push_stop epoch hlen hlock
  obtain ⟨env, q', hkind, hepoch, -, hpush, hqueues, -⟩ := hinv.queues.push_ok hret
  obtain ⟨l, rfl⟩ := hpush.newest
  refine ⟨env, beq_iff_eq.mpr hkind, hepoch, ?_⟩
  simp only [State.step, hcaller, State.push, hret, if_true, hqueues.newest]
  rfl

theorem picked_of_called {e : Event} {call : Call} (hcalled : Note.called env call ∈ (s.step e).2) :
    s.picked = some env ∧ ∃ initRc resetRc, e = .dispatch initRc resetRc ∧
      (s.handler.dispatchEnvelope env initRc resetRc).2 ≠ [] := by
  cases e with
  | ioctl i cmd arg =>
    simp only [State.step] at hcalled
    repeat' split at hcalled
    all_goals simp at hcalled
  | resume i lock memory =>
    simp only [State.step] at hcalled
    split at hcalled
    · simp at hcalled
    · simp only [State.push] at hcalled
      split at hcalled <;> simp at hcalled
    · simp only [emergencyActuate] at hcalled
      split at hcalled <;> simp at hcalled
    · simp only [State.push] at hcalled
      split at hcalled <;> simp at hcalled
  | pickup outOk lock =>
    simp only [State.step] at hcalled
    repeat' split at hcalled
    all_goals simp at hcalled
  | dispatch initRc resetRc =>
    simp only [State.step] at hcalled
    split at hcalled
    · simp at hcalled
    · next env' hsome =>
      obtain ⟨call', hmem, heq⟩ := mem_map.mp hcalled
      cases heq
      exact ⟨hsome, initRc, resetRc, rfl, ne_nil_of_mem hmem⟩

/-- **A drive command that is executed is not superseded.** -/
theorem executed_step (hinv : Inv h s) (horder : InOrder h) {e : Event} {call : Call}
    (hcalled : Note.called env call ∈ (s.step e).2) (hdrives : env.cmdKind.drives = true)
    (hstop : stop.isStop = true) (hpair : [stop, env].Sublist (pushes h)) :
    stop.epoch ≤ env.epoch := by
  obtain ⟨hsome, initRc, resetRc, -, hcalls⟩ := picked_of_called hcalled
  have hnot : env.isStop = false := by
    rw [Envelope.isStop, beq_eq_false_iff_ne]
    intro hkind
    rw [hkind] at hdrives
    cases hdrives
  have hsound := hinv.sound horder
  rw [State.line, hsome] at hsound
  have hseen := (hsound.serve hnot).1 stop hstop hpair
  exact UInt32.le_trans (UInt32.le_iff_toNat_le.mpr hseen) (env.epoch_of_called hdrives hcalls)

section Runs

variable {motorLPortIdx motorRPortIdx defaultOnCompletion : UInt8}

theorem inv_run (events : List Event) :
    Inv (machine.history (start motorLPortIdx motorRPortIdx defaultOnCompletion) events)
      (machine.run (start motorLPortIdx motorRPortIdx defaultOnCompletion) events) := by
  have hstep : ∀ h s e, Inv h s → Inv (h ++ (machine.step s e).2) (machine.step s e).1 :=
    fun _ _ e hinv => inv_step hinv e
  exact Machine.history_invariant hstep
    (inv_start motorLPortIdx motorRPortIdx defaultOnCompletion) events

theorem before_called {events : List Event} {call : Call}
    (hsub : [Note.pushed stop, .pushed env, .called env call].Sublist (machine.history s events)) :
    ∃ before e after, events = before ++ e :: after ∧
      Note.called env call ∈ ((machine.run s before).step e).2 ∧
      [stop, env].Sublist (pushes (machine.history s before)) := by
  obtain ⟨r₁, r₂, hsplit, hpair, hcalled⟩ :=
    (@append_sublist_iff _ _ [Note.pushed stop, .pushed env] _).mp hsub
  obtain ⟨u, v, rfl⟩ := append_of_mem (hcalled.subset mem_cons_self)
  rw [← append_assoc] at hsplit
  obtain ⟨before, e, after, l, r, hevents, hnotes, hpre, -⟩ :=
    Machine.exists_step_of_history hsplit
  have hmem : Note.called env call ∈ ((machine.run s before).step e).2 := by
    have hnotes : ((machine.run s before).step e).2 = l ++ .called env call :: r := hnotes
    rw [hnotes]
    exact mem_append_right _ mem_cons_self
  refine ⟨before, e, after, hevents, hmem, ?_⟩
  -- The step that called pushed nothing.
  have hnone : pushes l = [] := by
    obtain ⟨hsome, initRc, resetRc, rfl, -⟩ := picked_of_called hmem
    have hcalls := congrArg pushes hnotes
    have hstep : pushes ((machine.run s before).step (.dispatch initRc resetRc)).2 = [] := by
      simp only [State.step, hsome]
      exact Inv.pushes_called _
    rw [pushes_append] at hcalls
    exact (append_eq_nil_iff.mp (hcalls.symm.trans hstep)).1
  have hpushes : (pushes [.pushed stop, .pushed env]).Sublist (pushes (r₁ ++ u)) :=
    (hpair.trans (sublist_append_left r₁ u)).filterMap _
  rw [hpre, pushes_append, hnone, append_nil] at hpushes
  exact hpushes

/-- **STOP supersedes** in every run in which STOPs are pushed in the order of their epochs. -/
theorem stop_supersedes_of_inOrder {events : List Event} (horder : InOrder
      (machine.history (start motorLPortIdx motorRPortIdx defaultOnCompletion) events)) :
    Supersedes (start motorLPortIdx motorRPortIdx defaultOnCompletion) events := by
  have hbefore : ∀ before e after, events = before ++ e :: after →
      InOrder (machine.history (start motorLPortIdx motorRPortIdx defaultOnCompletion) before) := by
    rintro before e after rfl
    rw [machine.history_append] at horder
    exact horder.of_append
  refine ⟨?_, ?_, ?_, ?_⟩
  · apply Machine.throughout_of_steps
    intro before e after hevents
    exact seen_step (inv_run before) (hbefore before e after hevents) e
  · intro stop env call hstop hdrives hsub
    obtain ⟨before, e, after, hevents, hcalled, hpair⟩ := before_called hsub
    exact executed_step (inv_run before)
      (hbefore before e after hevents) hcalled hdrives hstop hpair
  · apply Machine.throughout_of_steps
    intro before e after _
    exact storesStop (inv_run before) e
  · exact (inv_run events).followed horder

end Runs

/-! ## One STOP overtakes another -/

def zeroes : Arg := .at fun _ => 0

/-- Wheels of 56 mm, 112 mm apart. -/
def geometry : Arg := .at fun i => [0xc0, 0xda, 0, 0, 0x80, 0xb5, 1].getD i 0

/-- Task 1 stops the base while task 0 is between the bump and the push of its own STOP, and the
command of task 2 was read in between. Its epoch is the one of the late STOP, which takes the place
of the other in the ring, so the daemon drives. -/
def overtaken : List Event :=
  [.ioctl 3 .config geometry, .resume 3 0 fun _ => 0, .pickup true 0, .dispatch 0 0,
    .ioctl 0 .stop zeroes, .ioctl 2 .driveStraight zeroes, .ioctl 1 .stop zeroes,
    .resume 1 0 fun _ => 0, .resume 1 0 fun _ => 0, .resume 0 0 fun _ => 0,
    .resume 0 0 fun _ => 0, .resume 2 0 fun _ => 0,
    .pickup true 0, .dispatch 0 0, .pickup true 0, .dispatch 0 0]

/-- The STOP that was overtaken and the drive command behind it. -/
def lateStop : Envelope := ⟨.stop, 2, 2, List.replicate 24 0⟩

def driveBehind : Envelope := ⟨.driveStraight, 4, 1, List.replicate 24 0⟩

theorem overtaken_drives :
    [Note.pushed lateStop, .pushed driveBehind, .called driveBehind (.driveStraight 0 0 0)].Sublist
      (machine.history (start 0 1 0) overtaken) := by
  decide +kernel

theorem not_supersedes_overtaken : ¬Supersedes (start 0 1 0) overtaken := by
  intro h
  have hle := h.executed lateStop driveBehind (.driveStraight 0 0 0) rfl rfl overtaken_drives
  exact absurd hle (by decide)

/-- A drive command and a STOP that overtakes nobody. -/
theorem stop_supersedes_alone : Supersedes (start 0 1 0)
    [.ioctl 0 .driveStraight zeroes, .ioctl 1 .stop zeroes, .resume 1 0 fun _ => 0,
      .resume 1 0 fun _ => 0, .resume 0 0 fun _ => 0, .pickup true 0, .dispatch 0 0, .pickup true 0,
      .dispatch 0 0] := by
  apply stop_supersedes_of_inOrder
  rw [InOrder, Fenced.InOrder]
  decide +kernel

end Brickwright.Drivebase.Chardev
