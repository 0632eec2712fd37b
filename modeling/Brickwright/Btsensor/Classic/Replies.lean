import Brickwright.Btsensor.Classic.Sound

/-!
# Where a reply is owed

From a request with an identifier to its reply, or to the disconnect that takes its run away, the
obligation is in one place: with the thread of the host, in the table, or with the thread of the
scheduler. A step moves it or settles it. The weight `f` of a line and its identifier is arbitrary,
so one balance counts the replies to a line, and to a line with an identifier.
-/

namespace Brickwright.Btsensor.Classic

open Backend Machine
open List

variable {σ : Type*} {env : IoCall → σ → IoResult × σ} {s : System σ} (f : Nat → List UInt8 → Nat)

/-! ## What is owed -/

def Asked.owed (asked : Asked) : Nat := asked.id.elim 0 (f asked.line)

def owedAt (run : Option Run) : Nat := run.elim 0 fun run => run.asked.owed f

def Table.owed (pending : Table) : Nat :=
  ((List.finRange 6).map fun port => owedAt f (pending port)).sum

/-- By runs that were taken from the table. -/
def owedBy (runs : List (Port × Run)) : Nat := (runs.map fun r => r.2.asked.owed f).sum

def Host.owed : Host → Nat
  | .idle | .sounding _ | .disconnecting _ | .releasing _ => 0
  | .snapshot asked | .checking asked _ _ | .operating asked _ _ | .starting asked _ _ _ _
  | .canceling asked _ | .replying asked _ => asked.owed f
  | .arming _ run _ | .ending _ run _ _ => run.asked.owed f
  | .stopping asked canceled | .rearming asked canceled => asked.owed f + canceled.asked.owed f
  | .resolving asked canceled failed =>
    asked.owed f + canceled.asked.owed f + owedBy f failed.failed
  | .aborting asked failed => asked.owed f + owedBy f failed.failed

def Timer.owed : Timer → Nat
  | .replying _ completed _ => completed.asked.owed f
  | .aborting failed => owedBy f failed.failed
  | _ => 0

def System.owed (s : System σ) : Nat := s.host.owed f + s.timer.owed f + s.pending.owed f

/-- What a note incurs, and what it settles. -/
def Note.incurs : Note → Nat
  | .request line id => f line id
  | _ => 0

def Note.settles : Note → Nat
  | .reply line id _ => f line id
  | .discarded _ asked => asked.owed f
  | _ => 0

variable {f}

/-! ## The table -/

theorem sum_map_update {α : Type*} [DecidableEq α] (g : α → Option Run) (a : α) (run : Option Run)
    {ports : List α} (hnodup : ports.Nodup) (hmem : a ∈ ports) :
    (ports.map fun p => owedAt f (Function.update g a run p)).sum + owedAt f (g a) =
      (ports.map fun p => owedAt f (g p)).sum + owedAt f run := by
  induction ports with
  | nil => exact absurd hmem not_mem_nil
  | cons p ports ih =>
    obtain ⟨hp, hnodup⟩ := nodup_cons.mp hnodup
    rw [map_cons, sum_cons, map_cons, sum_cons]
    by_cases heq : p = a
    · subst heq
      have hrest : (ports.map fun q => owedAt f (Function.update g p run q)) =
          ports.map fun q => owedAt f (g q) := by
        refine map_congr_left fun q hq => ?_
        rw [Function.update_of_ne]
        rintro rfl
        exact hp hq
      rw [hrest, Function.update_self]
      omega
    · rw [Function.update_of_ne heq]
      have := ih hnodup ((mem_cons.mp hmem).resolve_left (Ne.symm heq))
      omega

theorem Table.owed_update (pending : Table) (port : Port) (run : Option Run) :
    Table.owed f (Function.update pending port run) + owedAt f (pending port) =
      pending.owed f + owedAt f run :=
  sum_map_update pending port run (nodup_finRange 6) (mem_finRange port)

theorem Table.owedBy_runs (pending : Table) : owedBy f pending.runs = pending.owed f := by
  rw [owedBy, Table.runs, Table.owed]
  induction List.finRange 6 with
  | nil => rfl
  | cons port ports ih =>
    rw [map_cons, sum_cons, ← ih, filterMap_cons]
    cases pending port with
    | none => exact (Nat.zero_add _).symm
    | some run => rfl

/-! ## Notes -/

@[simp] theorem tally_incurs_reply (asked : Asked) (result : Int) :
    tally (Note.incurs f) (asked.reply result) = 0 := by
  unfold Asked.reply
  split <;> rfl

@[simp] theorem tally_settles_reply (asked : Asked) (result : Int) :
    tally (Note.settles f) (asked.reply result) = asked.owed f := by
  unfold Asked.reply Asked.owed
  split
  · next h => rw [h]; rfl
  · next h => rw [h]; rfl

@[simp] theorem tally_incurs_note (asked : Asked) :
    tally (Note.incurs f) asked.note = asked.owed f := by
  unfold Asked.note Asked.owed
  split
  · next h => rw [h]; rfl
  · next h => rw [h]; rfl

@[simp] theorem tally_settles_note (asked : Asked) : tally (Note.settles f) asked.note = 0 := by
  unfold Asked.note
  split <;> rfl

@[simp] theorem tally_incurs_overAll (pending : Table) :
    tally (Note.incurs f) (System.overAll pending) = 0 := by
  rw [tally_eq_zero, System.overAll]
  rintro n hn
  obtain ⟨r, -, rfl⟩ := mem_map.mp hn
  rfl

@[simp] theorem tally_settles_overAll (pending : Table) :
    tally (Note.settles f) (System.overAll pending) = 0 := by
  rw [tally_eq_zero, System.overAll]
  rintro n hn
  obtain ⟨r, -, rfl⟩ := mem_map.mp hn
  rfl

@[simp] theorem tally_discards (runs : List (Port × Run)) :
    tally (Note.settles f) (runs.map fun r => .discarded r.1 r.2.asked) = owedBy f runs ∧
      tally (Note.incurs f) (runs.map fun r => .discarded r.1 r.2.asked) = 0 := by
  induction runs with
  | nil => exact ⟨rfl, rfl⟩
  | cons r runs ih =>
    rw [map_cons, tally_cons, tally_cons, ih.1, ih.2]
    exact ⟨rfl, rfl⟩

/-- Notes that have to do with no reply. -/
def Silent (notes : List Note) : Prop := ∀ n ∈ notes, ∀ f, n.incurs f = 0 ∧ n.settles f = 0

theorem Silent.tally {notes : List Note} (h : Silent notes) :
    tally (Note.incurs f) notes = 0 ∧ tally (Note.settles f) notes = 0 :=
  ⟨tally_eq_zero.mpr fun n hn => (h n hn f).1, tally_eq_zero.mpr fun n hn => (h n hn f).2⟩

variable (env s) in
theorem silent_endOwned (port : Port) (run : Run) (endState : UInt8) :
    Silent (s.endOwned env port run endState).2.1 := by
  intro n hn f
  cases mem_singleton.mp hn
  exact ⟨rfl, rfl⟩

theorem silent_operate (a : Answers) (operation : Operation) :
    Silent (s.operate env a operation).2.1 := by
  unfold System.operate
  intro n hn f
  split at hn
  · exact absurd hn not_mem_nil
  · cases mem_singleton.mp hn
    exact ⟨rfl, rfl⟩

theorem silent_currentState (a : Answers) : Silent (System.currentState a).1 := by
  unfold System.currentState
  intro n hn f
  split at hn
  · exact absurd hn not_mem_nil
  · split at hn
    · exact absurd hn not_mem_nil
    · split at hn
      · cases mem_singleton.mp hn
        exact ⟨rfl, rfl⟩
      · rcases mem_cons.mp hn with rfl | hn
        · exact ⟨rfl, rfl⟩
        · cases mem_singleton.mp hn
          exact ⟨rfl, rfl⟩

/-! ## One step -/

/-- What the step settles was owed or incurred. -/
def Balances (f : Nat → List UInt8 → Nat) (s : System σ) (r : System σ × List Note) : Prop :=
  r.1.owed f + tally (Note.settles f) r.2 = s.owed f + tally (Note.incurs f) r.2

theorem balances_of_silent {s' : System σ} {notes : List Note} (hnotes : Silent notes)
    (hhost : s'.host.owed f = s.host.owed f) (htimer : s'.timer.owed f = s.timer.owed f)
    (hpending : s'.pending.owed f = s.pending.owed f) : Balances f s (s', notes) := by
  rw [Balances, hnotes.tally.1, hnotes.tally.2, System.owed, System.owed, hhost, htimer, hpending]

theorem balances_self : Balances f s (s, []) := rfl

theorem balances_tag (a : Answers) (asked : Asked) (port : Port) (operation : Operation)
    (goal : Goal) (endState : UInt8) (hhost : s.host.owed f = asked.owed f) :
    Balances f s (s.tag env a asked port operation goal endState) := by
  unfold System.tag
  dsimp only
  split
  · refine balances_of_silent (fun n hn f => ?_) ?_ rfl rfl
    · cases mem_singleton.mp hn
      exact ⟨rfl, rfl⟩
    · rw [hhost]
      cases goal <;> rfl
  · refine balances_of_silent (fun n hn f => ?_) hhost.symm rfl rfl
    cases mem_singleton.mp hn
    exact ⟨rfl, rfl⟩

theorem silent_nil : Silent [] := fun _ hn => absurd hn not_mem_nil

theorem balances_start (a : Answers) (asked : Asked) (port : Port) (operation : Operation)
    (goal : Goal) (endState : UInt8) (hhost : s.host.owed f = asked.owed f) :
    Balances f s (s.start env a asked port operation goal endState) := by
  unfold System.start
  split
  · exact balances_of_silent silent_nil hhost.symm rfl rfl
  · split
    · exact balances_of_silent silent_nil hhost.symm rfl rfl
    · cases goal with
      | timed timeMs => exact balances_tag a asked port operation _ endState hhost
      | degrees angle =>
        dsimp only
        split
        · exact balances_of_silent silent_nil hhost.symm rfl rfl
        · exact balances_tag (s := s.encode a) a asked port _ _ endState hhost

theorem asked_startAt (run : Run) (goal : Goal) (generation : UInt32) (now : UInt64) :
    (run.startAt goal generation now).asked = run.asked := by
  cases goal <;> rfl

theorem balances_arm (a : Answers) {port : Port} (hport : s.pending port = none) (run : Run)
    (goal : Goal) (hhost : s.host.owed f = run.asked.owed f) :
    Balances f s (s.arm a port run goal) := by
  unfold System.arm
  dsimp only
  split
  · refine balances_of_silent silent_nil ?_ rfl rfl
    show Asked.owed f (run.startAt goal _ _).asked = _
    rw [asked_startAt, hhost]
  · have hupdate := Table.owed_update (f := f) s.pending port
      (some (run.startAt goal (s.generation + 1) a.now))
    have howed : owedAt f (some (run.startAt goal (s.generation + 1) a.now)) = run.asked.owed f :=
      congrArg (Asked.owed f) (asked_startAt ..)
    rw [hport, howed] at hupdate
    change _ + 0 = _ at hupdate
    rw [Balances, System.owed, System.owed, hhost]
    dsimp only
    show 0 + s.timer.owed f + _ + 0 = run.asked.owed f + s.timer.owed f + s.pending.owed f + 0
    omega

theorem balances_cancel (asked : Asked) (port : Port) (hhost : s.host.owed f = asked.owed f) :
    Balances f s (s.cancel asked port) := by
  unfold System.cancel
  split
  · exact balances_of_silent silent_nil hhost.symm rfl rfl
  · next run hrun =>
    have hupdate := Table.owed_update (f := f) s.pending port none
    rw [hrun] at hupdate
    change _ + run.asked.owed f = _ + 0 at hupdate
    show asked.owed f + run.asked.owed f + s.timer.owed f + _ + 0 = _ + _ + _ + 0
    dsimp only
    omega

theorem balances_rearm (a : Answers) (asked : Asked) (canceled : Run)
    (hhost : s.host.owed f = asked.owed f + canceled.asked.owed f) :
    Balances f s (s.rearm a asked canceled) := by
  unfold System.rearm
  dsimp only
  split
  · rw [Balances, tally_settles_overAll, tally_incurs_overAll]
    show asked.owed f + canceled.asked.owed f + owedBy f s.pending.runs + s.timer.owed f + 0 + 0 = _
    rw [Table.owedBy_runs, System.owed, hhost]
    omega
  · exact balances_of_silent silent_nil hhost.symm rfl rfl

theorem balances_disconnect (link : Nat) (connected : Bool) (hhost : s.host.owed f = 0) :
    Balances f s (s.disconnect link connected) := by
  unfold System.disconnect
  split
  · exact balances_self
  · rw [Balances, (tally_discards s.pending.runs).1, (tally_discards s.pending.runs).2]
    show 0 + s.timer.owed f + 0 + owedBy f s.pending.runs = _
    rw [Table.owedBy_runs, System.owed, hhost]
    omega

theorem balances_receive (link : Nat) (line : List UInt8) (hhost : s.host.owed f = 0) :
    Balances f s (s.receive link line) := by
  unfold System.receive
  split
  · exact balances_self
  · split
    · exact balances_of_silent silent_nil hhost.symm rfl rfl
    · split
      · exact balances_self
      · next request _ =>
        have hbegin (asked : Asked) (todo : Todo) :
            (System.begin asked todo).owed f = asked.owed f := by
          cases todo <;> rfl
        rw [Balances, tally_incurs_note, tally_settles_note]
        show (System.begin _ _).owed f + s.timer.owed f + s.pending.owed f + 0 = _
        rw [hbegin, System.owed, hhost]
        omega

theorem abort_owed {failed failed' : Abort} {notes : List Note} {s' : System σ}
    (h : s.abort env failed = some (notes, failed', s')) :
    owedBy f failed'.failed + tally (Note.settles f) notes = owedBy f failed.failed ∧
      tally (Note.incurs f) notes = 0 := by
  unfold System.abort at h
  split at h
  · cases h
  · next port run rest hfailed _ =>
    cases h
    have hsilent := (silent_endOwned env s port run 1).tally (f := f)
    exact ⟨congrArg (owedBy f failed.failed + ·) hsilent.2, hsilent.1⟩
  · next port run rest stopRc hfailed _ =>
    cases h
    rw [tally_settles_reply, tally_incurs_reply, hfailed]
    exact ⟨Nat.add_comm _ _, rfl⟩

theorem abort_none {failed : Abort} (h : s.abort env failed = none) : failed.failed = [] := by
  unfold System.abort at h
  split at h
  · next hfailed => exact hfailed
  · cases h
  · cases h

/-- What the host settles it has owed, and what it incurs it owes from then on. -/
theorem balances_hostStep (h : s.Sound) (a : Answers) : Balances f s (s.hostStep env a) := by
  unfold System.hostStep
  split
  · exact balances_self
  · next operation heq =>
    have hsame : (s.operate env a operation).2.2.timer = s.timer := System.operate_timer ..
    exact balances_of_silent (silent_operate a operation) (by rw [heq]; rfl)
      (congrArg (Timer.owed f) hsame)
      (congrArg (Table.owed f) (System.operate_pending ..))
  · next heq => exact balances_of_silent (silent_currentState a) (by rw [heq]; rfl) rfl rfl
  · next heq =>
    split
    · exact balances_of_silent silent_nil (by rw [heq]; rfl) rfl rfl
    · exact balances_of_silent silent_nil (by rw [heq]; rfl) rfl rfl
  · next asked operation cancel heq =>
    have hsame : (s.operate env a operation).2.2.timer = s.timer := System.operate_timer ..
    dsimp only
    split
    · refine balances_of_silent (silent_operate a operation) ?_ (congrArg (Timer.owed f) hsame)
        (congrArg (Table.owed f) (System.operate_pending ..))
      rw [heq]
      split <;> rfl
    · exact balances_of_silent (silent_operate a operation) (by rw [heq]; rfl)
        (congrArg (Timer.owed f) hsame)
        (congrArg (Table.owed f) (System.operate_pending ..))
  · next heq => exact balances_start a _ _ _ _ _ (by rw [heq]; rfl)
  · next port run goal heq =>
    rw [System.Sound, heq] at h
    exact balances_arm a (h.free port rfl) run goal (by rw [heq]; rfl)
  · next heq => exact balances_of_silent (silent_endOwned _ _ _ _ _) (by rw [heq]; rfl) rfl rfl
  · next heq => exact balances_cancel _ _ (by rw [heq]; rfl)
  · next heq =>
    split
    · exact balances_of_silent silent_nil (by rw [heq]; rfl) rfl rfl
    · exact balances_self
  · next heq => exact balances_rearm a _ _ (by rw [heq]; rfl)
  · next asked canceled failed heq =>
    rw [Balances, tally_settles_reply, tally_incurs_reply, System.owed, System.owed, heq]
    show asked.owed f + owedBy f failed.failed + _ + _ + _ =
      asked.owed f + canceled.asked.owed f + owedBy f failed.failed + _ + _ + 0
    dsimp only
    omega
  · next asked failed heq =>
    split
    · next hnone =>
      refine balances_of_silent silent_nil ?_ rfl rfl
      rw [heq, Host.owed, Host.owed, abort_none hnone]
      rfl
    · next notes failed' s' habort =>
      obtain ⟨howed, hincurs⟩ := abort_owed (f := f) habort
      obtain ⟨hpending, -, -, htimer, -⟩ := System.abort_table habort
      rw [Balances, hincurs]
      show asked.owed f + owedBy f failed'.failed + s'.timer.owed f + s'.pending.owed f +
        tally (Note.settles f) notes = _
      rw [System.owed, heq, hpending, htimer, Host.owed]
      omega
  · next asked rc heq =>
    rw [Balances, tally_settles_reply, tally_incurs_reply, System.owed, System.owed, heq]
    show 0 + _ + _ + _ = asked.owed f + _ + _ + 0
    dsimp only
    omega
  · next heq =>
    split
    · exact balances_of_silent silent_nil (by rw [heq]; rfl) rfl rfl
    · exact balances_self
  · next heq => exact balances_of_silent silent_nil (by rw [heq]; rfl) rfl rfl
  · next heq => exact balances_of_silent (silent_endOwned _ _ _ _ _) (by rw [heq]; rfl) rfl rfl

theorem balances_visit {n : Nat} (htimer : s.timer = .visiting n) (a : Answers) (port : Port) :
    Balances f s (s.visit a port) := by
  unfold System.visit
  split
  · exact balances_of_silent silent_nil rfl (by rw [htimer]; rfl) rfl
  · next run hrun =>
    split
    · exact balances_of_silent silent_nil rfl (by rw [htimer]; rfl) rfl
    · split
      · exact balances_of_silent silent_nil rfl (by rw [htimer]; rfl) rfl
      · have hasked : (run.measure a.encoderRc a.degrees a.again).2.asked = run.asked := by
          unfold Run.measure
          dsimp only
          repeat' split
          all_goals rfl
        -- the run has moved, and is owed what it was
        have hmoved (moved : Run) (hmoved : moved.asked = run.asked) :
            Table.owed f (Function.update s.pending port (some moved)) = s.pending.owed f := by
          have hupdate := Table.owed_update (f := f) s.pending port (some moved)
          have hsome : owedAt f (some moved) = owedAt f (some run) := congrArg (Asked.owed f) hmoved
          rw [hrun, hsome] at hupdate
          omega
        dsimp only
        split
        · exact balances_of_silent silent_nil rfl (by rw [htimer]; rfl) (hmoved _ hasked)
        · exact balances_of_silent silent_nil rfl (by rw [htimer]; rfl) (hmoved _ hasked)

theorem balances_finish (h : s.Sound) {port : Port} {completed : Run} {rc : Int}
    (htimer : s.timer = .finishing port completed rc) :
    Balances f s (s.finish port completed rc) := by
  have hcompleting := h.completing port completed (by rw [htimer]; rfl)
  unfold System.finish
  split
  · exact balances_of_silent silent_nil rfl (by rw [htimer]; rfl) rfl
  · next run hrun =>
    split
    · have hupdate := Table.owed_update (f := f) s.pending port none
      rw [hrun] at hupdate
      have hsome : owedAt f (some run) = completed.asked.owed f :=
        congrArg (Asked.owed f) (hcompleting.1 run hrun).1
      rw [hsome] at hupdate
      change _ + completed.asked.owed f = _ + 0 at hupdate
      rw [Balances, System.owed, System.owed, htimer,
        ← Nat.add_zero (Table.owed f s.pending), ← hupdate]
      show _ + completed.asked.owed f + _ + 0 = _ + 0 + _ + 0
      dsimp only
      omega
    · exact balances_of_silent silent_nil rfl (by rw [htimer]; rfl) rfl

theorem balances_fired {n : Nat} (htimer : s.timer = .visiting n) (a : Answers) :
    Balances f s (s.fired a) := by
  unfold System.fired
  dsimp only
  split
  · rw [Balances, tally_settles_overAll, tally_incurs_overAll, System.owed, System.owed, htimer]
    show _ + owedBy f s.pending.runs + 0 + 0 = _ + 0 + _ + 0
    rw [Table.owedBy_runs]
    rfl
  · exact balances_of_silent silent_nil rfl (by rw [htimer]; rfl) rfl

theorem balances_timerStep (h : s.Sound) (a : Answers) : Balances f s (s.timerStep env a) := by
  unfold System.timerStep
  split
  · exact balances_self
  · next htimer =>
    split
    · exact balances_self
    · split
      · exact balances_visit htimer a _
      · exact balances_fired htimer a
  · next htimer =>
    exact balances_of_silent (silent_endOwned _ _ _ _ _) rfl (by rw [htimer]; rfl) rfl
  · next htimer =>
    split
    · exact balances_self
    · exact balances_finish h htimer
  · next port completed rc htimer =>
    rw [Balances, tally_settles_reply, tally_incurs_reply, System.owed, System.owed, htimer]
    show _ + 0 + _ + _ = _ + completed.asked.owed f + _ + 0
    dsimp only
    omega
  · next failed htimer =>
    split
    · next hnone =>
      refine balances_of_silent silent_nil rfl ?_ rfl
      rw [htimer, Timer.owed, Timer.owed, abort_none hnone]
      · rfl
      · exact fun _ _ _ h => nomatch h
      · exact fun _ h => nomatch h
    · next notes failed' s' habort =>
      obtain ⟨howed, hincurs⟩ := abort_owed (f := f) habort
      obtain ⟨hpending, -, hhost, -, -⟩ := System.abort_table habort
      rw [Balances, hincurs]
      show s'.host.owed f + owedBy f failed'.failed + s'.pending.owed f +
        tally (Note.settles f) notes = _
      rw [System.owed, htimer, hpending, hhost, Timer.owed]
      omega

/-- **A step moves what is owed, or settles it.** -/
theorem balances_step (h : s.Sound) (event : Event) : Balances f s (s.step env event) := by
  cases event with
  | receive link line =>
    simp only [System.step]
    split
    · next hidle => exact balances_receive link line (by rw [hidle]; rfl)
    · exact balances_self
  | linkState link connected =>
    simp only [System.step]
    split
    · next hidle => exact balances_disconnect link connected (by rw [hidle]; rfl)
    · exact balances_self
  | host a => exact balances_hostStep h a
  | fire =>
    simp only [System.step]
    split
    · next hidle _ => exact balances_of_silent silent_nil rfl (by rw [hidle]; rfl) rfl
    · exact balances_self
  | timer a => exact balances_timerStep h a
  | other request =>
    refine balances_of_silent (fun n hn f => ?_) rfl rfl rfl
    cases mem_singleton.mp hn
    exact ⟨rfl, rfl⟩

end Brickwright.Btsensor.Classic
