import Brickwright.HubProgram.Program.Verified

/-!
# Waiting and the time limit

A WAIT ends its tick and sets a deadline, behind which the program goes on. The deadline is computed
in 64 bits. `bw_program_start` admits the start times from which one wait cannot go past the end of
the clock, but a run may be up to `BW_PROGRAM_TIME_LIMIT` old when it executes its WAIT. `wait_law`
says that a wait is as long as it should be exactly if its deadline does not come round, or the run
has no tick left before its time is up.
-/

namespace Brickwright.HubProgram

open List

/-! ## The rows that a tick executes -/

/-- The row that is executed where the log has an event. -/
def Event.row (code : List Instruction) : Event → Option Instruction
  | .fetch pc _ (some _) => some (code.getD pc ⟨0, 0, 0, 0⟩)
  | _ => none

/-- A program that is ticked at one time after the other, with the rows it executes at each. -/
def clocked : Machine (Program × World) Nat (List (Nat × Instruction)) where
  step s now :=
    let r := tick s.1 now s.2
    (r, ((r.2.log.drop s.2.log.length).filterMap (Event.row s.1.code)).map (Prod.mk now))

/-- The log grew by events that execute these rows. -/
def Adds (code : List Instruction) (w w' : World) (rows : List Instruction) : Prop :=
  ∃ events, w'.log = w.log ++ events ∧ events.filterMap (Event.row code) = rows

namespace Adds

variable {code : List Instruction} {w w' w'' : World} {rows rows' : List Instruction}

theorem refl (w : World) : Adds code w w [] := ⟨[], (append_nil _).symm, rfl⟩

theorem trans (h : Adds code w w' rows) (h' : Adds code w' w'' rows') :
    Adds code w w'' (rows ++ rows') := by
  obtain ⟨events, hlog, rfl⟩ := h
  obtain ⟨events', hlog', rfl⟩ := h'
  exact ⟨events ++ events', by rw [hlog', hlog, append_assoc], filterMap_append⟩

theorem observe {e : Event} (he : e.row code = none) : Adds code w (w.observe e) [] :=
  ⟨[e], rfl, by rw [filterMap_cons_none he, filterMap_nil]⟩

theorem call (c : IoCall) : Adds code w (w.call c).2 [] := observe rfl

theorem rows_eq (h : Adds code w w' rows) :
    (w'.log.drop w.log.length).filterMap (Event.row code) = rows := by
  obtain ⟨events, hlog, rfl⟩ := h
  rw [hlog, drop_left]

end Adds

variable {p : Program} {w : World} {now : Nat}

/-! ### Stages that execute no row -/

theorem adds_brakePorts (code : List Instruction) (p : Program) (ports : List Nat)
    (acc : Int × World) : Adds code acc.2 (ports.foldl (brakePort p) acc).2 [] := by
  induction ports generalizing acc with
  | nil => exact .refl _
  | cons q ports ih =>
    have hround : Adds code acc.2 (brakePort p acc q).2 [] := by
      unfold brakePort
      split
      · exact .call _
      · exact .refl _
    exact hround.trans (ih _)

theorem adds_brakeOwned (code : List Instruction) (p : Program) (w : World) :
    Adds code w (brakeOwned p w).2 [] :=
  adds_brakePorts code p _ (0, w)

theorem adds_fault (code : List Instruction) (p : Program) (error : Int) (w : World) :
    Adds code w (fault p error w).2 [] :=
  adds_brakeOwned code p w

theorem adds_pollDone (code : List Instruction) (mask : Nat) (ports : List Nat) (w : World) :
    Adds code w (pollDone mask ports w).2 [] := by
  induction ports generalizing w with
  | nil => exact .refl _
  | cons port ports ih =>
    simp only [pollDone]
    split
    · split
      · exact .call _
      · exact (Adds.call _).trans (ih _)
    · exact ih _

theorem adds_condition (code : List Instruction) (selector threshold : Int) (w : World) :
    Adds code w (condition selector threshold w).2 [] := by
  rw [condition_world]
  exact .call _

/-! ## What one tick can do -/

structure SameRun (p p' : Program) : Prop where
  code : p'.code = p.code
  count : p'.count = p.count
  started : p'.started = p.started
  lastTick : p'.lastTick = p.lastTick

/-- Nothing but its deadline stands between the program and its next row. -/
structure Free (p : Program) : Prop where
  running : p.state = .running
  moving : p.moving < 0
  awaiting : p.awaiting = 0
  ending : p.ending = false

def Instruction.delay (ins : Instruction) : Nat := toUnsigned (if ins.a ≠ 0 then ins.a else 1)

/-- A WAIT executed at `now` has ended the tick. -/
structure Waits (now : Nat) (ins : Instruction) (p : Program) : Prop extends Free p where
  waiting : p.waiting = true
  deadline : p.deadline = (now + ins.delay) % 2 ^ 64

/-- The rows of a tick: none comes behind a WAIT. -/
def EndsWaiting (now : Nat) (rows : List Instruction) (p : Program) : Prop :=
  ∀ l ins l', rows = l ++ ins :: l' → ins.op = 2 → l' = [] ∧ Waits now ins p

theorem EndsWaiting.nil {p : Program} : EndsWaiting now [] p :=
  fun _ _ _ h => absurd h (by simp)

def Program.HasRow (p : Program) (ins : Instruction) : Prop :=
  ∃ i < p.count, p.code.getD i ⟨0, 0, 0, 0⟩ = ins

/-- What the stages behind the deadline leave, and the rows they execute: some if they `must`. -/
def Executed (must : Prop) (p : Program) (now : Nat) (w : World) (r : Program × World) : Prop :=
  SameRun p r.1 ∧ ∃ rows, Adds p.code w r.2 rows ∧ EndsWaiting now rows r.1 ∧
    (∀ ins ∈ rows, p.HasRow ins) ∧ (must → rows ≠ [])

namespace Executed

variable {must must' : Prop} {p' : Program} {w' : World} {r : Program × World}

theorem none (hmust : ¬must) (hsame : SameRun p p') (hadds : Adds p.code w w' []) :
    Executed must p now w (p', w') :=
  ⟨hsame, [], hadds, .nil, nofun, fun h => absurd h hmust⟩

theorem fault {error : Int} (hmust : ¬must) (hsame : SameRun p p') (hadds : Adds p.code w w' []) :
    Executed must p now w (HubProgram.fault p' error w') :=
  ⟨⟨hsame.code, hsame.count, hsame.started, hsame.lastTick⟩, [],
    hadds.trans (adds_fault p.code p' error w'), .nil, nofun, fun h => absurd h hmust⟩

theorem after (h : Executed must' p' now w' r) (hsame : SameRun p p') (hadds : Adds p.code w w' [])
    (hmust : must → must') : Executed must p now w r := by
  obtain ⟨hsame', rows, hrows, hends, hhas, hne⟩ := h
  refine ⟨⟨hsame'.code.trans hsame.code, hsame'.count.trans hsame.count,
    hsame'.started.trans hsame.started, hsame'.lastTick.trans hsame.lastTick⟩, rows, ?_, hends, ?_,
    fun hm => hne (hmust hm)⟩
  · exact hadds.trans (hsame.code ▸ hrows)
  · intro ins hins
    obtain ⟨i, hlt, hget⟩ := hhas ins hins
    exact ⟨i, hsame.count ▸ hlt, hsame.code ▸ hget⟩

end Executed

/-- A row that is no WAIT, and how the `switch` goes on from it. -/
def Control.Executes (p : Program) (w : World) : Control → Prop
  | .ret r => SameRun p r.1 ∧ Adds p.code w r.2 []
  | .next p' w' => SameRun p p' ∧ (Free p → Free p') ∧ Adds p.code w w' []

variable {ins : Instruction}

theorem execute_wait (h : ins.op = 2) :
    execute now p ins w = .ret
      ({ p with
          deadline := (now + ins.delay) % 2 ^ 64, waiting := true, pc := p.pc + 1 }, w) := by
  unfold execute
  rw [h]
  rfl

variable (p w now) in
/-- **One row**, by its opcode. -/
theorem execute_executes (hne : ins.op ≠ 2) :
    (execute now p ins w).Executes p w := by
  have hfault : ∀ {p' : Program} {w' : World} (error : Int), SameRun p p' → Adds p.code w w' [] →
      (Control.ret (fault p' error w')).Executes p w := fun error hs ha =>
    ⟨⟨hs.code, hs.count, hs.started, hs.lastTick⟩, ha.trans (adds_fault ..)⟩
  have hfree : ∀ {p' : Program}, p'.state = p.state → p'.moving = p.moving →
      p'.awaiting = p.awaiting → p'.ending = p.ending → Free p → Free p' :=
    fun hstate hmoving hawaiting hending h => ⟨hstate.trans h.running, hmoving ▸ h.moving,
      hawaiting.trans h.awaiting, hending.trans h.ending⟩
  unfold execute
  split
  · dsimp only
    split
    · exact hfault _ ⟨rfl, rfl, rfl, rfl⟩ (adds_brakeOwned ..)
    · exact ⟨⟨rfl, rfl, rfl, rfl⟩, adds_brakeOwned ..⟩
  · dsimp only
    split
    · exact hfault _ ⟨rfl, rfl, rfl, rfl⟩ (.call _)
    · exact ⟨⟨rfl, rfl, rfl, rfl⟩, hfree rfl rfl rfl rfl, .call _⟩
  · next hop => exact absurd hop hne
  · dsimp only
    split
    · exact hfault _ ⟨rfl, rfl, rfl, rfl⟩ (adds_condition ..)
    · split
      · exact ⟨⟨rfl, rfl, rfl, rfl⟩, adds_condition ..⟩
      · exact ⟨⟨rfl, rfl, rfl, rfl⟩, hfree rfl rfl rfl rfl, adds_condition ..⟩
  · exact ⟨⟨rfl, rfl, rfl, rfl⟩, hfree rfl rfl rfl rfl, .refl _⟩
  · dsimp only
    split
    · exact hfault _ ⟨rfl, rfl, rfl, rfl⟩ (adds_condition ..)
    · exact ⟨⟨rfl, rfl, rfl, rfl⟩, hfree rfl rfl rfl rfl, adds_condition ..⟩
  · dsimp only
    split
    · exact hfault _ ⟨rfl, rfl, rfl, rfl⟩ (.call _)
    · exact ⟨⟨rfl, rfl, rfl, rfl⟩, .call _⟩
  · dsimp only
    split
    · exact hfault _ ⟨rfl, rfl, rfl, rfl⟩ (.call _)
    · exact ⟨⟨rfl, rfl, rfl, rfl⟩, hfree rfl rfl rfl rfl, .call _⟩
  · exact ⟨⟨rfl, rfl, rfl, rfl⟩, .refl _⟩
  · exact hfault _ ⟨rfl, rfl, rfl, rfl⟩ (.observe rfl)

variable {rows : List Instruction}

theorem EndsWaiting.cons (hop : ins.op ≠ 2)
    (h : EndsWaiting now rows p) : EndsWaiting now (ins :: rows) p := by
  intro l x l' hsplit hx
  cases l with
  | nil => exact absurd ((List.cons.inj hsplit).1 ▸ hx) hop
  | cons y l => exact h l x l' (List.cons.inj hsplit).2 hx

/-- **The loop**, by induction on its budget. -/
theorem executed_interpret (budget : Nat) (hfree : Free p) :
    Executed (budget ≠ 0 ∧ p.pc < p.count) p now w (interpret now budget p w) := by
  induction budget generalizing p w with
  | zero => exact .none (fun h => h.1 rfl) ⟨rfl, rfl, rfl, rfl⟩ (.refl _)
  | succ budget ih =>
    rw [interpret]
    cases hfetched : p.fetched with
    | none =>
      have hpc : ¬p.pc < p.count := by
        intro hlt
        rw [Program.fetched, if_neg (Nat.not_le.mpr hlt)] at hfetched
        cases hfetched
      exact .fault (fun h => hpc h.2) ⟨rfl, rfl, rfl, rfl⟩ ((Adds.observe rfl).trans (.observe rfl))
    | some ins =>
      obtain ⟨hhas, hrow⟩ : p.HasRow ins ∧
          Adds p.code w (w.observe (.fetch p.pc p.count (some ins.op))) [ins] := by
        unfold Program.fetched at hfetched
        split at hfetched
        · cases hfetched
        · next hlt => exact ⟨⟨p.pc, Nat.not_le.mp hlt, Option.some.inj hfetched⟩, [_], rfl,
            congrArg (fun x => [x]) (Option.some.inj hfetched)⟩
      dsimp only [Option.map_some]
      have hone : ∀ x ∈ [ins], p.HasRow x := fun x hx => mem_singleton.mp hx ▸ hhas
      by_cases hop : ins.op = 2
      · rw [execute_wait hop]
        refine ⟨⟨rfl, rfl, rfl, rfl⟩, [ins], hrow, fun l x l' hsplit hx => ?_, hone,
          fun _ => cons_ne_nil _ _⟩
        obtain ⟨rfl, rfl, rfl⟩ : l = [] ∧ ins = x ∧ l' = [] := by
          cases l with
          | nil => exact ⟨rfl, (List.cons.inj hsplit).1, (List.cons.inj hsplit).2.symm⟩
          | cons y l => exact absurd (List.cons.inj hsplit).2 (by simp)
        exact ⟨rfl, ⟨hfree.running, hfree.moving, hfree.awaiting, hfree.ending⟩, rfl, rfl⟩
      · have hexec := execute_executes p (w.observe (.fetch p.pc p.count (some ins.op))) now hop
        cases hcontrol : execute now p ins (w.observe (.fetch p.pc p.count (some ins.op))) with
        | ret r =>
          rw [hcontrol] at hexec
          exact ⟨hexec.1, [ins], hrow.trans hexec.2, EndsWaiting.nil.cons hop, hone,
            fun _ => cons_ne_nil _ _⟩
        | next p' w' =>
          rw [hcontrol] at hexec
          obtain ⟨hsame, hkeep, hadds⟩ := hexec
          obtain ⟨hsame', rows, hrows, hends, hhas', -⟩ :=
            ((ih (hkeep hfree) (w := w')).after hsame hadds id : Executed _ p now _ _)
          exact ⟨hsame', ins :: rows, hrow.trans hrows, hends.cons hop,
            forall_mem_cons.mpr ⟨hhas, hhas'⟩, fun _ => cons_ne_nil _ _⟩

variable (p w now) in
theorem executed_tickEnding (hfree : p.ending = false → Free p) :
    Executed (p.ending = false ∧ p.pc < p.count) p now w (tickEnding p now w) := by
  unfold tickEnding
  split
  · next hending =>
    have hmust : ¬(p.ending = false ∧ p.pc < p.count) := fun h => by
      rw [hending] at h
      cases h.1
    have hpoll := adds_pollDone p.code p.owned (List.range portCount) w
    split
    · next heq =>
      rw [heq] at hpoll
      split
      · exact .fault hmust ⟨rfl, rfl, rfl, rfl⟩ hpoll
      · exact .none hmust ⟨rfl, rfl, rfl, rfl⟩ hpoll
    · next heq =>
      rw [heq] at hpoll
      exact .none hmust ⟨rfl, rfl, rfl, rfl⟩ hpoll
  · next hending =>
    exact (executed_interpret budget (hfree (by simpa using hending))).after ⟨rfl, rfl, rfl, rfl⟩
      (.refl _) fun h => ⟨by decide, h.2⟩

variable (p w now) in
theorem executed_tickAwaiting (hrun : p.state = .running) (hmoving : p.moving < 0) :
    Executed (Free p ∧ p.pc < p.count) p now w (tickAwaiting p now w) := by
  unfold tickAwaiting
  split
  · next hawaiting =>
    have hmust : ¬(Free p ∧ p.pc < p.count) := fun h => hawaiting h.1.awaiting
    have hpoll := adds_pollDone p.code p.awaiting (List.range portCount) w
    split
    · next heq =>
      rw [heq] at hpoll
      split
      · exact .fault hmust ⟨rfl, rfl, rfl, rfl⟩ hpoll
      · exact .none hmust ⟨rfl, rfl, rfl, rfl⟩ hpoll
    · next w' heq =>
      rw [heq] at hpoll
      have hnext := executed_tickEnding { p with awaiting := 0 } w' now
        fun hending => ⟨hrun, hmoving, rfl, hending⟩
      exact hnext.after ⟨rfl, rfl, rfl, rfl⟩ hpoll fun h => absurd h hmust
  · next hawaiting =>
    have hnext := executed_tickEnding p w now
      fun hending => ⟨hrun, hmoving, not_not.mp hawaiting, hending⟩
    exact hnext.after ⟨rfl, rfl, rfl, rfl⟩ (.refl _) fun h => ⟨h.1.ending, h.2⟩

variable (p w now) in
theorem executed_tickMoving (hrun : p.state = .running) :
    Executed (Free p ∧ p.pc < p.count) p now w (tickMoving p now w) := by
  unfold tickMoving
  split
  · next hmoving =>
    have hmust : ¬(Free p ∧ p.pc < p.count) := fun h => Int.not_le.mpr h.1.moving hmoving
    dsimp only
    split
    · exact .fault hmust ⟨rfl, rfl, rfl, rfl⟩ (.call _)
    · split
      · exact .none hmust ⟨rfl, rfl, rfl, rfl⟩ (.call _)
      · have hnext := executed_tickAwaiting { p with moving := -1 }
          (w.call (.done (toUnsigned p.moving))).2 now hrun (show (-1 : Int) < 0 by decide)
        exact hnext.after ⟨rfl, rfl, rfl, rfl⟩ (.call _) fun h => absurd h hmust
  · next hmoving => exact executed_tickAwaiting p w now hrun (Int.not_le.mp hmoving)

/-! ## What the clock decides -/

theorem tick_of_not_running (h : p.state ≠ .running) : tick p now w = (p, w) := if_pos h

theorem tick_of_over (hrun : p.state = .running) (hlast : p.lastTick ≤ now)
    (hover : timeLimit ≤ sub64 now p.started) :
    tick p now w = fault { p with lastTick := now } (-ETIMEDOUT) w := by
  rw [tick, if_neg (not_not.mpr hrun), if_neg (Nat.not_lt.mpr hlast)]
  exact if_pos hover

theorem tick_of_early (hrun : p.state = .running) (hlast : p.lastTick ≤ now)
    (htime : sub64 now p.started < timeLimit) (hwaiting : p.waiting = true)
    (hearly : now < p.deadline) : tick p now w = ({ p with lastTick := now }, w) := by
  rw [tick, if_neg (not_not.mpr hrun), if_neg (Nat.not_lt.mpr hlast)]
  rw [if_neg (Nat.not_le.mpr htime), if_pos ⟨hwaiting, hearly⟩]

theorem tick_of_due (hrun : p.state = .running) (hlast : p.lastTick ≤ now)
    (htime : sub64 now p.started < timeLimit) (hdue : p.waiting = true → p.deadline ≤ now) :
    tick p now w = tickMoving { p with lastTick := now, waiting := false } now w := by
  rw [tick, if_neg (not_not.mpr hrun), if_neg (Nat.not_lt.mpr hlast)]
  rw [if_neg (Nat.not_le.mpr htime), if_neg fun h => Nat.not_lt.mpr (hdue h.1) h.2]

/-- What one tick does: the rows that it executes, and when it executes any. -/
structure Ticked (p : Program) (now : Nat) (w : World) (rows : List Instruction)
    (r : Program × World) : Prop where
  adds : Adds p.code w r.2 rows
  ends : EndsWaiting now rows r.1
  has : ∀ ins ∈ rows, p.HasRow ins
  code : r.1.code = p.code
  count : r.1.count = p.count
  started : r.1.started = p.started
  clock : r.1.state = .running → p.state = .running ∧ p.lastTick ≤ now ∧ r.1.lastTick = now
  due : rows ≠ [] → p.state = .running ∧ p.lastTick ≤ now ∧ sub64 now p.started < timeLimit ∧
    (p.waiting = true → p.deadline ≤ now)

theorem ticked_fault (p p' : Program) (hsame : p'.code = p.code ∧ p'.count = p.count ∧
    p'.started = p.started) (error : Int) : Ticked p now w [] (fault p' error w) where
  adds := adds_fault ..
  ends := .nil
  has := nofun
  code := hsame.1
  count := hsame.2.1
  started := hsame.2.2
  clock h := by cases h
  due h := absurd rfl h

theorem exists_ticked (p : Program) (now : Nat) (w : World) :
    ∃ rows, Ticked p now w rows (tick p now w) := by
  by_cases hrun : p.state = .running
  swap
  · rw [tick_of_not_running hrun]
    exact ⟨[], .refl _, .nil, nofun, rfl, rfl, rfl, fun h => absurd h hrun, fun h => absurd rfl h⟩
  by_cases hlast : p.lastTick ≤ now
  swap
  · rw [tick, if_neg (not_not.mpr hrun), if_pos (Nat.not_le.mp hlast)]
    exact ⟨[], ticked_fault p p ⟨rfl, rfl, rfl⟩ _⟩
  by_cases htime : timeLimit ≤ sub64 now p.started
  · rw [tick_of_over hrun hlast htime]
    exact ⟨[], ticked_fault p { p with lastTick := now } ⟨rfl, rfl, rfl⟩ _⟩
  have htime' := Nat.not_le.mp htime
  by_cases hearly : p.waiting = true ∧ now < p.deadline
  · rw [tick_of_early hrun hlast htime' hearly.1 hearly.2]
    exact ⟨[], .refl _, .nil, nofun, rfl, rfl, rfl, fun _ => ⟨hrun, hlast, rfl⟩,
      fun h => absurd rfl h⟩
  have hdue : p.waiting = true → p.deadline ≤ now := fun h => Nat.not_lt.mp fun h' => hearly ⟨h, h'⟩
  rw [tick_of_due hrun hlast htime' hdue]
  obtain ⟨hsame, rows, hadds, hends, hhas, -⟩ :=
    executed_tickMoving { p with lastTick := now, waiting := false } w now hrun
  exact ⟨rows, hadds, hends, hhas, hsame.code, hsame.count, hsame.started,
    fun _ => ⟨hrun, hlast, hsame.lastTick⟩, fun _ => ⟨hrun, hlast, htime', hdue⟩⟩

/-! ## Runs -/

variable {s : Program × World} {times : List Nat} {began deadline : Nat}

theorem clocked_step (h : Ticked s.1 now s.2 rows (tick s.1 now s.2)) :
    clocked.step s now = (tick s.1 now s.2, rows.map (Prod.mk now)) := by
  show (_, ((tick s.1 now s.2).2.log.drop _ |>.filterMap _).map _) = _
  rw [h.adds.rows_eq]

theorem mem_history {x : Nat × Instruction} (h : x ∈ clocked.history s times) : x.1 ∈ times := by
  induction times generalizing s with
  | nil => cases h
  | cons now times ih =>
    rcases mem_append.mp h with hnow | hlater
    · obtain ⟨ins, -, rfl⟩ := mem_map.mp hnow
      exact mem_cons_self
    · exact mem_cons_of_mem _ (ih hlater)

/-- The program waits for its deadline, or is over. -/
def Sleeps (deadline : Nat) (p : Program) : Prop :=
  p.state = .running → p.waiting = true ∧ p.deadline = deadline

theorem Sleeps.tick (h : Sleeps deadline p) (hearly : now < deadline) :
    Sleeps deadline (tick p now w).1 := by
  by_cases hrun : p.state = .running
  swap
  · rwa [tick_of_not_running hrun]
  by_cases hlast : p.lastTick ≤ now
  swap
  · rw [HubProgram.tick, if_neg (not_not.mpr hrun), if_pos (Nat.not_le.mp hlast)]
    exact fun hfault => by cases hfault
  by_cases htime : timeLimit ≤ sub64 now p.started
  · rw [tick_of_over hrun hlast htime]
    exact fun hfault => by cases hfault
  · obtain ⟨hwaiting, hdeadline⟩ := h hrun
    rw [tick_of_early hrun hlast (Nat.not_le.mp htime) hwaiting (hdeadline ▸ hearly)]
    exact fun _ => ⟨hwaiting, hdeadline⟩

/-- **Nothing is executed before the deadline.** -/
theorem deadline_le (h : Sleeps deadline s.1) (hsorted : times.Pairwise (· ≤ ·))
    {x : Nat × Instruction} (hx : x ∈ clocked.history s times) : deadline ≤ x.1 := by
  induction times generalizing s with
  | nil => cases hx
  | cons now times ih =>
    obtain ⟨hnow, hsorted'⟩ := pairwise_cons.mp hsorted
    by_cases hdue : deadline ≤ now
    · rcases mem_cons.mp (mem_history hx) with heq | hmem
      · exact heq ▸ hdue
      · exact Nat.le_trans hdue (hnow _ hmem)
    · obtain ⟨rows, hticked⟩ := exists_ticked s.1 now s.2
      obtain rfl : rows = [] := by
        by_contra hne
        obtain ⟨hrun, -, -, hgoes⟩ := hticked.due hne
        obtain ⟨hwaiting, hdeadline⟩ := h hrun
        exact hdue (hdeadline ▸ hgoes hwaiting)
      rw [Machine.history_cons, clocked_step hticked] at hx
      exact ih (h.tick (Nat.not_le.mp hdue)) hsorted' hx

structure Began (began : Nat) (p : Program) : Prop where
  started : p.started = began
  lastTick : p.state = .running → began ≤ p.lastTick

theorem Began.tick (h : Began began p) : Began began (tick p now w).1 := by
  obtain ⟨rows, hticked⟩ := exists_ticked p now w
  refine ⟨hticked.started.trans h.started, fun hrun => ?_⟩
  obtain ⟨hrun', hlast, hnow⟩ := hticked.clock hrun
  rw [hnow]
  exact Nat.le_trans (h.lastTick hrun') hlast

theorem sub64_of_le (hle : began ≤ now) (hlt : now < 2 ^ 64) : sub64 now began = now - began := by
  unfold sub64
  omega

/-- **Nothing is executed when the time is up.** -/
theorem history_of_over (h : Began began s.1) (hclock : ∀ t ∈ times, t < 2 ^ 64)
    (hover : ∀ t ∈ times, began + timeLimit ≤ t) : clocked.history s times = [] := by
  induction times generalizing s with
  | nil => rfl
  | cons now times ih =>
    obtain ⟨rows, hticked⟩ := exists_ticked s.1 now s.2
    obtain ⟨hnow, hclock'⟩ := forall_mem_cons.mp hclock
    obtain ⟨hold, hover'⟩ := forall_mem_cons.mp hover
    obtain rfl : rows = [] := by
      by_contra hne
      obtain ⟨hrun, hlast, hage, -⟩ := hticked.due hne
      rw [h.started, sub64_of_le (by omega) hnow] at hage
      omega
    rw [Machine.history_cons, clocked_step hticked]
    exact ih h.tick hclock' hover'

/-! ## How long a wait is -/

/-- The second row is executed no sooner than the first one lets it, if that is a WAIT. -/
def After (x y : Nat × Instruction) : Prop := x.2.op = 2 → (x.1 : Int) + max x.2.a 1 ≤ y.1

instance (x y : Nat × Instruction) : Decidable (After x y) := inferInstanceAs (Decidable (_ → _))

/-- The delays that the validator accepts. -/
def DelaysOk (p : Program) : Prop := ∀ ins, p.HasRow ins → ins.op = 2 → 0 ≤ ins.a ∧ ins.a ≤ 120000

theorem delay_eq (h : 0 ≤ ins.a ∧ ins.a ≤ 120000) :
    (ins.delay : Int) = max ins.a 1 := by
  unfold Instruction.delay toUnsigned
  split <;> omega

theorem Ticked.delaysOk {r : Program × World}
    (h : Ticked p now w rows r) (hp : DelaysOk p) : DelaysOk r.1 := by
  rintro ins ⟨i, hlt, hget⟩
  exact hp ins ⟨i, h.count ▸ hlt, h.code ▸ hget⟩

theorem executes_next {t : Nat} (hwaits : Waits now ins s.1)
    (hpc : s.1.pc < s.1.count) (hbegan : Began began s.1) (hlast : s.1.lastTick = now)
    (hround : (now + ins.delay) % 2 ^ 64 ≤ now) (hle : now ≤ t) (ht : t < 2 ^ 64)
    (htime : t < began + timeLimit) :
    ∃ row, (t, row) ∈ (clocked.step s t).2 := by
  have hold : began ≤ t := Nat.le_trans (hlast ▸ hbegan.lastTick hwaits.running) hle
  have hage : sub64 t s.1.started < timeLimit := by
    rw [hbegan.started, sub64_of_le hold ht]
    omega
  have hdue : s.1.waiting = true → s.1.deadline ≤ t := fun _ => by
    rw [hwaits.deadline]
    exact Nat.le_trans hround hle
  obtain ⟨hsame, rows, hadds, -, -, hne⟩ := executed_tickMoving
    { s.1 with lastTick := t, waiting := false } s.2 t hwaits.running
  have hrows : (clocked.step s t).2 = rows.map (Prod.mk t) := by
    show ((tick s.1 t s.2).2.log.drop _ |>.filterMap _).map _ = _
    rw [tick_of_due hwaits.running (hlast ▸ hle) hage hdue, hadds.rows_eq]
  obtain ⟨row, hrow⟩ := exists_mem_of_ne_nil rows
    (hne ⟨⟨hwaits.running, hwaits.moving, hwaits.awaiting, hwaits.ending⟩, hpc⟩)
  exact ⟨row, hrows ▸ mem_map_of_mem hrow⟩

/-- **The rows behind those of one tick.** -/
theorem step_iff (hticked : Ticked s.1 now s.2 rows (tick s.1 now s.2))
    (hinv : Inv s) (hbegan : Began began s.1) (hdelays : DelaysOk s.1)
    (hclock : ∀ t ∈ now :: times, t < 2 ^ 64) (hsorted : (now :: times).Pairwise (· ≤ ·)) :
    (∀ x ∈ rows.map (Prod.mk now), ∀ y ∈ clocked.history (tick s.1 now s.2) times, After x y) ↔
      ∀ ins ∈ rows, ins.op = 2 →
        (now : Int) + max ins.a 1 < 2 ^ 64 ∨ ∀ t ∈ times, began + timeLimit ≤ t := by
  obtain ⟨hnow, hclock'⟩ := forall_mem_cons.mp hclock
  obtain ⟨hle, hsorted'⟩ := pairwise_cons.mp hsorted
  have hwait : ∀ ins ∈ rows, ins.op = 2 →
      Waits now ins (tick s.1 now s.2).1 ∧ (ins.delay : Int) = max ins.a 1 := by
    intro ins hins hop
    obtain ⟨l, l', rfl⟩ := append_of_mem hins
    exact ⟨(hticked.ends l ins l' rfl hop).2, delay_eq (hdelays ins (hticked.has ins hins) hop)⟩
  constructor
  · intro hafter ins hins hop
    obtain ⟨hwaits, hdelay⟩ := hwait ins hins hop
    rw [or_iff_not_imp_left]
    intro hround t ht
    by_contra hshort
    -- the first tick behind the WAIT comes before the time is up
    obtain ⟨t₁, times', rfl⟩ : ∃ t₁ times', times = t₁ :: times' := by
      cases times with
      | nil => cases ht
      | cons t₁ times' => exact ⟨t₁, times', rfl⟩
    have ht₁ : t₁ ≤ t := by
      rcases mem_cons.mp ht with rfl | hmem
      · exact Nat.le_refl _
      · exact (pairwise_cons.mp hsorted').1 t hmem
    obtain ⟨-, -, hlast⟩ := hticked.clock hwaits.running
    have hmod : (now + ins.delay) % 2 ^ 64 ≤ now := by
      have hbound := (hdelays ins (hticked.has ins hins) hop).2
      omega
    obtain ⟨row, hrow⟩ := executes_next hwaits ((tick_inv now hinv).pc hwaits.running) hbegan.tick
      hlast hmod (hle t₁ mem_cons_self) (hclock' t₁ mem_cons_self) (by omega)
    have hlong := hafter (now, ins) (mem_map_of_mem hins) (t₁, row)
      (by exact mem_append_left _ hrow) hop
    have hlt := hclock' t₁ mem_cons_self
    dsimp only at hlong
    omega
  · rintro hfits x hx ⟨t, row⟩ hy hop
    obtain ⟨ins, hins, rfl⟩ := mem_map.mp hx
    obtain ⟨hwaits, hdelay⟩ := hwait ins hins hop
    rcases hfits ins hins hop with hfit | hover
    · have hsleeps : Sleeps (now + ins.delay) (tick s.1 now s.2).1 := fun _ =>
        ⟨hwaits.waiting, hwaits.deadline.trans (Nat.mod_eq_of_lt (by omega))⟩
      have hlong := deadline_le hsleeps hsorted' hy
      dsimp only at hlong ⊢
      omega
    · rw [history_of_over hbegan.tick hclock' hover] at hy
      cases hy

theorem pairwise_rows {p' : Program} (h : EndsWaiting now rows p') :
    (rows.map (Prod.mk now)).Pairwise After := by
  induction rows with
  | nil => exact List.Pairwise.nil
  | cons ins rows ih =>
    refine List.Pairwise.cons (fun y hy hop => ?_) (ih fun l x l' hsplit => ?_)
    · obtain ⟨rfl, -⟩ := h [] ins rows rfl hop
      cases hy
    · exact h (ins :: l) x l' (congrArg (ins :: ·) hsplit)

/-- At every tick of the run, a WAIT that is executed does not go past the end of the clock, or the
run has no tick left before its time is up. -/
def Fits (began : Nat) (s : Program × World) (times : List Nat) : Prop :=
  ∀ before now after, times = before ++ now :: after →
    ∀ ins, (now, ins) ∈ (clocked.step (clocked.run s before) now).2 → ins.op = 2 →
      (now : Int) + max ins.a 1 < 2 ^ 64 ∨ ∀ t ∈ after, began + timeLimit ≤ t

theorem fits_cons (hticked : Ticked s.1 now s.2 rows (tick s.1 now s.2)) :
    Fits began s (now :: times) ↔
      (∀ ins ∈ rows, ins.op = 2 →
        (now : Int) + max ins.a 1 < 2 ^ 64 ∨ ∀ t ∈ times, began + timeLimit ≤ t) ∧
      Fits began (tick s.1 now s.2) times := by
  have hmem : ∀ ins, (now, ins) ∈ (clocked.step s now).2 ↔ ins ∈ rows := fun ins => by
    rw [clocked_step hticked]
    exact mem_map_of_injective fun _ _ heq => (Prod.mk.inj heq).2
  constructor
  · intro h
    refine ⟨fun ins hins => h [] now times rfl ins ((hmem ins).mpr hins), ?_⟩
    intro before t after hsplit
    exact h (now :: before) t after (congrArg (now :: ·) hsplit)
  · rintro ⟨hnow, hlater⟩ before t after hsplit ins hins
    cases before with
    | nil =>
      obtain ⟨rfl, rfl⟩ := List.cons.inj hsplit
      exact hnow ins ((hmem ins).mp hins)
    | cons t' before =>
      obtain ⟨rfl, hsplit'⟩ := List.cons.inj hsplit
      exact hlater before t after hsplit' ins hins

/-- **Every wait of a run is long enough**, exactly if its deadline fits. -/
theorem waits_iff (hinv : Inv s) (hbegan : Began began s.1) (hdelays : DelaysOk s.1)
    (hclock : ∀ t ∈ times, t < 2 ^ 64) (hsorted : times.Pairwise (· ≤ ·)) :
    (clocked.history s times).Pairwise After ↔ Fits began s times := by
  induction times generalizing s with
  | nil => exact iff_of_true List.Pairwise.nil fun _ _ _ h => absurd h (by simp)
  | cons now times ih =>
    obtain ⟨rows, hticked⟩ := exists_ticked s.1 now s.2
    have hlater := ih (s := tick s.1 now s.2) (tick_inv now hinv) hbegan.tick
      (hticked.delaysOk hdelays) (forall_mem_cons.mp hclock).2
      (pairwise_cons.mp hsorted).2
    rw [Machine.history_cons, clocked_step hticked, pairwise_append, fits_cons hticked, hlater,
      step_iff hticked hinv hbegan hdelays hclock hsorted]
    exact ⟨fun h => ⟨h.2.2, h.2.1⟩, fun h => ⟨pairwise_rows hticked.ends, h.2, h.1⟩⟩

/-! ## The time limit -/

theorem lastTick_mem (hlast : s.1.state = .running → s.1.lastTick ≤ began)
    (hrun : (clocked.run s times).1.state = .running) :
    (clocked.run s times).1.lastTick ≤ began ∨ (clocked.run s times).1.lastTick ∈ times := by
  induction times using List.reverseRecOn with
  | nil => exact .inl (hlast hrun)
  | append_singleton times now ih =>
    rw [clocked.run_concat] at hrun ⊢
    obtain ⟨rows, hticked⟩ := exists_ticked (clocked.run s times).1 now (clocked.run s times).2
    refine .inr (mem_append_right _ ?_)
    exact mem_singleton.mpr (hticked.clock hrun).2.2

theorem began_run (h : Began began s.1) (times : List Nat) : Began began (clocked.run s times).1 :=
  @Machine.run_invariant _ _ _ clocked (fun s => Began began s.1) (fun _ _ h => h.tick) s times h

def Brakes (w w' : World) : Prop :=
  ∃ events, w'.log = w.log ++ events ∧ ∀ e ∈ events, ∃ port r, e = .call (.brake port) r

theorem brakes_fault (p : Program) (error : Int) (w : World) : Brakes w (fault p error w).2 := by
  have hports : ∀ (ports : List Nat) (acc : Int × World),
      Brakes acc.2 (ports.foldl (brakePort p) acc).2 := by
    intro ports
    induction ports with
    | nil => exact fun acc => ⟨[], (append_nil _).symm, nofun⟩
    | cons port ports ih =>
      intro acc
      obtain ⟨events, hlog, hbrakes⟩ := ih (brakePort p acc port)
      rw [foldl_cons]
      unfold brakePort at hlog ⊢
      split at hlog
      · next hbit =>
        rw [if_pos hbit]
        refine ⟨_ :: events, hlog.trans (append_assoc ..), ?_⟩
        exact forall_mem_cons.mpr ⟨⟨port, _, rfl⟩, hbrakes⟩
      · next hbit =>
        rw [if_neg hbit]
        exact ⟨events, hlog, hbrakes⟩
  exact hports _ (0, w)

/-- **The first tick when the time is up.** -/
theorem times_out (hbegan : Began began s.1) (hlast : s.1.lastTick ≤ began) (hnow : now < 2 ^ 64)
    (hsorted : ∀ t ∈ times, t ≤ now) (hover : began + timeLimit ≤ now)
    (hrun : (clocked.run s times).1.state = .running) :
    (tick (clocked.run s times).1 now (clocked.run s times).2).1.state = .fault ∧
      (tick (clocked.run s times).1 now (clocked.run s times).2).1.error = -ETIMEDOUT ∧
      Brakes (clocked.run s times).2
        (tick (clocked.run s times).1 now (clocked.run s times).2).2 := by
  have hle : (clocked.run s times).1.lastTick ≤ now := by
    rcases lastTick_mem (fun _ => hlast) hrun with h | h
    · omega
    · exact hsorted _ h
  have hage : timeLimit ≤ sub64 now (clocked.run s times).1.started := by
    rw [(began_run hbegan times).started, sub64_of_le (by omega) hnow]
    omega
  rw [tick_of_over hrun hle hage]
  exact ⟨rfl, rfl, brakes_fault ..⟩

/-! ## Accepted programs -/

theorem rowValid_of_validate (h : ¬validate (some rows) < 0) :
    ∀ ins ∈ rows, rowValid rows.length ins = true := by
  simp only [validate, EINVAL] at h
  split at h
  · omega
  · split at h
    · next hall => exact all_eq_true.mp hall
    · omega

variable {code : Option (List Instruction)}

theorem load_delaysOk {id : Nat}
    (hload : (load p id code).1 = 0) : DelaysOk (load p id code).2 := by
  unfold load at hload ⊢
  split at hload
  · cases hload
  · next hidle =>
    split at hload
    · cases hload
    · next hid =>
      split at hload
      · omega
      · next hvalid =>
        rw [if_neg hidle, if_neg hid, if_neg hvalid]
        obtain _ | rows := code
        · exact absurd (show validate none < 0 by decide) hvalid
        · rintro ins ⟨i, hlt, hget⟩ hop
          have hi : i < rows.length := hlt
          replace hget : (p.code.overlay 0 rows).getD i ⟨0, 0, 0, 0⟩ = ins := hget
          rw [getD_overlay_zero _ hi, getD_eq_getElem _ _ hi] at hget
          have hrow := rowValid_of_validate hvalid ins (hget ▸ getElem_mem hi)
          obtain ⟨op, a, b, c⟩ := ins
          obtain rfl : op = 2 := hop
          simp only [rowValid, Bool.and_eq_true, between_iff] at hrow
          exact hrow.1.1

theorem step_delaysOk (op : Op) (h : DelaysOk s.1) : DelaysOk (execution.step s op).1.1 := by
  have hsame : (execution.step s op).1.1.code = s.1.code ∧
      (execution.step s op).1.1.count = s.1.count := by
    cases op with
    | start id now =>
      show (start s.1 id now).2.code = _ ∧ (start s.1 id now).2.count = _
      unfold start
      split
      · exact ⟨rfl, rfl⟩
      · split
        · exact ⟨rfl, rfl⟩
        · split <;> exact ⟨rfl, rfl⟩
    | tick now =>
      obtain ⟨rows, hticked⟩ := exists_ticked s.1 now s.2
      exact ⟨hticked.code, hticked.count⟩
    | stop =>
      show (stop s.1 s.2).2.1.code = _ ∧ (stop s.1 s.2).2.1.count = _
      unfold stop
      dsimp only
      split
      · exact ⟨rfl, rfl⟩
      · split <;> exact ⟨rfl, rfl⟩
  rintro ins ⟨i, hlt, hget⟩
  exact h ins ⟨i, hsame.2 ▸ hlt, hsame.1 ▸ hget⟩

theorem start_began {id : Nat} (h : (start p id began).1 = 0) :
    Began began (start p id began).2 ∧ (start p id began).2.lastTick ≤ began ∧
      ((start p id began).2.code = p.code ∧ (start p id began).2.count = p.count) := by
  unfold start at h ⊢
  split at h
  · cases h
  · next hidle =>
    split at h
    · cases h
    · next hid =>
      split at h
      · cases h
      · next hio =>
        rw [if_neg hidle, if_neg hid, if_neg hio]
        exact ⟨⟨rfl, fun _ => Nat.le_refl _⟩, Nat.le_refl _, rfl, rfl⟩

/-- **How long a program waits and runs**: an accepted program that has been started, ticked at
non-decreasing times. A WAIT is as long as it should be in the whole run exactly if every deadline
fits, and the first tick when the time is up makes no call but of the brake. -/
theorem wait_law {id : Nat} (hload : (load p id code).1 = 0)
    (respond : List Event → IoCall → IoResult) (ops : List Op) (id' began : Nat)
    (hstart : (start (execution.run ((load p id code).2, ⟨respond, []⟩) ops).1 id' began).1 = 0)
    (times : List Nat) (hclock : ∀ t ∈ times, t < 2 ^ 64) (hsorted : times.Pairwise (· ≤ ·)) :
    let loaded := execution.run ((load p id code).2, ⟨respond, []⟩) ops
    let started := ((start loaded.1 id' began).2, loaded.2)
    ((clocked.history started times).Pairwise After ↔ Fits began started times) ∧
      ∀ before now after, times = before ++ now :: after → began + timeLimit ≤ now →
        (clocked.run started before).1.state = .running →
        let r := (clocked.step (clocked.run started before) now).1
        r.1.state = .fault ∧ r.1.error = -ETIMEDOUT ∧
          Brakes (clocked.run started before).2 r.2 := by
  intro loaded started
  obtain ⟨hbegan, hlast, hcode, hcount⟩ := start_began hstart
  have hinv : Inv started := start_inv id' began (run_inv hload respond ops)
  have hdelays : DelaysOk loaded.1 := @Machine.run_invariant _ _ _ execution
    (fun s => DelaysOk s.1) (fun _ op h => step_delaysOk op h) _ ops (load_delaysOk hload)
  have hdelays' : DelaysOk started.1 := by
    rintro ins ⟨i, hlt, hget⟩
    exact hdelays ins ⟨i, hcount ▸ hlt, hcode ▸ hget⟩
  refine ⟨waits_iff hinv hbegan hdelays' hclock hsorted, ?_⟩
  rintro before now after rfl hover hrun
  refine times_out hbegan hlast (hclock now (by simp)) (fun t ht => ?_) hover hrun
  exact (pairwise_append.mp hsorted).2.2 t ht now mem_cons_self

/-- Wait as long as a program may run, and end. -/
def longWait : List Instruction := [⟨2, 120000, 0, 0⟩, ⟨0, 0, 0, 0⟩]

def sampleStarted : Program × World :=
  ((start (load (Program.init allIo) 7 (some longWait)).2 7 100).2, ⟨fun _ _ => ⟨0, 0⟩, []⟩)

theorem wait_law_sample :
    ((clocked.history sampleStarted [100, 120100]).Pairwise After ↔
        Fits 100 sampleStarted [100, 120100]) ∧
      (clocked.step (clocked.run sampleStarted [100]) 120100).1.1.error = -ETIMEDOUT := by
  have hload : (load (Program.init allIo) 7 (some longWait)).1 = 0 := by decide
  have hlaw := wait_law hload (fun _ _ => ⟨0, 0⟩) [] 7 100 (by decide) [100, 120100] (by decide)
    (by decide)
  exact ⟨hlaw.1, (hlaw.2 [100] 120100 [] rfl (by decide) (by decide)).2.1⟩

/-- A program started at the last time that is admitted: the deadline of a WAIT one millisecond
later is 0, and the next tick goes on. -/
theorem not_wait_law :
    ¬∀ (p : Program) (id : Nat) (code : Option (List Instruction))
      (respond : List Event → IoCall → IoResult) (ops : List Op) (id' began : Nat)
      (times : List Nat),
      (load p id code).1 = 0 →
      (start (execution.run ((load p id code).2, ⟨respond, []⟩) ops).1 id' began).1 = 0 →
      (∀ t ∈ times, t < 2 ^ 64) → times.Pairwise (· ≤ ·) →
      let loaded := execution.run ((load p id code).2, ⟨respond, []⟩) ops
      (clocked.history ((start loaded.1 id' began).2, loaded.2) times).Pairwise After := by
  intro h
  have hwaits := h (Program.init allIo) 7 (some longWait) (fun _ _ => ⟨0, 0⟩) [] 7
    (2 ^ 64 - 1 - timeLimit) [2 ^ 64 - timeLimit, 2 ^ 64 - timeLimit + 1] (by decide) (by decide)
    (by decide) (by decide)
  revert hwaits
  decide

end Brickwright.HubProgram
