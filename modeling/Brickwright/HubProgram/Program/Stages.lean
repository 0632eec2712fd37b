import Brickwright.HubProgram.Program.Basic
import Brickwright.Machine.History

/-!
# The invariant of a running instruction program

What the static validator checks (`RowOk`) is what the interpreter relies on at run time: a fetched
row drives only the six ports, in range, and leads to a row of the program. `Inv` says so of a state
between two entry points, `Running` of a state inside a tick, `Going` of one inside the interpreter
loop.

The same induction carries the braking discipline. `Held` is the reason it works: a port is entered
in the owned set *before* its call, so whatever the call returns, the port is among those that
`brake_owned` reaches.
-/

namespace Brickwright.HubProgram

open List

/-! ## What the validator promises -/

/-- A row that `bw_program_validate` accepts in a program of `count` rows. -/
inductive RowOk (count : Nat) : Instruction → Prop where
  | finish : RowOk count ⟨0, 0, 0, 0⟩
  | motor {a b : Int} : 0 ≤ a → a < 6 → -1110 ≤ b → b ≤ 1110 → RowOk count ⟨1, a, b, 0⟩
  | delay {a : Int} : RowOk count ⟨2, a, 0, 0⟩
  | wait {a b : Int} : sensorPredicate (toUnsigned a) ≠ 0 → RowOk count ⟨3, a, b, 0⟩
  | jump {a : Int} : 0 ≤ a → a < count → RowOk count ⟨4, a, 0, 0⟩
  | branch {a b c : Int} : sensorPredicate (toUnsigned a) ≠ 0 → 0 ≤ c → c < count →
      RowOk count ⟨5, a, b, c⟩
  | move {a b c : Int} : 0 ≤ a → a < 6 → -36000 ≤ b → b ≤ 36000 → 1 ≤ c → c ≤ 1110 →
      RowOk count ⟨6, a, b, c⟩
  | arm {a b c : Int} : 0 ≤ a → a < 6 → -36000 ≤ b → b ≤ 36000 → 1 ≤ c → c ≤ 1110 →
      RowOk count ⟨7, a, b, c⟩
  | await {a : Int} : 1 ≤ a → a < 64 → RowOk count ⟨8, a, 0, 0⟩

theorem between_iff {v low high : Int} : between v low high = true ↔ low ≤ v ∧ v ≤ high := by
  simp [between]

/-- The value test of a condition only passes for a selector the sensor layer knows. -/
theorem sensorPredicate_of_predicate {selector value : Int} (h : predicate selector value = true) :
    sensorPredicate (toUnsigned selector) ≠ 0 := by
  intro h0
  simp [predicate, h0] at h

theorem rowOk_of_rowValid {count : Nat} {ins : Instruction} (h : rowValid count ins = true) :
    RowOk count ins := by
  obtain ⟨op, a, b, c⟩ := ins
  simp only [rowValid] at h
  split at h
  case h_10 => cases h
  all_goals
    simp only [Bool.and_eq_true, decide_eq_true_eq, between_iff, portCount, portMask] at h
  · obtain ⟨⟨rfl, rfl⟩, rfl⟩ := h
    exact .finish
  · obtain ⟨⟨ha, hb⟩, rfl⟩ := h
    exact .motor (by omega) (by omega) (by omega) (by omega)
  · obtain ⟨⟨-, rfl⟩, rfl⟩ := h
    exact .delay
  · obtain ⟨hp, rfl⟩ := h
    exact .wait (sensorPredicate_of_predicate hp)
  · obtain ⟨⟨ha, rfl⟩, rfl⟩ := h
    exact .jump (by omega) (by omega)
  · obtain ⟨hp, hc⟩ := h
    exact .branch (sensorPredicate_of_predicate hp) (by omega) (by omega)
  · exact .move (by omega) (by omega) (by omega) (by omega) (by omega) (by omega)
  · exact .arm (by omega) (by omega) (by omega) (by omega) (by omega) (by omega)
  · obtain ⟨⟨ha, rfl⟩, rfl⟩ := h
    exact .await (by omega) (by omega)

/-- The rows `code[0 .. count)` form a program: every row is valid and the last one ends it. -/
structure WellFormed (code : List Instruction) (count : Nat) : Prop where
  pos : 0 < count
  rows : ∀ i, i < count → RowOk count (code.getD i ⟨0, 0, 0, 0⟩)
  last : (code.getD (count - 1) ⟨0, 0, 0, 0⟩).op = 0

theorem wellFormed_of_validate {rows : List Instruction} (h : ¬ validate (some rows) < 0) :
    WellFormed rows rows.length := by
  simp only [validate, EINVAL] at h
  split at h
  · omega
  · next hlen =>
    split at h
    · next hall =>
      split at h
      · next hlast =>
        refine ⟨by omega, ?_, hlast⟩
        intro i hi
        rw [getD_eq_getElem _ _ hi]
        exact rowOk_of_rowValid (all_eq_true.mp hall _ (getElem_mem hi))
      · omega
    · omega

theorem WellFormed.next_lt {code : List Instruction} {count pc : Nat} (wf : WellFormed code count)
    (hpc : pc < count) (hop : (code.getD pc ⟨0, 0, 0, 0⟩).op ≠ 0) : pc + 1 < count := by
  rcases Nat.lt_or_ge (pc + 1) count with h | h
  · exact h
  · have : pc = count - 1 := by omega
    rw [this] at hop
    exact absurd wf.last hop

/-! ## What may stand in the log -/

/-- A callback invocation within the ranges the devices accept. -/
def IoCall.Ok : IoCall → Prop
  | .motor port speedDps => port < portCount ∧ -1110 ≤ speedDps ∧ speedDps ≤ 1110
  | .position port degrees speedDps =>
      port < portCount ∧ -36000 ≤ degrees ∧ degrees ≤ 36000 ∧ 1 ≤ speedDps ∧ speedDps ≤ 1110
  | .done port => port < portCount
  | .brake port => port < portCount
  | .sensor selector => sensorPredicate selector ≠ 0

/-- A fetch reads a row of the program with one of the nine opcodes, and `-EPROTO` is not raised. -/
def Event.Ok : Event → Prop
  | .call c _ => c.Ok
  | .fetch pc count op => pc < count ∧ ∃ o, op = some o ∧ 0 ≤ o ∧ o ≤ 8
  | .protocolFault => False

def Event.drives (port : Nat) : Event → Prop
  | .call (.motor q _) _ => q = port
  | .call (.position q _ _) _ => q = port
  | _ => False

def Event.brakes (port : Nat) : Event → Prop
  | .call (.brake q) _ => q = port
  | _ => False

namespace World

def Ok (w : World) : Prop := ∀ e ∈ w.log, e.Ok

/-- The port was driven and not braked since. -/
def Unbraked (w : World) (port : Nat) : Prop :=
  Outstanding (Event.drives port) (Event.brakes port) w.log

def AllBraked (w : World) : Prop := ∀ port, ¬ w.Unbraked port

variable {w : World}

@[simp] theorem ok_observe {e : Event} : (w.observe e).Ok ↔ w.Ok ∧ e.Ok := by
  simp only [Ok, log_observe, mem_append, mem_singleton]
  exact ⟨fun h => ⟨fun x hx => h x (.inl hx), h e (.inr rfl)⟩,
    fun h x hx => hx.elim (h.1 x) (fun hx => hx ▸ h.2)⟩

@[simp] theorem ok_call {c : IoCall} : (w.call c).2.Ok ↔ w.Ok ∧ c.Ok := ok_observe

@[simp] theorem unbraked_observe {e : Event} {port : Nat} :
    (w.observe e).Unbraked port ↔ e.drives port ∨ (w.Unbraked port ∧ ¬ e.brakes port) :=
  Outstanding.concat

@[simp] theorem unbraked_call {c : IoCall} {port : Nat} :
    (w.call c).2.Unbraked port ↔ (Event.call c (w.call c).1).drives port ∨
      (w.Unbraked port ∧ ¬ (Event.call c (w.call c).1).brakes port) :=
  unbraked_observe

end World

/-- Every port still in motion is in the owned set. -/
def Held (p : Program) (w : World) : Prop :=
  ∀ port, w.Unbraked port → port < portCount ∧ p.owned.testBit port = true

/-- The state between two calls of the interpreter's entry points. -/
structure Inv (s : Program × World) : Prop where
  code : WellFormed s.1.code s.1.count
  log : s.2.Ok
  held : Held s.1 s.2
  idle : s.1.state ≠ .running → s.2.AllBraked
  pc : s.1.state = .running → s.1.pc < s.1.count
  moving : s.1.moving < 6
  ending : s.1.ending = true → s.2.AllBraked

/-- The state inside a tick: running, but the program may already be ending. -/
structure Running (p : Program) (w : World) : Prop where
  code : WellFormed p.code p.count
  log : w.Ok
  held : Held p w
  running : p.state = .running
  pc : p.pc < p.count
  moving : p.moving < 6
  ending : p.ending = true → w.AllBraked

/-- The state inside the interpreter loop. -/
structure Going (p : Program) (w : World) : Prop extends Running p w where
  notEnding : p.ending = false

theorem Running.inv {p : Program} {w : World} (g : Running p w) : Inv (p, w) where
  code := g.code
  log := g.log
  held := g.held
  idle h := absurd g.running h
  pc _ := g.pc
  moving := g.moving
  ending := g.ending

/-!
## The stages of a tick keep the invariant

One lemma per function of `program.c`, in call order: `brake_owned` leaves no owned port in motion,
`fault` and `stop` therefore none at all, one row of the interpreter keeps `Going` or ends the tick
in `Inv`, and so do the loop and the stages in front of it.
-/

/-! ### Braking -/

/-- Braking rounds call only ports of the list, brake the owned ones among them and set nothing in
motion. -/
theorem brakePorts_spec (p : Program) (ports : List Nat) (acc : Int × World)
    (hports : ∀ q ∈ ports, q < portCount) (hok : acc.2.Ok) :
    (ports.foldl (brakePort p) acc).2.Ok ∧
      ∀ port, (ports.foldl (brakePort p) acc).2.Unbraked port →
        acc.2.Unbraked port ∧ ¬ (port ∈ ports ∧ p.owned.testBit port = true) := by
  induction ports generalizing acc with
  | nil => exact ⟨hok, fun port h => ⟨h, by simp⟩⟩
  | cons q ports ih =>
    have hq : q < portCount := hports q mem_cons_self
    have hround : (brakePort p acc q).2.Ok ∧ ∀ port, (brakePort p acc q).2.Unbraked port →
        acc.2.Unbraked port ∧ ¬ (port = q ∧ p.owned.testBit port = true) := by
      unfold brakePort
      split
      · refine ⟨World.ok_call.mpr ⟨hok, hq⟩, ?_⟩
        intro port h
        rcases World.unbraked_call.mp h with h | ⟨h, hne⟩
        · exact absurd h (by simp [Event.drives])
        · exact ⟨h, fun h' => hne h'.1.symm⟩
      · next hbit =>
        refine ⟨hok, fun port h => ⟨h, ?_⟩⟩
        rintro ⟨rfl, h'⟩
        exact hbit h'
    -- A port unbraked in the end was so after this round and after all later ones.
    obtain ⟨hok', hun⟩ := ih _ (fun x hx => hports x (mem_cons_of_mem q hx)) hround.1
    refine ⟨hok', fun port h => ?_⟩
    obtain ⟨h1, h2⟩ := hun port h
    obtain ⟨h3, h4⟩ := hround.2 port h1
    refine ⟨h3, ?_⟩
    rintro ⟨hmem, hbit⟩
    rcases mem_cons.mp hmem with rfl | hmem
    · exact h4 ⟨rfl, hbit⟩
    · exact h2 ⟨hmem, hbit⟩

variable {p : Program} {w : World}

theorem brakeOwned_ok (hok : w.Ok) : (brakeOwned p w).2.Ok :=
  (brakePorts_spec p _ (0, w) (fun _ hq => mem_range.mp hq) hok).1

/-- **`brake_owned` leaves nothing in motion**, whatever the brakes answer. -/
theorem brakeOwned_allBraked (hok : w.Ok) (held : Held p w) :
    (brakeOwned p w).2.AllBraked := by
  intro port h
  obtain ⟨hun, hno⟩ :=
    (brakePorts_spec p _ (0, w) (fun _ hq => mem_range.mp hq) hok).2 port h
  obtain ⟨hlt, hbit⟩ := held port hun
  exact hno ⟨mem_range.mpr hlt, hbit⟩

theorem World.AllBraked.held (h : w.AllBraked) : Held p w :=
  fun port hun => absurd hun (h port)

/-- **A faulted program is at rest.** -/
theorem fault_inv (e : Int) (code : WellFormed p.code p.count)
    (hok : w.Ok) (held : Held p w) (hm : p.moving < 6) : Inv (fault p e w) where
  code := code
  log := brakeOwned_ok hok
  held := (brakeOwned_allBraked hok held).held
  idle _ := brakeOwned_allBraked hok held
  pc h := by simp [fault] at h
  moving := hm
  ending _ := brakeOwned_allBraked hok held

theorem Running.fault (g : Running p w) (e : Int) : Inv (fault p e w) :=
  fault_inv e g.code g.log g.held g.moving

/-! ### Asking -/

/-- An event that neither drives nor brakes a port. -/
def Event.Quiet (e : Event) : Prop := ∀ port, ¬ e.drives port ∧ ¬ e.brakes port

theorem World.unbraked_quiet {e : Event} (hq : e.Quiet) {port : Nat} :
    (w.observe e).Unbraked port ↔ w.Unbraked port := by
  rw [World.unbraked_observe]
  exact ⟨fun h => h.elim (fun h => absurd h (hq port).1) (·.1), fun h => .inr ⟨h, (hq port).2⟩⟩

theorem Running.quiet {e : Event} (g : Running p w) (hok : e.Ok)
    (hq : e.Quiet) : Running p (w.observe e) :=
  { g with
    log := World.ok_observe.mpr ⟨g.log, hok⟩
    held := fun port h => g.held port ((World.unbraked_quiet hq).mp h)
    ending := fun h port hun => g.ending h port ((World.unbraked_quiet hq).mp hun) }

theorem Going.quiet {e : Event} (g : Going p w) (hok : e.Ok)
    (hq : e.Quiet) : Going p (w.observe e) :=
  { g.toRunning.quiet hok hq with notEnding := g.notEnding }

theorem quiet_done (port : Nat) (r : IoResult) : (Event.call (.done port) r).Quiet :=
  fun _ => ⟨id, id⟩

theorem Running.pollDone (g : Running p w) (mask : Nat)
    {ports : List Nat} (hports : ∀ q ∈ ports, q < portCount) :
    Running p (pollDone mask ports w).2 := by
  induction ports generalizing w with
  | nil => exact g
  | cons q ports ih =>
    have hrest : ∀ x ∈ ports, x < portCount := fun x hx => hports x (mem_cons_of_mem q hx)
    have hcall : Running p (w.call (.done q)).2 :=
      g.quiet (hports q mem_cons_self) (quiet_done q _)
    simp only [HubProgram.pollDone]
    split
    · split
      · exact hcall
      · exact ih hcall hrest
    · exact ih g hrest

theorem condition_world (selector threshold : Int) (w : World) :
    (condition selector threshold w).2 = (w.call (.sensor (toUnsigned selector))).2 := by
  simp only [condition]
  split
  · rfl
  · split <;> rfl

theorem Going.condition (g : Going p w) {selector : Int}
    (hs : sensorPredicate (toUnsigned selector) ≠ 0) (threshold : Int) :
    Going p (condition selector threshold w).2 := by
  rw [condition_world]
  exact g.quiet hs (fun _ => ⟨id, id⟩)

/-! ### Driving a port -/

theorem toUnsigned_lt {a : Int} {n : Nat} (h0 : 0 ≤ a) (h : a < n) : toUnsigned a < n := by
  unfold toUnsigned
  omega

theorem testBit_or_shiftLeft (owned port q : Nat) :
    (owned ||| 1 <<< port).testBit q = (owned.testBit q || decide (q = port)) := by
  rw [Nat.testBit_or, Nat.shiftLeft_eq, Nat.one_mul, Nat.testBit_two_pow]
  simp only [eq_comm]

/-- **Ownership is recorded before the call**: after a motor or position call on a port, that port
is held whatever the callback answered. -/
theorem Going.drive (g : Going p w) {a : Int} (h0 : 0 ≤ a) (h6 : a < 6) {c : IoCall} (hc : c.Ok)
    (hdrive : ∀ port r, (Event.call c r).drives port → toUnsigned a = port) :
    Going (p.own a) (w.call c).2 := by
  have hport : toUnsigned a < portCount := toUnsigned_lt h0 h6
  refine { g with
    log := World.ok_call.mpr ⟨g.log, hc⟩
    held := ?_
    ending := fun h => absurd (g.notEnding.symm.trans h) (by simp) }
  intro port h
  have hbit : (p.own a).owned.testBit port =
      (p.owned.testBit port || decide (port = toUnsigned a)) :=
    testBit_or_shiftLeft _ _ _
  rcases World.unbraked_call.mp h with h | ⟨h, -⟩
  · obtain rfl := hdrive port _ h
    exact ⟨hport, by simp [hbit]⟩
  · obtain ⟨hlt, hb⟩ := g.held port h
    exact ⟨hlt, by simp [hbit, hb]⟩

theorem Going.jump (g : Going p w) {pc : Nat} (hpc : pc < p.count) :
    Going { p with pc := pc } w :=
  { g with pc := hpc }

/-! ### One row -/

/-- What the end of the `switch` must satisfy. -/
def Control.Keeps : Control → Prop
  | .ret r => Inv r
  | .next p w => Going p w

/-- **One row**, by its opcode: it keeps the loop invariant or ends the tick in the outer one. -/
theorem execute_spec (now : Nat) {ins : Instruction} (g : Going p w)
    (hrow : RowOk p.count ins) (hnext : ins.op ≠ 0 → p.pc + 1 < p.count) :
    (execute now p ins w).Keeps := by
  cases hrow with
  | finish =>
    have hb : (brakeOwned p w).2.AllBraked := brakeOwned_allBraked g.log g.held
    simp only [execute]
    split
    · exact fault_inv _ g.code (brakeOwned_ok g.log) hb.held g.moving
    · exact
        { code := g.code, log := brakeOwned_ok g.log, held := hb.held, idle := fun _ => hb
          pc := fun _ => g.pc, moving := g.moving, ending := fun _ => hb }
  | motor h0 h6 hlo hhi =>
    have g' := g.drive h0 h6 (c := .motor (toUnsigned _) _)
      ⟨toUnsigned_lt h0 h6, hlo, hhi⟩ (fun _ _ h => h)
    simp only [execute]
    split
    · exact g'.fault _
    · exact g'.jump (hnext (by simp))
  | delay =>
    exact Running.inv { g with pc := hnext (by simp) }
  | wait hs =>
    have g' := g.condition hs
    simp only [execute]
    split
    · exact (g' _).fault _
    · split
      · exact (g' _).inv
      · exact (g' _).jump (hnext (by simp))
  | jump h0 hlt =>
    exact g.jump (toUnsigned_lt h0 hlt)
  | branch hs h0 hlt =>
    have g' := g.condition hs
    simp only [execute]
    split
    · exact (g' _).fault _
    · refine (g' _).jump ?_
      split
      · exact toUnsigned_lt h0 hlt
      · exact hnext (by simp)
  | move h0 h6 hdlo hdhi hvlo hvhi =>
    have g' := g.drive h0 h6 (c := .position (toUnsigned _) _ _)
      ⟨toUnsigned_lt h0 h6, hdlo, hdhi, hvlo, hvhi⟩ (fun _ _ h => h)
    simp only [execute]
    split
    · exact g'.fault _
    · exact Running.inv { g' with pc := hnext (by simp), moving := h6 }
  | arm h0 h6 hdlo hdhi hvlo hvhi =>
    have g' := g.drive h0 h6 (c := .position (toUnsigned _) _ _)
      ⟨toUnsigned_lt h0 h6, hdlo, hdhi, hvlo, hvhi⟩ (fun _ _ h => h)
    simp only [execute]
    split
    · exact g'.fault _
    · exact g'.jump (hnext (by simp))
  | await _ _ =>
    exact Running.inv { g with pc := hnext (by simp) }

/-! ### The loop and the stages in front of it -/

theorem RowOk.op_range {count : Nat} {ins : Instruction} (h : RowOk count ins) :
    0 ≤ ins.op ∧ ins.op ≤ 8 := by
  cases h <;> simp

/-- **The loop**, by induction on its budget: every fetch is inside the program, so neither of its
`-EPROTO` exits is taken. -/
theorem interpret_inv (now budget : Nat) (p : Program) (w : World) (g : Going p w) :
    Inv (interpret now budget p w) := by
  induction budget generalizing p w with
  | zero => exact g.inv
  | succ budget ih =>
    have hfetched : p.fetched = some (p.code.getD p.pc ⟨0, 0, 0, 0⟩) :=
      if_neg (Nat.not_le.mpr g.pc)
    have hrow := g.code.rows p.pc g.pc
    have g' : Going p (w.observe (.fetch p.pc p.count (p.fetched.map (·.op)))) :=
      g.quiet ⟨g.pc, _, by rw [hfetched]; rfl, hrow.op_range⟩ (fun _ => ⟨id, id⟩)
    have hkeeps := execute_spec now g' hrow (g.code.next_lt g.pc)
    rw [interpret]
    simp only [hfetched, Option.map_some] at hkeeps ⊢
    split
    · next r heq =>
      rw [heq] at hkeeps
      exact hkeeps
    · next p' w' heq =>
      rw [heq] at hkeeps
      exact ih p' w' hkeeps

theorem range_lt : ∀ q ∈ List.range portCount, q < portCount :=
  fun _ hq => mem_range.mp hq

theorem tickEnding_inv {now : Nat} (g : Running p w) :
    Inv (tickEnding p now w) := by
  unfold tickEnding
  split
  · next hending =>
    have g' := g.pollDone p.owned range_lt
    split
    · next rc w' heq =>
      rw [heq] at g'
      split
      · exact g'.fault rc
      · exact g'.inv
    · next w' heq =>
      rw [heq] at g'
      -- An ending program has braked its ports before, and polling drives none.
      have hb : w'.AllBraked := g'.ending hending
      exact
        { code := g'.code, log := g'.log, held := hb.held, idle := fun _ => hb
          pc := fun h => by simp at h
          moving := g'.moving, ending := fun _ => hb }
  · next hending =>
    exact interpret_inv now budget p w { g with notEnding := by simpa using hending }

theorem tickAwaiting_inv {now : Nat} (g : Running p w) :
    Inv (tickAwaiting p now w) := by
  unfold tickAwaiting
  split
  · have g' := g.pollDone p.awaiting range_lt
    split
    · next rc w' heq =>
      rw [heq] at g'
      split
      · exact g'.fault rc
      · exact g'.inv
    · next w' heq =>
      rw [heq] at g'
      exact tickEnding_inv { g' with }
  · exact tickEnding_inv g

theorem tickMoving_inv {now : Nat} (g : Running p w) :
    Inv (tickMoving p now w) := by
  unfold tickMoving
  split
  · next h0 =>
    have g' : Running p (w.call (.done (toUnsigned p.moving))).2 :=
      g.quiet (toUnsigned_lt h0 g.moving) (quiet_done _ _)
    simp only
    split
    · exact g'.fault _
    · split
      · exact g'.inv
      · exact tickAwaiting_inv { g' with moving := by simp }
  · exact tickAwaiting_inv g

end Brickwright.HubProgram
