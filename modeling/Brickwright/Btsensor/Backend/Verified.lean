import Brickwright.Btsensor.Backend.Owners

/-!
# Motor ownership over whole runs

The arrays are read against the history of requests (`Inv`): the token of a port was given out with
the last command for it, and tokens are numbered in the order of the commands that got one.

* `motor_ownership` — one owner at most, tokens that are not mistaken for one another, ends that do
  nothing for a command that was superseded, and stops for exactly the ports of a link that is gone.
* `token_comes_back` — after 4294967295 commands a token is given out again.
-/

namespace Brickwright.Btsensor.Backend

open Calls
open List

variable {σ : Type*} {env : IoCall → σ → IoResult × σ}

/-- The backend, and a system that answers it. -/
def machine (env : IoCall → σ → IoResult × σ) :
    Machine (State × σ) Request (Answer × List (IoCall × IoResult)) :=
  serving State.serve env

/-! ## The history -/

def issues (e : Entry) : Bool :=
  match e.1 with
  | .operation _ (some op) _ => op.kind = .motor ∧ e.2.1.rc = 0 ∧ op.speed ≠ 0
  | .setMotorOwner link port running => link ≤ linkBle ∧ port < portCount ∧ running = true
  | _ => false

variable {e : Entry}

theorem issues_iff : issues e = true ↔ ∃ link port, Commands e link port true := by
  obtain ⟨request, answer, calls⟩ := e
  cases request with
  | operation link operation tagged =>
    cases operation with
    | none => simp [issues, Commands]
    | some op => simp [issues, Commands]
  | setMotorOwner link port running => simp [issues, Commands]
  | _ => simp [issues, Commands]

theorem Commands.unique {l l' p p' : Nat} {r r' : Bool} (h : Commands e l p r)
    (h' : Commands e l' p' r') : l = l' ∧ p = p' ∧ r = r' := by
  obtain ⟨request, answer, calls⟩ := e
  cases request with
  | operation link operation tagged =>
    cases operation with
    | none => exact absurd h id
    | some op =>
      obtain ⟨-, -, rfl, rfl, rfl⟩ := h
      obtain ⟨-, -, rfl, rfl, rfl⟩ := h'
      exact ⟨rfl, rfl, rfl⟩
  | setMotorOwner link port running =>
    obtain ⟨-, -, rfl, rfl, rfl⟩ := h
    obtain ⟨-, -, rfl, rfl, rfl⟩ := h'
    exact ⟨rfl, rfl, rfl⟩
  | _ => exact absurd h id

def issued (h : List Entry) : Nat := h.countP issues

@[simp] theorem issued_append (h h' : List Entry) : issued (h ++ h') = issued h + issued h' :=
  countP_append

theorem issued_singleton (e : Entry) : issued [e] = if issues e then 1 else 0 := by
  simp [issued, countP_cons]

/-- `e` commanded the port for the link, and nothing has commanded the port since. -/
structure LastCommand (h : List Entry) (link port : Nat) (h₁ : List Entry) (e : Entry)
    (h₂ : List Entry) : Prop where
  split : h = h₁ ++ e :: h₂
  commands : Commands e link port true
  last : ∀ e' ∈ h₂, ∀ l r, ¬ Commands e' l port r

theorem LastCommand.concat {h h₁ h₂ : List Entry} {e e' : Entry} {link port : Nat}
    (hlast : LastCommand h link port h₁ e h₂) (hnot : ∀ l r, ¬ Commands e' l port r) :
    LastCommand (h ++ [e']) link port h₁ e (h₂ ++ [e']) where
  split := by rw [hlast.split, append_assoc, cons_append]
  commands := hlast.commands
  last x hx := by
    rcases mem_append.mp hx with hx | hx
    · exact hlast.last x hx
    · rw [mem_singleton.mp hx]
      exact hnot

/-- What every run keeps of its history and the arrays. -/
structure Inv (h : List Entry) (owners : Owners) : Prop where
  sound : owners.Sound
  small : ∀ l p, owners.commanded l p = true → p < portCount
  next : owners.nextOwnerToken = tokenAt (issued h)
  tokens : ∀ h₁ e h₂, h = h₁ ++ e :: h₂ → ∀ token, e.2.1.token = some token → token ≠ 0 →
    issues e = true ∧ token = tokenAt (issued h₁ + 1)
  owner : ∀ l p, owners.commanded l p = true → ∃ h₁ e h₂,
    LastCommand h l p h₁ e h₂ ∧ owners.ownerToken p = tokenAt (issued h₁ + 1)

theorem inv_boot : Inv [] boot.owners := by
  refine ⟨⟨fun _ _ _ h => ?_, fun p => ?_⟩, fun _ _ h => ?_, rfl, fun h₁ e h₂ h => ?_,
    fun _ _ h => ?_⟩
  · cases h
  · simp [boot]
  · cases h
  · simp at h
  · cases h

theorem tokens_concat {h : List Entry} {owners : Owners} (hinv : Inv h owners)
    (he : ∀ token, e.2.1.token = some token → token ≠ 0 →
      issues e = true ∧ token = tokenAt (issued h + 1)) :
    ∀ h₁ x h₂, h ++ [e] = h₁ ++ x :: h₂ → ∀ token, x.2.1.token = some token → token ≠ 0 →
      issues x = true ∧ token = tokenAt (issued h₁ + 1) := by
  intro h₁ x h₂ hsplit
  rcases eq_nil_or_concat h₂ with rfl | ⟨h₂, y, rfl⟩
  · obtain ⟨rfl, hx⟩ := append_inj' hsplit rfl
    obtain rfl := singleton_inj.mp hx
    exact he
  · rw [concat_eq_append, ← cons_append, ← append_assoc] at hsplit
    obtain ⟨rfl, -⟩ := append_inj' hsplit rfl
    exact hinv.tokens h₁ x h₂ rfl

/-- A port has the token of the last command that ran it, after each call. -/
theorem inv_step {h : List Entry} {owners owners' : Owners} (hinv : Inv h owners)
    (hmoves : Moves owners e owners') : Inv (h ++ [e]) owners' := by
  have hsound := hmoves.sound hinv.sound
  cases hmoves with
  | commands link port running hport hcommands htoken howners =>
    cases running with
    | false =>
      have hissues : issues e = false := by
        rw [Bool.eq_false_iff, ne_eq, issues_iff]
        rintro ⟨l, p, hl⟩
        exact absurd (hcommands.unique hl).2.2 Bool.false_ne_true
      subst howners
      have hcommanded (l p : Nat) (hl : (owners.release port).commanded l p = true) :
          p ≠ port ∧ owners.commanded l p = true := by
        simpa using hl
      refine ⟨hsound, fun l p hl => ?_, ?_, ?_, fun l p hl => ?_⟩
      · exact hinv.small l p (hcommanded l p hl).2
      · simp [hinv.next, issued_singleton, hissues]
      · refine tokens_concat hinv fun token ht hne => ?_
        exact absurd (htoken token (Option.mem_def.mpr ht)) hne
      · obtain ⟨hp, hl⟩ := hcommanded l p hl
        obtain ⟨h₁, x, h₂, hlast, htoken'⟩ := hinv.owner l p hl
        refine ⟨h₁, x, h₂ ++ [e], hlast.concat fun l' r hc => ?_, ?_⟩
        · exact hp (hcommands.unique hc).2.1.symm
        · simpa [hp] using htoken'
    | true =>
      have hissues : issues e = true := issues_iff.mpr ⟨link, port, hcommands⟩
      obtain ⟨hfirst, hnext, hcommanded, howner⟩ := owners.setMotorOwner_true link port
      rw [hinv.next, nextToken_tokenAt] at hfirst hnext howner
      subst howners
      refine ⟨hsound, fun l p hl => ?_, ?_, ?_, fun l p hl => ?_⟩
      · rw [hcommanded] at hl
        split at hl
        · next hp => rw [hp]; exact hport
        · exact hinv.small l p hl
      · rw [hnext, issued_append, issued_singleton, if_pos hissues]
      · refine tokens_concat hinv fun token ht _ => ⟨hissues, ?_⟩
        rw [htoken token (Option.mem_def.mpr ht), hfirst]
      · rw [hcommanded] at hl
        split at hl
        · next hp =>
          obtain rfl := of_decide_eq_true hl
          refine ⟨h, e, [], ⟨rfl, hp ▸ hcommands, fun _ hx => nomatch hx⟩, ?_⟩
          rw [howner, if_pos hp]
        · next hp =>
          obtain ⟨h₁, x, h₂, hlast, htoken'⟩ := hinv.owner l p hl
          refine ⟨h₁, x, h₂ ++ [e], hlast.concat fun l' r hc => ?_, ?_⟩
          · exact hp (hcommands.unique hc).2.1.symm
          · rw [howner, if_neg hp, htoken']
  | releases hnot htoken hreleases =>
    have hissues : issues e = false := by
      rw [Bool.eq_false_iff, ne_eq, issues_iff]
      rintro ⟨l, p, hl⟩
      exact hnot l p true hl
    -- a port that is still commanded has kept its token
    have hcommanded (l p : Nat) (hl : owners'.commanded l p = true) :
        owners.commanded l p = true ∧ owners'.ownerToken p = owners.ownerToken p := by
      rcases hreleases.port p with ⟨hsame, htoken'⟩ | ⟨hnone, -⟩
      · rw [← hsame]
        exact ⟨hl, htoken'⟩
      · rw [hnone] at hl
        cases hl
    refine ⟨hsound, fun l p hl => hinv.small l p (hcommanded l p hl).1, ?_, ?_, fun l p hl => ?_⟩
    · simp [hreleases.next, hinv.next, issued_singleton, hissues]
    · refine tokens_concat hinv fun token ht _ => ?_
      rw [htoken] at ht
      cases ht
    · obtain ⟨hl, htoken'⟩ := hcommanded l p hl
      obtain ⟨h₁, x, h₂, hlast, hx⟩ := hinv.owner l p hl
      exact ⟨h₁, x, h₂ ++ [e], hlast.concat fun l' r => hnot l' p r, htoken'.trans hx⟩

theorem inv_run (env : IoCall → σ → IoResult × σ) (context : σ) (requests : List Request) :
    Inv ((machine env).trace (boot, context) requests)
      ((machine env).run (boot, context) requests).1.owners := by
  have hstep (h : List Entry) (s : State) (request : Request) (hinv : Inv h s.owners) :
      (s.serve request).Ensures fun r calls => Inv (h ++ [(request, r.1, calls)]) r.2.owners := by
    exact (serve_moves hinv.sound request).mono fun r calls hmoves => inv_step hinv hmoves
  exact serving_invariant hstep inv_boot context requests

/-! ## Ownership -/

/-- The port has been commanded in this part of the history. -/
def Superseded (h : List Entry) (port : Nat) : Prop := ∃ e ∈ h, ∃ l r, Commands e l port r

theorem Inv.token_ne {h h₁ h₂ : List Entry} {owners : Owners} {token : UInt32}
    (hinv : Inv h owners) (hsplit : h = h₁ ++ e :: h₂) (htoken : e.2.1.token = some token)
    (hne : token ≠ 0) (hapart : issued h₂ < tokenCount) {p : Nat} (hsuperseded : Superseded h₂ p) :
    owners.ownerToken p ≠ token := by
  intro howner
  obtain ⟨l, hl⟩ := (hinv.sound.token p).mp (howner ▸ hne)
  obtain ⟨h₁', e', h₂', hlast, hnumber⟩ := hinv.owner l p hl
  obtain ⟨hissues, hnumber'⟩ := hinv.tokens h₁ e h₂ hsplit token htoken hne
  obtain ⟨x, hx, l', r, hcommands⟩ := hsuperseded
  have hsame : tokenAt (issued h₁ + 1) = tokenAt (issued h₁' + 1) := by
    rw [← hnumber', ← howner, hnumber]
  -- the last command for the port stands behind `e`
  rcases append_eq_append_iff.mp (hsplit.symm.trans hlast.split) with
    ⟨as, rfl, has⟩ | ⟨bs, rfl, hbs⟩
  · cases as with
    | nil =>
      obtain ⟨rfl, rfl⟩ := List.cons.inj has
      exact hlast.last x hx l' r hcommands
    | cons a as =>
      rw [cons_append] at has
      obtain ⟨rfl, rfl⟩ := List.cons.inj has
      simp only [issued_append, append_cons h₁ e as, issued_singleton, hissues, if_true]
        at hsame
      have hissued : issued (as ++ e' :: h₂') = issued as + issued (e' :: h₂') := issued_append _ _
      have hissues' : 1 ≤ issued (e' :: h₂') :=
        one_le_countP_iff.mpr ⟨e', by simp, issues_iff.mpr ⟨l, p, hlast.commands⟩⟩
      have heq := tokenAt_inj hsame (by omega) (by omega)
      omega
  · have hmem : x ∈ h₂' := by
      cases bs with
      | nil =>
        obtain ⟨rfl, rfl⟩ := List.cons.inj hbs
        exact hx
      | cons b bs =>
        obtain ⟨rfl, rfl⟩ := List.cons.inj hbs
        simp [hx]
    exact hlast.last x hmem l' r hcommands

theorem endMotorIfOwned_stale {s : State} {link port : Nat} {token : UInt32} (endState : UInt8)
    (h : s.owners.ownerToken port ≠ token) (context : σ) :
    ((s.endMotorIfOwned link port token endState).exec env context).calls = [] := by
  rw [State.endMotorIfOwned]
  split
  · rfl
  · rw [if_pos (.inr h)]
    rfl

/-- **Motor ownership** after every run, whatever the system answers. -/
structure Ownership (env : IoCall → σ → IoResult × σ) (h : List Entry) (s : State × σ) : Prop where
  /-- At most one link commands a port. -/
  alone : ∀ l l' p, s.1.owners.commanded l p = true → s.1.owners.commanded l' p = true → l = l'
  /-- A port has a token exactly when a link commands it. -/
  token : ∀ p, s.1.owners.ownerToken p ≠ 0 ↔ ∃ l, s.1.owners.commanded l p = true
  /-- The token of a port commanded since is not that of an earlier command. -/
  fresh : ∀ h₁ e h₂ token, h = h₁ ++ e :: h₂ → e.2.1.token = some token → token ≠ 0 →
    issued h₂ < tokenCount → ∀ p, Superseded h₂ p → s.1.owners.ownerToken p ≠ token
  /-- With such a token an end does nothing. -/
  superseded : ∀ h₁ e h₂ token, h = h₁ ++ e :: h₂ → e.2.1.token = some token → token ≠ 0 →
    issued h₂ < tokenCount → ∀ p, Superseded h₂ p → ∀ link endState,
      ((machine env).step s (.endMotorIfOwned link p token endState)).2.2 = []
  /-- A disconnect or a reconnect stops the ports of its link, each once, and calls nothing else;
  the last command for each was that link's. -/
  stops : ∀ link connected generation, Ends s.1.owners link connected generation →
    let answer := ((machine env).step s (.linkState link connected generation)).2.1
    ((machine env).step s (.linkState link connected generation)).2.2 =
        ((stopPorts s.1.ports answer.stops).exec env s.2).calls ∧
      answer.stops.Nodup ∧ (∀ p, p ∈ answer.stops ↔ s.1.owners.commanded link p = true) ∧
      ∀ p ∈ answer.stops, ∃ h₁ e h₂, LastCommand h link p h₁ e h₂

/-- **Motor ownership.** -/
theorem motor_ownership (env : IoCall → σ → IoResult × σ) (context : σ) (requests : List Request) :
    Ownership env ((machine env).trace (boot, context) requests)
      ((machine env).run (boot, context) requests) := by
  have hinv := inv_run env context requests
  generalize (machine env).trace (boot, context) requests = h at hinv ⊢
  generalize (machine env).run (boot, context) requests = s at hinv ⊢
  refine ⟨hinv.sound.alone, hinv.sound.token, ?_, ?_, ?_⟩
  · intro h₁ e h₂ token hsplit htoken hne hapart p hsuperseded
    exact hinv.token_ne hsplit htoken hne hapart hsuperseded
  · intro h₁ e h₂ token hsplit htoken hne hapart p hsuperseded link endState
    exact endMotorIfOwned_stale endState (hinv.token_ne hsplit htoken hne hapart hsuperseded) s.2
  · intro link connected generation hends
    obtain ⟨hstops, -, -⟩ := (linkState_spec s.1 link connected generation).exec env s.2
    rw [if_pos hends] at hstops
    have hmem (p : Nat) : p ∈ owned s.1.owners link ↔ s.1.owners.commanded link p = true := by
      rw [owned, mem_filter, mem_range]
      exact and_iff_right_of_imp (hinv.small link p)
    simp only [machine, serving, State.serve, hstops]
    refine ⟨calls_linkState hends env s.2, nodup_range.filter _, hmem, fun p hp => ?_⟩
    obtain ⟨h₁, e, h₂, hlast, -⟩ := hinv.owner link p ((hmem p).mp hp)
    exact ⟨h₁, e, h₂, hlast⟩

/-! ## A token that comes back -/

/-- A system in which all goes well: every port has a motor. -/
def favourable : IoCall → Unit → IoResult × Unit
  | .openPort _, _ => ({ rc := 3 }, ())
  | _, _ =>
    ({ rc := 0, deviceType := 1, flags := 1, lump := { Lump.DeviceInfo.zero with typeId := 48 } },
      ())

theorem favours_favourable (c : IoCall) (context : Unit) :
    Favours (c, (favourable c context).1) := by
  cases c with
  | ioctl fd command =>
    cases command with
    | getDeviceInfo =>
      refine ⟨Int.le_refl 0, ?_, .inl rfl⟩
      show (1 : UInt8) &&& 1 ≠ 0
      decide
    | lumpGetInfo => exact ⟨Int.le_refl 0, .inl rfl⟩
    | pwmGetStatus =>
      refine ⟨Int.le_refl 0, ?_⟩
      show (0 : UInt8) &&& 1 = 0
      decide
    | _ => rfl
  | openPort port => exact (by decide : (0 : Int) ≤ 3)
  | _ => rfl

/-- The motor of a port runs at half its speed. -/
def runMotor (link : Nat) (tagged : Bool) : Request :=
  .operation link (some { kind := .motor, port := 0, speed := 50 }) tagged

theorem commands_runMotor (s : State × Unit) (link : Nat) (hlink : link ≤ linkBle) (tagged : Bool) :
    Commands (runMotor link tagged, ((machine favourable).step s (runMotor link tagged)).2) link 0
      true := by
  let operation : Operation := { kind := .motor, port := 0, speed := 50 }
  have hok := (operationForLink_ok hlink (rfl : operation.kind = .motor) tagged :
    (s.1.operationForLink link (some operation) tagged).Ensures _).exec favourable s.2
  refine ⟨rfl, hok.mpr ⟨by decide, ?_⟩, rfl, rfl, by decide⟩
  exact forall_calls_exec favourable favours_favourable _ s.2

theorem issued_runs (s : State × Unit) (n : Nat) :
    issued ((machine favourable).trace s (List.replicate n (runMotor 0 false))) = n := by
  induction n generalizing s with
  | zero => rfl
  | succ n ih =>
    have hcommands := commands_runMotor s 0 (by decide) false
    rw [replicate_succ, Machine.trace_cons, issued, countP_cons,
      if_pos (issues_iff.mpr ⟨0, 0, hcommands⟩)]
    exact congrArg (· + 1) (ih _)

theorem ownerToken_runs (n : Nat) : ((machine favourable).run (boot, ())
    (runMotor 0 true :: List.replicate (n + 1) (runMotor 0 false))).1.owners.ownerToken 0 =
      tokenAt (n + 1 + 1) := by
  rw [replicate_succ', ← cons_append, Machine.run_concat]
  have hinv := inv_run favourable () (runMotor 0 true :: List.replicate n (runMotor 0 false))
  have hissued : issued ((machine favourable).trace (boot, ())
      (runMotor 0 true :: List.replicate n (runMotor 0 false))) = n + 1 := by
    have hcommands := commands_runMotor (boot, ()) 0 (by decide) true
    rw [Machine.trace_cons, issued, countP_cons, if_pos (issues_iff.mpr ⟨0, 0, hcommands⟩)]
    exact congrArg (· + 1) (issued_runs _ n)
  generalize (machine favourable).run (boot, ())
    (runMotor 0 true :: List.replicate n (runMotor 0 false)) = s at hinv ⊢
  have hcommands := commands_runMotor s 0 (by decide) false
  have hmoves := (serve_moves hinv.sound (runMotor 0 false)).exec favourable s.2
  have hnext := hinv.next
  rw [hissued] at hnext
  cases hmoves with
  | commands link port running hport hcommands' htoken howners =>
    obtain ⟨rfl, rfl, rfl⟩ := hcommands.unique hcommands'
    obtain ⟨-, -, -, howner⟩ := s.1.owners.setMotorOwner_true 0 0
    rw [hnext, nextToken_tokenAt] at howner
    refine Eq.trans ?_ ((howner 0).trans (if_pos rfl))
    exact congrArg (fun owners : Owners => owners.ownerToken 0) howners
  | releases hnot htoken hreleases => exact absurd hcommands (hnot 0 0 true)

/-- The motor is run once for a caller that keeps the token, and then `n` times more. -/
def runs (n : Nat) : List Request := runMotor 0 true :: List.replicate n (runMotor 0 false)

/-- **The first token comes back** with fewer than 4294967296 commands behind it. -/
theorem token_comes_back : ∃ e h₂,
    (machine favourable).trace (boot, ()) (runs tokenCount) = e :: h₂ ∧
      e.2.1.token = some 1 ∧ issued h₂ < 2 ^ 32 ∧ Superseded h₂ 0 ∧
      ((machine favourable).run (boot, ()) (runs tokenCount)).1.owners.ownerToken 0 = 1 := by
  obtain ⟨n, hn⟩ : ∃ n, tokenCount = n + 1 := ⟨4294967294, rfl⟩
  have hown : tokenAt (n + 1 + 1) = 1 := by
    rw [← hn, Nat.add_comm, ← Nat.zero_add 1]
    exact tokenAt_add_tokenCount 0
  refine ⟨_, _, (machine favourable).trace_cons _ _ _, rfl, ?_, ?_, ?_⟩
  · rw [issued_runs]
    decide
  · exact ⟨_, mem_cons_self, 0, true, commands_runMotor _ 0 (by decide) false⟩
  · rw [runs, hn, ownerToken_runs, hown]

end Brickwright.Btsensor.Backend

/-!
## A link that has disconnected (`btsensor_modern_backend.c`)

Processing the disconnect takes every port from the link. Nothing in the backend asks whether a link
is connected, though, so a command that comes after the disconnect runs its motor and the link has a
port again: the link has none until its next connect exactly when no command of it drives a motor
before (`disconnect_safe_iff`, `late_command_drives`).
-/

namespace Brickwright.Btsensor.Backend

open Calls

variable {σ : Type*} {env : IoCall → σ → IoResult × σ} {link : Nat}

/-- A command of the link that runs a motor succeeds. -/
def Succeeds (link : Nat) (e : Entry) : Prop :=
  match e.1 with
  | .operation l (some op) _ => l = link ∧ op.kind = .motor ∧ op.speed ≠ 0 ∧ e.2.1.rc = 0
  | _ => False

/-- A command of the link that runs a motor has valid arguments and is favoured by the system, or
`set_motor_owner` says that the link runs one. -/
def Drives (link : Nat) (e : Entry) : Prop :=
  match e.1 with
  | .operation l (some op) _ =>
    l = link ∧ op.kind = .motor ∧ op.speed ≠ 0 ∧ motorArguments op = 0 ∧ Meets e.2.2
  | .setMotorOwner l port running => l = link ∧ port < portCount ∧ running = true
  | _ => False

def Owners.Without (owners : Owners) (link : Nat) : Prop := ∀ p, owners.commanded link p = false

def entry (env : IoCall → σ → IoResult × σ) (s : State × σ) (request : Request) : Entry :=
  (request, ((machine env).step s request).2)

variable (env) in
theorem entry_moves (s : State × σ) (h : s.1.owners.Sound) (request : Request) :
    Moves s.1.owners (entry env s request) ((machine env).step s request).1.1.owners :=
  (serve_moves h request).exec env s.2

variable {request : Request}

theorem succeeds_iff (s : State × σ) (hlink : link ≤ linkBle)
    (hoperation : ∃ l op tagged, request = .operation l op tagged) :
    Succeeds link (entry env s request) ↔ Drives link (entry env s request) := by
  obtain ⟨l, operation, tagged, rfl⟩ := hoperation
  cases operation with
  | none => exact Iff.rfl
  | some op =>
    refine and_congr_right fun hl => and_congr_right fun hkind => and_congr_right fun _ => ?_
    subst hl
    exact (operationForLink_ok hlink hkind tagged).exec env s.2

theorem drives_of_commands (s : State × σ) (hlink : link ≤ linkBle) {port : Nat}
    (h : Commands (entry env s request) link port true) : Drives link (entry env s request) := by
  cases request with
  | operation l operation tagged =>
    cases operation with
    | none => exact absurd h id
    | some op =>
      refine (succeeds_iff s hlink ⟨l, _, tagged, rfl⟩).mp ?_
      exact ⟨h.2.2.1, h.1, of_decide_eq_true h.2.2.2.2, h.2.1⟩
  | setMotorOwner l p running => exact ⟨h.2.2.1, h.2.2.2.1 ▸ h.2.1, h.2.2.2.2⟩
  | _ => exact absurd h id

/-- **One request**: a link without ports stays so when the request drives none of its motors. -/
theorem without_step (s : State × σ) (hlink : link ≤ linkBle) (hsound : s.1.owners.Sound)
    (h : s.1.owners.Without link) (hnot : ¬ Drives link (entry env s request)) :
    ((machine env).step s request).1.1.owners.Without link := by
  intro p
  cases entry_moves env s hsound request with
  | commands l port running hport hcommands htoken howners =>
    rw [howners]
    cases running with
    | false => simp [h p]
    | true =>
      have hne : link ≠ l := by
        rintro rfl
        exact hnot (drives_of_commands s hlink hcommands)
      obtain ⟨-, -, hcommanded, -⟩ := s.1.owners.setMotorOwner_true l port
      simp [hcommanded, h p, hne]
  | releases hrests htoken hreleases =>
    rcases hreleases.port p with ⟨hsame, -⟩ | ⟨hnone, -⟩
    · rw [hsame, h p]
    · exact hnone link

/-- A request that drives a motor of the link succeeds, or leaves the link a port. -/
theorem succeeds_or_with (s : State × σ) (hlink : link ≤ linkBle)
    (h : Drives link (entry env s request)) : Succeeds link (entry env s request) ∨
      ¬ ((machine env).step s request).1.1.owners.Without link := by
  cases request with
  | operation l operation tagged => exact .inl ((succeeds_iff s hlink ⟨l, _, tagged, rfl⟩).mpr h)
  | setMotorOwner l port running =>
    obtain ⟨rfl, hport, rfl⟩ := h
    refine .inr fun hwithout => ?_
    have hnone := hwithout port
    have hmachine : ((machine env).step s (.setMotorOwner l port true)).1.1 =
        (s.1.setMotorOwner l port true).2 := rfl
    obtain ⟨-, -, hcommanded, -⟩ := s.1.owners.setMotorOwner_true l port
    rw [hmachine, State.setMotorOwner, if_neg (by omega), hcommanded] at hnone
    simp at hnone
  | _ => exact absurd h id

/-! ### Between a disconnect and the next connect -/

/-- In this run the link has no port in any state, and no command of it that runs a motor
succeeds. -/
def Safe (env : IoCall → σ → IoResult × σ) (link : Nat) (s : State × σ) (requests : List Request) :
    Prop :=
  s.1.owners.Without link ∧
    (machine env).Throughout (fun s request => ¬ Succeeds link (entry env s request) ∧
      ((machine env).step s request).1.1.owners.Without link) s requests

theorem safe_iff (s : State × σ) (hlink : link ≤ linkBle) (hsound : s.1.owners.Sound)
    (h : s.1.owners.Without link) (requests : List Request) : Safe env link s requests ↔
      (machine env).Throughout (fun s request => ¬ Drives link (entry env s request)) s
        requests := by
  rw [Safe, and_iff_right h]
  let inv (s : State × σ) : Prop := s.1.owners.Sound ∧ s.1.owners.Without link
  have hinv : inv s := ⟨hsound, h⟩
  refine (machine env).throughout_congr
    (fun s request hs => ⟨⟨fun hsafe hdrives => ?_, fun hnot => ⟨fun hsucceeds => ?_, ?_⟩⟩,
      fun hsafe => ⟨(entry_moves env s hs.1 request).sound hs.1, hsafe.2⟩⟩) hinv requests
  · exact (succeeds_or_with s hlink hdrives).elim hsafe.1 fun h => h hsafe.2
  · cases request with
    | operation l operation tagged =>
      exact hnot ((succeeds_iff s hlink ⟨l, _, tagged, rfl⟩).mp hsucceeds)
    | _ => exact hsucceeds
  · exact without_step s hlink hs.1 hs.2 hnot

/-- **Disconnect safety.** After every run, from the processing of the disconnect of the link's
current generation on: whatever comes then, the link has no port and no command of it that runs a
motor succeeds, exactly when none of its commands drives one. -/
theorem disconnect_safe_iff (env : IoCall → σ → IoResult × σ) (context : σ)
    (before after : List Request) (link : Nat) (generation : UInt32)
    (hends : Ends ((machine env).run (boot, context) before).1.owners link false generation) :
    Safe env link
        ((machine env).run (boot, context) (before ++ [.linkState link false generation])) after ↔
      (machine env).Throughout (fun s request => ¬ Drives link (entry env s request))
        ((machine env).run (boot, context) (before ++ [.linkState link false generation]))
        after := by
  have hinv := inv_run env context before
  rw [Machine.run_concat]
  generalize (machine env).run (boot, context) before = s at hinv hends ⊢
  refine safe_iff _ hends.1 ((entry_moves env s hinv.sound _).sound hinv.sound) (fun p => ?_) after
  obtain ⟨-, -, howners⟩ := (linkState_spec s.1 link false generation).exec env s.2
  refine (congrArg (fun owners : Owners => owners.commanded link p) howners).trans ?_
  by_cases hp : p < portCount
  · simp [linked, hends, Owners.commanded_disownAll, hp]
  · have hnone : s.1.owners.commanded link p = false :=
      Bool.eq_false_iff.mpr fun h => hp (hinv.small link p h)
    simp [linked, hends, Owners.commanded_disownAll, hnone]

/-- The BLE link disconnects while Classic goes on. -/
theorem disconnect_safe_classic : Safe favourable linkBle
    ((machine favourable).run (boot, ()) [.linkState linkBle true 7, .linkState linkBle false 7])
    [runMotor linkClassic false] := by
  refine (disconnect_safe_iff favourable () [.linkState linkBle true 7] [runMotor linkClassic false]
    linkBle 7 ⟨Nat.le_refl _, rfl⟩).mpr ⟨?_, trivial⟩
  exact fun hdrives => absurd hdrives.1 (by decide)

/-- **A command of the BLE link that comes after its disconnect succeeds.** -/
theorem late_command_drives : ¬ ∀ (before after : List Request) (generation : UInt32),
    Ends ((machine favourable).run (boot, ()) before).1.owners linkBle false generation →
    (∀ generation', .linkState linkBle true generation' ∉ after) →
    Safe favourable linkBle
      ((machine favourable).run (boot, ()) (before ++ [.linkState linkBle false generation]))
      after := by
  intro h
  obtain ⟨-, hsafe, -⟩ := h [.linkState linkBle true 7] [runMotor linkBle false] 7
    ⟨Nat.le_refl _, rfl⟩ (fun _ hmem => by cases List.mem_singleton.mp hmem)
  have hcommands := commands_runMotor ((machine favourable).run (boot, ())
    ([.linkState linkBle true 7] ++ [.linkState linkBle false 7])) linkBle (Nat.le_refl _) false
  exact hsafe.1 ⟨rfl, rfl, by decide, hcommands.2.1⟩

end Brickwright.Btsensor.Backend
