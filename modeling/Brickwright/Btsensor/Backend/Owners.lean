import Brickwright.Btsensor.Backend.Basic

/-!
# Who commands a motor

The three arrays as one thing: nobody commands a port, or one link does and the port has a token
(`Owners.Sound`). A command that is accepted gives a port to its link, with a fresh token
(`setMotorOwner_sound`); everything else takes ports away or leaves them as they are
(`Owners.Releases`).

The tokens are counted: the one after `n` others is `tokenAt n` (`nextToken_tokenAt`), and one comes
back after 4294967295 of them (`tokenAt_inj`).
-/

namespace Brickwright.Btsensor.Backend

/-! ## Tokens -/

/-- The number of tokens there are; 0 is none. -/
def tokenCount : Nat := 4294967295

/-- What `g_next_owner_token` is after `n` tokens were given out. -/
def tokenAt : Nat → UInt32
  | 0 => 0
  | n + 1 => UInt32.ofNat (n % tokenCount + 1)

theorem mod_tokenCount_lt (n : Nat) : n % tokenCount < 4294967295 := Nat.mod_lt n (Nat.succ_pos _)

theorem toNat_tokenAt_succ (n : Nat) : (tokenAt (n + 1)).toNat = n % tokenCount + 1 := by
  have hlt := mod_tokenCount_lt n
  apply UInt32.toNat_ofNat_of_lt'
  show n % tokenCount + 1 < 4294967296
  omega

theorem nextToken_ne_zero (token : UInt32) : nextToken token ≠ 0 := by
  unfold nextToken
  split
  · next h =>
    rw [h]
    decide
  · next h => exact h

theorem succ_mod_tokenCount (n : Nat) : (n + 1) % tokenCount =
    if n % tokenCount + 1 = tokenCount then 0 else n % tokenCount + 1 := by
  unfold tokenCount
  split <;> omega

theorem nextToken_tokenAt (n : Nat) : nextToken (tokenAt n) = tokenAt (n + 1) := by
  cases n with
  | zero => rfl
  | succ n =>
    have hn := toNat_tokenAt_succ n
    have hlt := mod_tokenCount_lt n
    have hadd : (tokenAt (n + 1) + 1).toNat = (n % tokenCount + 1 + 1) % 4294967296 := by
      rw [UInt32.toNat_add, hn]
      rfl
    have hwrap : tokenAt (n + 1) + 1 = 0 ↔ n % tokenCount + 1 = tokenCount := by
      rw [← UInt32.toNat_inj, hadd, UInt32.toNat_zero, show tokenCount = 4294967295 from rfl]
      omega
    apply UInt32.toNat_inj.mp
    rw [toNat_tokenAt_succ (n + 1), succ_mod_tokenCount, nextToken]
    by_cases hlast : n % tokenCount + 1 = tokenCount
    · rw [if_pos (hwrap.mpr hlast), if_pos hlast, hwrap.mpr hlast]
      rfl
    · rw [if_neg (mt hwrap.mp hlast), if_neg hlast, hadd]
      have hne : n % tokenCount + 1 ≠ 4294967295 := hlast
      omega

theorem tokenAt_add_tokenCount (n : Nat) : tokenAt (n + 1 + tokenCount) = tokenAt (n + 1) := by
  rw [Nat.add_right_comm, tokenAt, tokenAt, Nat.add_mod_right]

/-- **No token comes back before.** -/
theorem tokenAt_inj {m n : Nat} (h : tokenAt (m + 1) = tokenAt (n + 1)) (hle : m ≤ n)
    (hlt : n - m < tokenCount) : m = n := by
  have hmod : m % tokenCount = n % tokenCount := by
    have htoken := congrArg UInt32.toNat h
    rw [toNat_tokenAt_succ, toNat_tokenAt_succ] at htoken
    exact Nat.succ.inj htoken
  have hdvd : tokenCount ∣ n - m := (Nat.modEq_iff_dvd' hle).mp hmod
  have hzero := Nat.eq_zero_of_dvd_of_lt hdvd hlt
  omega

namespace Owners

variable {owners owners' : Owners} {link port l p : Nat}

/-- At most one link commands a port, and a port has a token exactly when one does. -/
structure Sound (owners : Owners) : Prop where
  alone : ∀ l l' p, owners.commanded l p = true → owners.commanded l' p = true → l = l'
  token : ∀ p, owners.ownerToken p ≠ 0 ↔ ∃ l, owners.commanded l p = true

/-! ## What the functions do to each entry -/

@[simp] theorem commanded_release (owners : Owners) (port l p : Nat) :
    (owners.release port).commanded l p = if p = port then false else owners.commanded l p := by
  simp [release, Function.update_apply]

@[simp] theorem ownerToken_release (owners : Owners) (port p : Nat) :
    (owners.release port).ownerToken p = if p = port then 0 else owners.ownerToken p := by
  simp [release, Function.update_apply]

@[simp] theorem nextOwnerToken_release (owners : Owners) (port : Nat) :
    (owners.release port).nextOwnerToken = owners.nextOwnerToken := rfl

@[simp] theorem commanded_disown (owners : Owners) (link port l p : Nat) :
    (owners.disown link port).commanded l p =
      if l = link ∧ p = port then false else owners.commanded l p := by
  by_cases hl : l = link
  · subst hl
    simp [disown, Function.update_apply]
  · simp [disown, hl]

@[simp] theorem ownerToken_disown (owners : Owners) (link port p : Nat) :
    (owners.disown link port).ownerToken p = if p = port then 0 else owners.ownerToken p := by
  simp [disown, Function.update_apply]

@[simp] theorem setMotorOwner_false (owners : Owners) (link port : Nat) :
    owners.setMotorOwner link port false = (0, owners.release port) := rfl

theorem setMotorOwner_true (owners : Owners) (link port : Nat) :
    (owners.setMotorOwner link port true).1 = nextToken owners.nextOwnerToken ∧
      (owners.setMotorOwner link port true).2.nextOwnerToken = nextToken owners.nextOwnerToken ∧
      (∀ l p, (owners.setMotorOwner link port true).2.commanded l p =
        if p = port then decide (l = link) else owners.commanded l p) ∧
      ∀ p, (owners.setMotorOwner link port true).2.ownerToken p =
        if p = port then nextToken owners.nextOwnerToken else owners.ownerToken p := by
  refine ⟨rfl, rfl, fun l p => ?_, fun p => ?_⟩
  · by_cases hl : l = link
    · subst hl
      by_cases hp : p = port <;> simp [setMotorOwner, hp]
    · by_cases hp : p = port <;> simp [setMotorOwner, hp, hl]
  · by_cases hp : p = port <;> simp [setMotorOwner, hp]

/-! ## Releases -/

/-- No port is given to anybody: each is as it was, or nobody commands it. -/
structure Releases (owners owners' : Owners) : Prop where
  next : owners'.nextOwnerToken = owners.nextOwnerToken
  port : ∀ p, ((∀ l, owners'.commanded l p = owners.commanded l p) ∧
      owners'.ownerToken p = owners.ownerToken p) ∨
    ((∀ l, owners'.commanded l p = false) ∧ owners'.ownerToken p = 0)

theorem Releases.refl (owners : Owners) : Releases owners owners :=
  ⟨rfl, fun _ => .inl ⟨fun _ => rfl, rfl⟩⟩

theorem Releases.trans {owners'' : Owners} (h : Releases owners owners')
    (h' : Releases owners' owners'') : Releases owners owners'' := by
  refine ⟨h'.next.trans h.next, fun p => ?_⟩
  rcases h'.port p with ⟨hcommanded', htoken'⟩ | hnone
  · rcases h.port p with ⟨hcommanded, htoken⟩ | ⟨hcommanded, htoken⟩
    · exact .inl ⟨fun l => (hcommanded' l).trans (hcommanded l), htoken'.trans htoken⟩
    · exact .inr ⟨fun l => (hcommanded' l).trans (hcommanded l), htoken'.trans htoken⟩
  · exact .inr hnone

theorem releases_release (owners : Owners) (port : Nat) :
    Releases owners (owners.release port) := by
  refine ⟨rfl, fun p => ?_⟩
  by_cases hp : p = port <;> simp [hp]

theorem Sound.releases_disown (h : owners.Sound) (hcommanded : owners.commanded link port = true) :
    Releases owners (owners.disown link port) := by
  refine ⟨rfl, fun p => ?_⟩
  by_cases hp : p = port
  · subst hp
    refine .inr ⟨fun l => ?_, by simp⟩
    by_cases hl : l = link
    · simp [hl]
    · have hnot : owners.commanded l p ≠ true := fun hl' => hl (h.alone l link p hl' hcommanded)
      simp [hl, hnot]
  · simp [hp]

theorem Sound.releases (h : owners.Sound) (hreleases : Releases owners owners') :
    owners'.Sound := by
  constructor
  · intro l l' p hl hl'
    rcases hreleases.port p with ⟨hcommanded, -⟩ | ⟨hcommanded, -⟩
    · rw [hcommanded] at hl hl'
      exact h.alone l l' p hl hl'
    · rw [hcommanded] at hl
      cases hl
  · intro p
    rcases hreleases.port p with ⟨hcommanded, htoken⟩ | ⟨hcommanded, htoken⟩
    · rw [htoken, h.token p]
      simp [hcommanded]
    · simp [hcommanded, htoken]

theorem Sound.setMotorOwner (h : owners.Sound) (link port : Nat) (running : Bool) :
    (owners.setMotorOwner link port running).2.Sound := by
  cases running with
  | false => exact h.releases (releases_release owners port)
  | true =>
    obtain ⟨-, -, hcommanded, htoken⟩ := setMotorOwner_true owners link port
    constructor
    · intro l l' p hl hl'
      rw [hcommanded] at hl hl'
      split at hl
      · next hp =>
        rw [if_pos hp] at hl'
        exact (of_decide_eq_true hl).trans (of_decide_eq_true hl').symm
      · next hp =>
        rw [if_neg hp] at hl'
        exact h.alone l l' p hl hl'
    · intro p
      rw [htoken]
      by_cases hp : p = port
      · simp [hp, hcommanded, nextToken_ne_zero]
      · simp only [hp, if_false, hcommanded]
        exact h.token p

/-! ## The ports of a link that is gone -/

/-- What `stop_owned_locked` leaves of the arrays. -/
def disownAll (owners : Owners) (link : Nat) : List Nat → Owners
  | [] => owners
  | port :: rest =>
    if owners.commanded link port then (owners.disown link port).disownAll link rest
    else owners.disownAll link rest

theorem Sound.releases_disownAll (h : owners.Sound) (link : Nat) (ports : List Nat) :
    Releases owners (owners.disownAll link ports) := by
  induction ports generalizing owners with
  | nil => exact .refl owners
  | cons port rest ih =>
    rw [disownAll]
    split
    · next hcommanded =>
      have hdisown := h.releases_disown hcommanded
      exact hdisown.trans (ih (h.releases hdisown))
    · exact ih h

theorem commanded_disownAll (owners : Owners) (link : Nat) (ports : List Nat) (l p : Nat) :
    (owners.disownAll link ports).commanded l p =
      if l = link ∧ p ∈ ports then false else owners.commanded l p := by
  induction ports generalizing owners with
  | nil => simp [disownAll]
  | cons port rest ih =>
    rw [disownAll]
    split
    · rw [ih, commanded_disown]
      grind
    · next hcommanded =>
      grind

end Owners

/-!
## What a request does

A motor operation succeeds when its arguments are valid and the system favours all that it asks
(`motorOperation_ok`). Over the arrays there are two kinds of requests: a command that succeeds, and
everything else, which gives no port to anybody (`serve_moves`).
-/

open Calls
open List

/-- A request, its answer and the calls it made. -/
abbrev Entry := Request × Answer × List (IoCall × IoResult)

/-! ### Motor operations -/

/-- The system answers a call of a motor operation as one that goes well. -/
def Favours : IoCall × IoResult → Prop
  | (.ioctl _ .getDeviceInfo, r) =>
    0 ≤ r.rc ∧ r.flags &&& flagConnected ≠ 0 ∧
      (passiveMotor r.deviceType = true ∨ r.flags &&& flagIsUart ≠ 0)
  | (.ioctl _ .lumpGetInfo, r) =>
    0 ≤ r.rc ∧ (r.lump.typeId = mediumMotor ∨ r.lump.typeId = largeMotor)
  | (.ioctl _ .pwmGetStatus, r) => 0 ≤ r.rc ∧ r.pwmFlags &&& pwmFlagPinned = 0
  | (.openPort _, r) => 0 ≤ r.rc
  | (_, r) => r.rc = 0

def Meets (calls : List (IoCall × IoResult)) : Prop := ∀ c ∈ calls, Favours c

@[simp] theorem meets_nil : Meets [] := fun _ h => nomatch h

@[simp] theorem meets_cons (c : IoCall × IoResult) (calls : List (IoCall × IoResult)) :
    Meets (c :: calls) ↔ Favours c ∧ Meets calls :=
  forall_mem_cons

@[simp] theorem meets_append (calls calls' : List (IoCall × IoResult)) :
    Meets (calls ++ calls') ↔ Meets calls ∧ Meets calls' :=
  forall_mem_append

theorem validatePwm_ok (fd : Int) : (validatePwm fd).Ensures fun rc calls =>
    (rc < 0 ∨ rc = 0) ∧ (rc = 0 ↔ Meets calls) := by
  intro r
  have hbusy : -EBUSY < 0 := by decide
  show Ensures _ (if r.rc < 0 then pure r.rc
    else pure (if r.pwmFlags &&& pwmFlagPinned ≠ 0 then -EBUSY else 0))
  split
  · simp [Favours]
    omega
  · split
    · simp [Favours, *]
      omega
    · simp_all [Favours]

theorem validateMotor_ok (fd : Int) : (validateMotor fd).Ensures fun rc calls =>
    (rc < 0 ∨ rc = 0) ∧ (rc = 0 ↔ Meets calls) := by
  have hnodev : -ENODEV < 0 := by decide
  intro r
  show Ensures _ (if r.rc < 0 then pure r.rc else _)
  by_cases hrc : r.rc < 0
  · rw [if_pos hrc]
    simp [Favours]
    omega
  rw [if_neg hrc]
  by_cases hconnected : r.flags &&& flagConnected = 0
  · simp [Favours, hconnected]
    omega
  rw [if_neg hconnected]
  have hfavours (h : passiveMotor r.deviceType = true ∨ r.flags &&& flagIsUart ≠ 0) :
      Favours (.ioctl fd .getDeviceInfo, r) := ⟨Int.not_lt.mp hrc, hconnected, h⟩
  by_cases hpassive : passiveMotor r.deviceType = true
  · rw [if_pos hpassive]
    refine (validatePwm_ok fd).mono fun rc calls h => ?_
    simpa [hfavours (.inl hpassive)] using h
  rw [if_neg hpassive]
  by_cases huart : r.flags &&& flagIsUart = 0
  · simp [Favours, hpassive, huart]
    omega
  rw [if_neg huart]
  intro d
  show Ensures _ (if d.rc < 0 then pure d.rc else _)
  by_cases hlump : d.rc < 0
  · rw [if_pos hlump]
    simp [Favours]
    omega
  rw [if_neg hlump]
  by_cases htype : d.lump.typeId ≠ mediumMotor ∧ d.lump.typeId ≠ largeMotor
  · simp [Favours, htype]
    omega
  · rw [if_neg htype]
    refine (validatePwm_ok fd).mono fun rc calls h => ?_
    have hmotor : Favours (.ioctl fd .lumpGetInfo, d) := by
      refine ⟨Int.not_lt.mp hlump, ?_⟩
      rwa [not_and_or, not_not, not_not] at htype
    simpa [hfavours (.inr huart), hmotor] using h

theorem openPort_ok (ports : Ports) (port : Nat) : (ports.openPort port).Ensures fun r calls =>
    0 ≤ r.1 ↔ Meets calls := by
  show Ensures _ (if ports.fds port ≥ 0 then pure _ else _)
  split
  · next h => simpa using h
  · intro r
    show Ensures _ (if r.rc ≥ 0 then pure _ else pure _)
    split
    · simp [Favours]
    · simp [Favours]

/-- **A motor operation** succeeds when its arguments are valid and the system favours it. -/
theorem motorOperation_ok (ports : Ports) (operation : Operation) :
    (motorOperation ports operation).Ensures fun r calls =>
      r.1 = 0 ↔ motorArguments operation = 0 ∧ Meets calls := by
  rw [motorOperation]
  by_cases harguments : motorArguments operation ≠ 0
  · rw [if_pos harguments]
    simp
  rw [if_neg harguments]
  rw [not_not] at harguments
  refine (openPort_ok ports operation.port.toNat).bind fun opened calls hopen => ?_
  show Ensures _ (if opened.1 < 0 then pure _ else _)
  by_cases hfd : opened.1 < 0
  · rw [if_pos hfd]
    have hnot : ¬ Meets calls := fun h => absurd (hopen.mpr h) (Int.not_le.mpr hfd)
    simp [hnot]
    omega
  rw [if_neg hfd]
  have hmeets := hopen.mp (Int.not_lt.mp hfd)
  refine (validateMotor_ok opened.1).bind fun rc calls' hvalid => ?_
  show Ensures _ (if rc < 0 then pure _ else _)
  by_cases hrc : rc < 0
  · rw [if_pos hrc]
    have hnot : ¬ Meets calls' := fun h => by have := hvalid.2.mpr h; omega
    simp [hnot]
    omega
  rw [if_neg hrc]
  have hvalid := hvalid.2.mp (hvalid.1.resolve_left hrc)
  intro set
  have hset : Favours (.ioctl opened.1 (motorCommand operation), set) ↔ set.rc = 0 := by
    unfold motorCommand
    split
    · exact Iff.rfl
    · split <;> exact Iff.rfl
  show set.rc = 0 ↔ _
  simp [harguments, hmeets, hvalid, hset]

theorem port_lt_of_arguments {operation : Operation} (h : motorArguments operation = 0) :
    operation.port.toNat < portCount := by
  unfold motorArguments at h
  split at h
  · exact absurd h (by decide)
  · next hrange =>
    rw [not_or] at hrange
    exact Nat.lt_of_not_ge hrange.1

/-! ### Commands -/

/-- A command for the port succeeded, or `set_motor_owner` said that one had. -/
def Commands (e : Entry) (link port : Nat) (running : Bool) : Prop :=
  match e.1 with
  | .operation l (some op) _ =>
    op.kind = .motor ∧ e.2.1.rc = 0 ∧ l = link ∧ op.port.toNat = port ∧
      decide (op.speed ≠ 0) = running
  | .setMotorOwner l p r => l ≤ linkBle ∧ p < portCount ∧ l = link ∧ p = port ∧ r = running
  | _ => False

/-- What one request does to the arrays. -/
inductive Moves (owners : Owners) (e : Entry) (owners' : Owners) : Prop
  /-- A command. -/
  | commands (link port : Nat) (running : Bool) (hport : port < portCount)
      (hcommands : Commands e link port running)
      (htoken : ∀ token ∈ e.2.1.token, token = (owners.setMotorOwner link port running).1)
      (howners : owners' = (owners.setMotorOwner link port running).2)
  /-- Anything else. -/
  | releases (hnot : ∀ link port running, ¬ Commands e link port running)
      (htoken : e.2.1.token = none) (hreleases : owners.Releases owners')

variable {s : State}

theorem operationForLink_ok {link : Nat} (hlink : link ≤ linkBle) {op : Operation}
    (hkind : op.kind = .motor) (tagged : Bool) :
    (s.operationForLink link (some op) tagged).Ensures fun r calls =>
      r.1.rc = 0 ↔ motorArguments op = 0 ∧ Meets calls := by
  rw [State.operationForLink, if_neg (Nat.not_lt.mpr hlink)]
  simp only [operationWithIo, hkind]
  refine (motorOperation_ok s.ports op).bind fun r calls h => ?_
  show Ensures _ (if r.1 = 0 ∧ _ then _ else _)
  rw [← append_nil calls] at h
  split <;> exact h

theorem operationForLink_moves (link : Nat) (operation : Option Operation) (tagged : Bool) :
    (s.operationForLink link operation tagged).Ensures fun r calls =>
      Moves s.owners (.operation link operation tagged, r.1, calls) r.2.owners := by
  have hinval : -EINVAL ≠ 0 := by decide
  rw [State.operationForLink]
  split
  · refine .releases (fun l p r hcommands => ?_) rfl (.refl _)
    cases operation with
    | none => exact hcommands
    | some op => exact hinval hcommands.2.1
  cases operation with
  | none =>
    refine .bind (P := fun _ _ => True) (.of_forall fun _ _ => trivial) fun r calls _ => ?_
    exact .releases (fun _ _ _ h => h) rfl (.refl _)
  | some op =>
    have hok : (operationWithIo s.ports (some op)).Ensures fun r _ =>
        r.1 = 0 → op.kind = .motor → op.port.toNat < portCount := by
      by_cases hkind : op.kind = .motor
      · simp only [operationWithIo, hkind]
        refine (motorOperation_ok s.ports op).mono fun r calls h hrc _ => ?_
        exact port_lt_of_arguments (h.mp hrc).1
      · exact .of_forall fun _ _ _ h => absurd h hkind
    refine hok.bind fun r calls hport => ?_
    show Ensures _ (if r.1 = 0 ∧ op.kind = .motor then _ else _)
    split
    · next h =>
      refine .commands link op.port.toNat (op.speed ≠ 0) (hport h.1 h.2)
        ⟨h.2, h.1, rfl, rfl, rfl⟩ (fun token htoken => ?_) rfl
      cases tagged with
      | true => exact (Option.mem_some_iff.mp htoken).symm
      | false => cases htoken
    · next h =>
      exact .releases (fun _ _ _ hcommands => h ⟨hcommands.2.1, hcommands.1⟩) rfl (.refl _)

theorem endMotorIfOwned_moves (link port : Nat) (token : UInt32) (endState : UInt8) :
    (s.endMotorIfOwned link port token endState).Ensures fun r calls =>
      Moves s.owners (.endMotorIfOwned link port token endState, r.1, calls) r.2.owners := by
  have hends (ended : Bool) : s.owners.Releases
      (if ended then (s.owners.setMotorOwner link port false).2 else s.owners) := by
    cases ended with
    | true => exact Owners.releases_release _ _
    | false => exact .refl _
  rw [State.endMotorIfOwned]
  split
  · exact .releases (fun _ _ _ h => h) rfl (.refl _)
  split
  · exact .releases (fun _ _ _ h => h) rfl (.refl _)
  refine .bind (P := fun _ _ => True) (.of_forall fun _ _ => trivial) fun r calls _ => ?_
  show Ensures _ (if (r.1 = -ENODEV ∨ r.1 = -EAGAIN) ∧ r.2.fds port ≥ 0 then _ else _)
  split
  · refine .bind (P := fun _ _ => True) (.of_forall fun _ _ => trivial) fun coasted calls' _ => ?_
    exact .releases (fun _ _ _ h => h) rfl (hends coasted)
  · refine .releases (fun _ _ _ h => h) rfl ?_
    by_cases hrc : r.1 = 0
    · simpa [hrc] using hends true
    · simpa [hrc] using hends false

/-! ### A link that is gone -/

/-- A stop of each of the ports, in order. -/
def stopPorts (ports : Ports) : List Nat → Io Ports
  | [] => pure ports
  | port :: rest => do
    let (_, ports) ← operationWithIo ports (some (stopOperation port 0))
    stopPorts ports rest

/-- The loop is the stops of the ports it returns. -/
theorem stopOwned_eq (s : State) (link : Nat) {ports : List Nat} (hports : ports.Nodup) :
    s.stopOwned link ports = stopPorts s.ports (ports.filter (s.owners.commanded link)) >>=
      fun left => pure (ports.filter (s.owners.commanded link),
        ⟨left, s.owners.disownAll link ports⟩) := by
  induction ports generalizing s with
  | nil => rfl
  | cons port rest ih =>
    rw [nodup_cons] at hports
    rw [State.stopOwned, Owners.disownAll]
    split
    · next hcommanded =>
      have hrest : rest.filter ((s.owners.disown link port).commanded link) =
          rest.filter (s.owners.commanded link) := by
        refine filter_congr fun p hp => ?_
        have hne : p ≠ port := fun heq => hports.1 (heq ▸ hp)
        simp [hne]
      rw [filter_cons_of_pos hcommanded, stopPorts, bind_assoc]
      congr 1
      funext ⟨rc, ports⟩
      dsimp only
      rw [ih ⟨ports, s.owners.disown link port⟩ hports.2, hrest, bind_assoc]
      rfl
    · next hcommanded =>
      rw [filter_cons_of_neg hcommanded]
      exact ih s hports.2

/-- The loop stops the ports that the link commands, and leaves it none of them. -/
theorem stopOwned_spec (s : State) (link : Nat) {ports : List Nat} (hports : ports.Nodup) :
    (s.stopOwned link ports).Ensures fun r _ =>
      r.1 = ports.filter (s.owners.commanded link) ∧
        r.2.owners = s.owners.disownAll link ports := by
  rw [stopOwned_eq s link hports]
  exact .bind (P := fun _ _ => True) (.of_forall fun _ _ => trivial) fun _ _ _ => ⟨rfl, rfl⟩

def owned (owners : Owners) (link : Nat) : List Nat :=
  (List.range portCount).filter (owners.commanded link)

theorem stopOwnedThen_spec (s : State) (link : Nat) (f : Owners → Owners) :
    (s.stopOwnedThen link f).Ensures fun r _ =>
      r.1.stops = owned s.owners link ∧ r.1.token = none ∧
        r.2.owners = f (s.owners.disownAll link (List.range portCount)) := by
  refine (stopOwned_spec s link nodup_range).bind fun r calls h => ?_
  refine ⟨h.1, rfl, ?_⟩
  rw [← h.2]

/-- A `link_state` that the backend acts on: the disconnect of the generation it knows, or a connect
with another one. -/
def Ends (owners : Owners) (link : Nat) (connected : Bool) (generation : UInt32) : Prop :=
  link ≤ linkBle ∧
    if connected then owners.generation link ≠ 0 ∧ owners.generation link ≠ generation
    else owners.generation link = generation

instance (owners : Owners) (link : Nat) (connected : Bool) (generation : UInt32) :
    Decidable (Ends owners link connected generation) := by
  unfold Ends
  infer_instance

/-- What `link_state` leaves of the arrays. -/
def linked (owners : Owners) (link : Nat) (connected : Bool) (generation : UInt32) : Owners :=
  let stopped :=
    if Ends owners link connected generation then owners.disownAll link (List.range portCount)
    else owners
  if link ≤ linkBle ∧ connected = true then
    { stopped with generation := Function.update stopped.generation link generation }
  else stopped

theorem linkState_spec (s : State) (link : Nat) (connected : Bool) (generation : UInt32) :
    (s.linkState link connected generation).Ensures fun r _ =>
      r.1.stops = (if Ends s.owners link connected generation then owned s.owners link else []) ∧
        r.1.token = none ∧ r.2.owners = linked s.owners link connected generation := by
  rw [State.linkState]
  by_cases hlink : link > linkBle
  · have hends : ¬ Ends s.owners link connected generation :=
      fun h => absurd h.1 (Nat.not_le.mpr hlink)
    rw [if_pos hlink]
    simp [linked, hends, Nat.not_le.mpr hlink]
  rw [if_neg hlink]
  have hlink := Nat.not_lt.mp hlink
  cases connected with
  | true =>
    rw [if_pos rfl]
    by_cases hgeneration : s.owners.generation link ≠ 0 ∧ s.owners.generation link ≠ generation
    · have hends : Ends s.owners link true generation := ⟨hlink, hgeneration⟩
      rw [if_pos hgeneration]
      refine (stopOwnedThen_spec s link _).mono fun r calls h => ⟨?_, h.2.1, ?_⟩
      · rw [if_pos hends, h.1]
      · rw [h.2.2, linked, if_pos hends, if_pos ⟨hlink, rfl⟩]
    · have hends : ¬ Ends s.owners link true generation := fun h => hgeneration h.2
      rw [if_neg hgeneration]
      simp [linked, hends, hlink]
  | false =>
    by_cases hgeneration : s.owners.generation link = generation
    · have hends : Ends s.owners link false generation := ⟨hlink, hgeneration⟩
      rw [if_pos hgeneration]
      simpa [linked, hends] using stopOwnedThen_spec s link id
    · have hends : ¬ Ends s.owners link false generation := fun h => hgeneration h.2
      rw [if_neg hgeneration]
      simp [linked, hends]

/-- The calls for a link that is gone are those of the stops of its ports. -/
theorem calls_linkState {s : State} {link : Nat} {connected : Bool} {generation : UInt32}
    (hends : Ends s.owners link connected generation) {σ : Type*} (env : IoCall → σ → IoResult × σ)
    (context : σ) :
    ((s.linkState link connected generation).exec env context).calls =
      ((stopPorts s.ports (owned s.owners link)).exec env context).calls := by
  have hcalls (f : Owners → Owners) : ((s.stopOwnedThen link f).exec env context).calls =
      ((stopPorts s.ports (owned s.owners link)).exec env context).calls := by
    rw [State.stopOwnedThen, stopOwned_eq s link nodup_range, bind_assoc]
    exact calls_bind_ret env _ _ context
  obtain ⟨hlink, hends⟩ := hends
  rw [State.linkState, if_neg (Nat.not_lt.mpr hlink)]
  cases connected with
  | true =>
    rw [if_pos rfl] at hends ⊢
    rw [if_pos hends]
    exact hcalls _
  | false =>
    rw [if_neg Bool.false_ne_true] at hends ⊢
    rw [if_pos hends]
    exact hcalls id

theorem releases_linked {owners : Owners} (h : owners.Sound) (link : Nat) (connected : Bool)
    (generation : UInt32) : owners.Releases (linked owners link connected generation) := by
  have hstopped : owners.Releases (if Ends owners link connected generation then
      owners.disownAll link (List.range portCount) else owners) := by
    split
    · exact h.releases_disownAll link _
    · exact .refl owners
  unfold linked
  dsimp only
  split
  · exact ⟨hstopped.next, hstopped.port⟩
  · exact hstopped

/-! ### A shutdown -/

theorem shutdownFrom_releases (h : s.owners.Sound) (stopped : List Nat) (rest : List (Nat × Nat)) :
    (s.shutdownFrom stopped rest).Ensures fun r _ => s.owners.Releases r.2.owners := by
  induction rest generalizing s stopped with
  | nil => exact .refl s.owners
  | cons first rest ih =>
    rw [State.shutdownFrom]
    split
    · next hcommanded =>
      have hdisown := h.releases_disown hcommanded
      split
      · exact (ih (s := ⟨s.ports, _⟩) (h.releases hdisown) stopped).mono fun _ _ => hdisown.trans
      · refine .bind (P := fun _ _ => True) (.of_forall fun _ _ => trivial) fun r calls _ => ?_
        exact (ih (s := ⟨r.2, _⟩) (h.releases hdisown) _).mono fun _ _ => hdisown.trans
    · exact ih h stopped

theorem shutdown_moves (h : s.owners.Sound) : s.shutdown.Ensures fun r calls =>
    Moves s.owners (.shutdown, r.1, calls) r.2.owners := by
  refine (shutdownFrom_releases h [] _).bind fun r calls hreleases => ?_
  refine .bind (P := fun _ _ => True) (.of_forall fun _ _ => trivial) fun ports calls' _ => ?_
  exact .releases (fun _ _ _ h => h) rfl hreleases

/-! ### Every request -/

/-- **One request.** -/
theorem serve_moves (h : s.owners.Sound) (request : Request) :
    (s.serve request).Ensures fun r calls => Moves s.owners (request, r.1, calls) r.2.owners := by
  cases request with
  | operation link operation tagged => exact operationForLink_moves link operation tagged
  | endMotorIfOwned link port token endState => exact endMotorIfOwned_moves link port token endState
  | linkState link connected generation =>
    refine (linkState_spec s link connected generation).mono fun r calls hspec => ?_
    refine .releases (fun _ _ _ h => h) hspec.2.1 ?_
    rw [hspec.2.2]
    exact releases_linked h link connected generation
  | setMotorOwner link port running =>
    show Ensures _ (pure (s.setMotorOwner link port running))
    rw [State.setMotorOwner]
    split
    · next hrange =>
      refine .releases (fun l p r hcommands => ?_) rfl (.refl _)
      rcases hrange with hlink | hport
      · exact absurd hcommands.1 (Nat.not_le.mpr hlink)
      · exact absurd hcommands.2.1 (Nat.not_lt.mpr hport)
    · next hrange =>
      rw [not_or] at hrange
      exact .commands link port running (Nat.lt_of_not_ge hrange.2)
        ⟨Nat.not_lt.mp hrange.1, Nat.lt_of_not_ge hrange.2, rfl, rfl, rfl⟩
        (fun _ h => nomatch h) rfl
  | shutdown => exact shutdown_moves h

theorem Moves.sound {owners owners' : Owners} {e : Entry} (hmoves : Moves owners e owners')
    (h : owners.Sound) : owners'.Sound := by
  cases hmoves with
  | commands link port running hport hcommands htoken howners =>
    rw [howners]
    exact h.setMotorOwner link port running
  | releases hnot htoken hreleases => exact h.releases hreleases

end Brickwright.Btsensor.Backend
