import Brickwright.Lump.Requests.Basic

/-!
# What holds between producers and port thread

`inForce` is the mode that the device will have selected when everything posted so far is drained.
`Consistent` compares the send slot with it, and the rest of a drain in progress with the selected
mode. `Meets` is the condition on an event, in the state that it meets, under which this is kept.
`Sendable` is kept by every event: what is on its way is what `lump_send_data_frame` accepts.
-/

namespace Brickwright.Lump

open List

/-! ## Selected modes -/

/-- The mode of the last SELECT, or the one before. -/
def lastSelect : UInt8 → List Packet → UInt8
  | mode, [] => mode
  | _, .select mode :: packets => lastSelect mode packets
  | mode, .extMode _ :: packets => lastSelect mode packets
  | mode, .data _ _ :: packets => lastSelect mode packets

/-- Every DATA frame goes out for the mode selected at that moment. -/
def DataSelected : UInt8 → List Packet → Prop
  | _, [] => True
  | _, .select mode :: packets => DataSelected mode packets
  | mode, .extMode _ :: packets => DataSelected mode packets
  | mode, .data mode' _ :: packets => mode' = mode ∧ DataSelected mode packets

theorem lastSelect_append (mode : UInt8) (ps qs : List Packet) :
    lastSelect mode (ps ++ qs) = lastSelect (lastSelect mode ps) qs := by
  induction ps generalizing mode with
  | nil => rfl
  | cons p ps ih =>
    cases p with
    | select mode' => exact ih mode'
    | extMode _ => exact ih mode
    | data _ _ => exact ih mode

theorem DataSelected.tail {mode : UInt8} {p : Packet} {packets : List Packet}
    (h : DataSelected mode (p :: packets)) : DataSelected (lastSelect mode [p]) packets := by
  cases p with
  | select mode' => exact h
  | extMode _ => exact h
  | data mode' buf => exact h.2

def Thread.packets : Thread → List Packet
  | .draining packets => packets
  | _ => []

namespace Session

/-- The mode of the last SELECT that was transmitted, or the current mode of the device. -/
def selected (s : Session) : UInt8 := lastSelect s.engine.info.currentMode s.wire

/-- The automatic SELECT is still to be posted. It will overwrite any other. -/
def AutoPending (s : Session) : Prop :=
  s.thread = .published ∧ s.engine.info.currentMode < s.engine.info.numModes

instance (s : Session) : Decidable s.AutoPending := inferInstanceAs (Decidable (_ ∧ _))

/-- The mode that is selected once everything posted so far is drained. -/
def inForce (s : Session) : UInt8 :=
  if s.AutoPending then s.engine.info.currentMode
  else if s.engine.pendingSelect then s.engine.pendingSelectMode
  else lastSelect s.selected s.thread.packets

variable {s : Session}

theorem inForce_auto (hauto : s.AutoPending) : s.inForce = s.engine.info.currentMode :=
  if_pos hauto

theorem inForce_select (hauto : ¬ s.AutoPending) (hselect : s.engine.pendingSelect = true) :
    s.inForce = s.engine.pendingSelectMode := by
  rw [inForce, if_neg hauto, if_pos hselect]

theorem inForce_drain (hauto : ¬ s.AutoPending) (hselect : s.engine.pendingSelect = false) :
    s.inForce = lastSelect s.selected s.thread.packets := by
  rw [inForce, if_neg hauto, hselect, if_neg Bool.false_ne_true]

theorem not_autoPending (h : s.thread ≠ .published) : ¬ s.AutoPending := fun hauto => h hauto.1

end Session

/-- The condition on an event, in the state that it meets. -/
def Meets (s : Session) : TxEvent → Prop
  | .post i => s.thread ≠ .ended → ∀ r, s.inFlight[i]? = some r →
    match r with
    | .select mode =>
      -- A SELECT does not overtake a send for another mode.
      ¬ s.AutoPending → s.engine.pendingSend = true → s.engine.pendingSendMode = mode
    | .send mode _ needSelect =>
      -- A send whose own SELECT is missing, or about to be overwritten, is for the mode in force.
      needSelect = false ∨ s.AutoPending → mode = s.inForce
  | .receive reads =>
    -- The device does not change its mode under a send that relies on it.
    s.thread = .idle → s.engine.pendingSend = true → s.engine.pendingSelect = false →
      (s.heard reads).selected = s.engine.pendingSendMode
  | _ => True

/-! ## The invariant -/

structure Consistent (s : Session) : Prop where
  slots : s.thread ≠ .ended → s.engine.pendingSend = true → s.engine.pendingSendMode = s.inForce
  drain : DataSelected s.selected s.thread.packets

theorem consistent_start {e : Engine} (hsend : e.pendingSend = false) :
    Consistent (Session.start e) where
  slots _ h := absurd (hsend.symm.trans h) (by decide)
  drain := trivial

section step

variable {s : Session}

@[simp] theorem packets_continueWith (s : Session) (packets : List Packet) :
    (s.continueWith packets).thread.packets = packets := by
  unfold Session.continueWith
  split
  next h => exact h.symm
  · rfl

theorem Consistent.request (h : Consistent s) (r : Option Request) : Consistent (s.request r) := by
  cases r with
  | none => exact h
  | some r => exact ⟨h.slots, h.drain⟩

theorem slots_parse (e : Engine) :
    (parseMsg e).engine.pendingSelect = e.pendingSelect ∧
      (parseMsg e).engine.pendingSelectMode = e.pendingSelectMode ∧
      (parseMsg e).engine.pendingSend = e.pendingSend ∧
      (parseMsg e).engine.pendingSendMode = e.pendingSendMode ∧
      (parseMsg e).engine.pendingSendBuf = e.pendingSendBuf := by
  have heffect := parse_effect e
  generalize parseMsg e = p at heffect
  cases heffect <;> exact ⟨rfl, rfl, rfl, rfl, rfl⟩

theorem slots_listen (e : Engine) (reads : List Read) :
    (e.listen reads).pendingSelect = e.pendingSelect ∧
      (e.listen reads).pendingSelectMode = e.pendingSelectMode ∧
      (e.listen reads).pendingSend = e.pendingSend ∧
      (e.listen reads).pendingSendMode = e.pendingSendMode ∧
      (e.listen reads).pendingSendBuf = e.pendingSendBuf := by
  unfold Engine.listen
  split
  · exact ⟨rfl, rfl, rfl, rfl, rfl⟩
  next r _ =>
    split
    · exact slots_parse (e.store r)
    · exact ⟨rfl, rfl, rfl, rfl, rfl⟩

theorem Consistent.taken (h : Consistent s) (hidle : s.thread = .idle) :
    DataSelected s.selected s.engine.taken := by
  have hslots := h.slots (by rw [hidle]; nofun)
  have hauto : ¬ s.AutoPending := Session.not_autoPending (by rw [hidle]; nofun)
  unfold Engine.taken
  cases hselect : s.engine.pendingSelect with
  | true =>
    rw [Session.inForce_select hauto hselect] at hslots
    cases hsend : s.engine.pendingSend with
    | true => exact ⟨hslots hsend, trivial⟩
    | false => exact trivial
  | false =>
    rw [Session.inForce_drain hauto hselect, hidle] at hslots
    cases hsend : s.engine.pendingSend with
    | true => exact ⟨hslots hsend, trivial⟩
    | false => exact trivial

theorem Consistent.posted (h : Consistent s) {i : Nat} {r : Request} (hmeets : Meets s (.post i))
    (hr : s.inFlight[i]? = some r) : Consistent (s.posted i r) := by
  have hcond := fun halive => hmeets halive r hr
  cases r with
  | select mode =>
    refine ⟨fun halive hsend => ?_, h.drain⟩
    by_cases hauto : s.AutoPending
    · rw [Session.inForce_auto (show (s.posted i (.select mode)).AutoPending from hauto)]
      exact (h.slots halive hsend).trans (Session.inForce_auto hauto)
    · rw [Session.inForce_select (show ¬ (s.posted i (.select mode)).AutoPending from hauto) rfl]
      exact hcond halive hauto hsend
  | send mode buf needSelect =>
    cases needSelect with
    | true =>
      refine ⟨fun halive _ => ?_, h.drain⟩
      by_cases hauto : s.AutoPending
      · rw [Session.inForce_auto (show (s.posted i (.send mode buf true)).AutoPending from hauto)]
        exact (hcond halive (.inr hauto)).trans (Session.inForce_auto hauto)
      · rw [Session.inForce_select
          (show ¬ (s.posted i (.send mode buf true)).AutoPending from hauto)
          rfl]
        rfl
    | false => exact ⟨fun halive _ => hcond halive (.inl rfl), h.drain⟩

theorem Consistent.autoSelected (h : Consistent s) (hpub : s.thread = .published) :
    Consistent s.autoSelected := by
  have hslots := h.slots (by rw [hpub]; nofun)
  unfold Session.autoSelected Engine.autoSelect
  by_cases hdefault : s.engine.info.currentMode < s.engine.info.numModes
  · rw [Session.inForce_auto ⟨hpub, hdefault⟩] at hslots
    rw [if_pos hdefault]
    exact ⟨fun _ hsend => hslots hsend, trivial⟩
  · rw [Session.inForce, if_neg fun hauto => hdefault hauto.2, hpub] at hslots
    rw [if_neg hdefault]
    exact ⟨fun _ hsend => hslots hsend, trivial⟩

theorem Consistent.heard (h : Consistent s) {reads : List Read}
    (hmeets : Meets s (.receive reads)) (hidle : s.thread = .idle) :
    Consistent (s.heard reads) := by
  have hthread : (s.heard reads).thread = .idle := hidle
  have hauto : ¬ (s.heard reads).AutoPending := Session.not_autoPending (by rw [hthread]; nofun)
  obtain ⟨hselect, hselectMode, hsend, hsendMode, -⟩ := slots_listen s.engine reads
  refine ⟨fun _ hpending => ?_, by rw [hthread]; trivial⟩
  have hsent : s.engine.pendingSend = true := hsend.symm.trans hpending
  refine Eq.trans hsendMode ?_
  cases hsel : s.engine.pendingSelect with
  | true =>
    rw [Session.inForce_select hauto (hselect.trans hsel)]
    have hmode := h.slots (by rw [hidle]; nofun) hsent
    rw [Session.inForce_select (Session.not_autoPending (by rw [hidle]; nofun)) hsel] at hmode
    exact hmode.trans hselectMode.symm
  | false =>
    rw [Session.inForce_drain hauto (hselect.trans hsel), hthread]
    exact (hmeets hidle hsent hsel).symm

theorem Consistent.drained (h : Consistent s) (hidle : s.thread = .idle) :
    Consistent s.drained := by
  refine ⟨fun _ hsend => Bool.noConfusion hsend, ?_⟩
  rw [Session.drained, packets_continueWith]
  exact h.taken hidle

/-- What the drain in progress writes does not change the mode that will be in force. -/
theorem inForce_continueWith {ps qs : List Packet} (hthread : s.thread = .draining (ps ++ qs)) :
    ({ s with wire := s.wire ++ ps }.continueWith qs).inForce = s.inForce := by
  have hauto : ¬ s.AutoPending := Session.not_autoPending (by rw [hthread]; nofun)
  have hauto' : ¬ ({ s with wire := s.wire ++ ps }.continueWith qs).AutoPending := by
    apply Session.not_autoPending
    unfold Session.continueWith
    split
    · nofun
    · nofun
  cases hselect : s.engine.pendingSelect with
  | true =>
    rw [Session.inForce_select hauto hselect]
    exact Session.inForce_select hauto' hselect
  | false =>
    rw [Session.inForce_drain hauto hselect, Session.inForce_drain hauto' hselect,
      packets_continueWith, hthread]
    -- The SELECTs of `ps` are now on the wire and no longer ahead of it.
    show lastSelect (lastSelect s.engine.info.currentMode (s.wire ++ ps)) qs
      = lastSelect s.selected (ps ++ qs)
    rw [lastSelect_append, lastSelect_append]
    rfl

theorem Consistent.written (h : Consistent s) {p : Packet} {packets : List Packet}
    (hthread : s.thread = .draining (p :: packets)) :
    Consistent ((s.written p).continueWith packets) := by
  constructor
  · intro _ hsend
    refine Eq.trans ?_ (inForce_continueWith hthread).symm
    exact h.slots (by rw [hthread]; nofun) hsend
  · have hdrain := h.drain
    rw [hthread] at hdrain
    have hselected : (s.written p).selected = lastSelect s.selected [p] := lastSelect_append _ _ _
    rw [packets_continueWith]
    show DataSelected (s.written p).selected packets
    rw [hselected]
    exact hdrain.tail

theorem Consistent.ended (h : DataSelected s.selected []) :
    Consistent { s with thread := .ended } where
  slots halive := absurd rfl halive
  drain := h

/-- **One event** keeps the invariant, if it meets the condition. -/
theorem Consistent.next (h : Consistent s) {event : TxEvent} (hmeets : Meets s event) :
    Consistent (s.next event).1 := by
  have hmove := next_move s event
  generalize s.next event = after at hmove
  cases hmove with
  | none => exact h
  | select mode => exact h.request _
  | send mode buf => exact h.request _
  | post i r hr => exact h.posted hmeets hr
  | autoSelect hpub => exact h.autoSelected hpub
  | receive reads hidle => exact h.heard hmeets hidle
  | drain hidle => exact h.drained hidle
  | refuse => exact .ended trivial
  | fail => exact .ended trivial
  | write write p packets hthread => exact h.written hthread

theorem Consistent.transmitted (h : Consistent s) {event : TxEvent} {mode : UInt8}
    {buf : List UInt8} (ht : (s.next event).2 = some (.data mode buf)) : s.selected = mode := by
  -- Only a packet of the drain in progress is ever transmitted, and always the first.
  have hfirst : ∀ {packets : List Packet}, s.thread = .draining (.data mode buf :: packets) →
      s.selected = mode := by
    intro packets hthread
    have hdrain := h.drain
    rw [hthread] at hdrain
    exact hdrain.1.symm
  have hmove := next_move s event
  generalize s.next event = after at hmove ht
  cases hmove with
  | fail write p packets hthread =>
    obtain rfl := Option.some.inj ht
    exact hfirst hthread
  | write write p packets hthread =>
    obtain rfl := Option.some.inj ht
    exact hfirst hthread
  | _ => cases ht

end step

/-! ## Payloads that can be sent -/

def Request.sendable : Request → Bool
  | .select _ => true
  | .send mode buf _ => (Packet.data mode buf).sendable

/-- Whatever is on its way has a payload that the thread transmits. -/
structure Sendable (s : Session) : Prop where
  slot : s.engine.pendingSend = true →
    (Packet.data s.engine.pendingSendMode s.engine.pendingSendBuf).sendable = true
  requests : ∀ r ∈ s.inFlight, r.sendable = true
  packets : ∀ p ∈ s.thread.packets, p.sendable = true
  draining : s.thread ≠ .draining []

theorem sendable_start {e : Engine} (hsend : e.pendingSend = false) :
    Sendable (Session.start e) where
  slot h := absurd (hsend.symm.trans h) (by decide)
  requests _ h := nomatch h
  packets _ h := nomatch h
  draining := nofun

theorem sendable_checkSelect {e : Engine} {mode : UInt8} {r : Request}
    (h : (e.checkSelect mode).2 = some r) : r.sendable = true := by
  unfold Engine.checkSelect at h
  split at h
  · cases h
  · split at h
    · cases h
    · cases h
      rfl

theorem sendable_checkSend {e : Engine} {mode : UInt8} {buf : List UInt8} {r : Request}
    (h : (e.checkSend mode buf).2 = some r) : r.sendable = true := by
  unfold Engine.checkSend at h
  split at h
  · cases h
  next hlen =>
    obtain ⟨hpos, hle⟩ := not_or.mp hlen
    split at h
    · cases h
    · split at h
      · cases h
      · split at h
        · cases h
        · cases h
          exact decide_eq_true ⟨Nat.pos_of_ne_zero hpos, Nat.not_lt.mp hle⟩

theorem sendable_taken {e : Engine} (h : e.pendingSend = true →
    (Packet.data e.pendingSendMode e.pendingSendBuf).sendable = true) :
    ∀ p ∈ e.taken, p.sendable = true := by
  intro p hp
  rcases mem_append.mp hp with hp | hp
  · split at hp
    · rcases mem_cons.mp hp with rfl | hp
      · rfl
      · obtain rfl := mem_singleton.mp hp
        rfl
    · cases hp
  · split at hp
    next hsend =>
      rcases mem_cons.mp hp with rfl | hp
      · rfl
      · obtain rfl := mem_singleton.mp hp
        exact h hsend
    · cases hp

theorem draining_continueWith (s : Session) (packets : List Packet) :
    (s.continueWith packets).thread ≠ .draining [] := by
  unfold Session.continueWith
  split
  · nofun
  next hne => exact fun h => hne (Thread.draining.inj h)

section sendable

variable {s : Session}

theorem Sendable.request (h : Sendable s) {r : Option Request}
    (hr : ∀ r', r = some r' → r'.sendable = true) : Sendable (s.request r) := by
  cases r with
  | none => exact h
  | some r =>
    refine { h with requests := fun r' hmem => ?_ }
    rcases mem_append.mp hmem with hmem | hmem
    · exact h.requests r' hmem
    · obtain rfl := mem_singleton.mp hmem
      exact hr r' rfl

theorem Sendable.posted (h : Sendable s) {i : Nat} {r : Request} (hr : s.inFlight[i]? = some r) :
    Sendable (s.posted i r) := by
  have hsent := h.requests r (mem_of_getElem? hr)
  have hrest : ∀ r' ∈ s.inFlight.eraseIdx i, r'.sendable = true :=
    fun r' hmem => h.requests r' (mem_of_mem_eraseIdx hmem)
  cases r with
  | select mode => exact { h with slot := h.slot, requests := hrest }
  | send mode buf needSelect => exact { h with slot := fun _ => hsent, requests := hrest }

theorem Sendable.autoSelected (h : Sendable s) : Sendable s.autoSelected := by
  unfold Session.autoSelected Engine.autoSelect
  split
  · exact ⟨h.slot, h.requests, (fun p hp => nomatch hp), nofun⟩
  · exact ⟨h.slot, h.requests, (fun p hp => nomatch hp), nofun⟩

theorem Sendable.heard (h : Sendable s) (reads : List Read) : Sendable (s.heard reads) := by
  obtain ⟨-, -, hsend, hmode, hbuf⟩ := slots_listen s.engine reads
  refine { h with slot := fun hpending => ?_ }
  show (Packet.data (s.engine.listen reads).pendingSendMode
    (s.engine.listen reads).pendingSendBuf).sendable = true
  rw [hmode, hbuf]
  exact h.slot (hsend.symm.trans hpending)

theorem Sendable.drained (h : Sendable s) : Sendable s.drained := by
  refine ⟨fun hsend => Bool.noConfusion hsend, h.requests, ?_, draining_continueWith _ _⟩
  rw [Session.drained, packets_continueWith]
  exact sendable_taken h.slot

theorem Sendable.written (h : Sendable s) {p : Packet} {packets : List Packet}
    (hthread : s.thread = .draining (p :: packets)) :
    Sendable ((s.written p).continueWith packets) := by
  refine ⟨h.slot, h.requests, ?_, draining_continueWith _ _⟩
  rw [packets_continueWith]
  intro q hq
  apply h.packets q
  rw [hthread]
  exact mem_cons_of_mem p hq

theorem Sendable.ended (h : Sendable s) : Sendable { s with thread := .ended } where
  slot := h.slot
  requests := h.requests
  packets _ hp := nomatch hp
  draining := nofun

theorem Sendable.next (h : Sendable s) (event : TxEvent) : Sendable (s.next event).1 := by
  have hmove := next_move s event
  generalize s.next event = after at hmove
  cases hmove with
  | none => exact h
  | select mode => exact h.request fun r => sendable_checkSelect
  | send mode buf => exact h.request fun r => sendable_checkSend
  | post i r hr => exact h.posted hr
  | autoSelect => exact h.autoSelected
  | receive reads => exact h.heard reads
  | drain => exact h.drained
  | refuse => exact h.ended
  | fail write p packets hthread => exact { h.ended with }
  | write write p packets hthread => exact h.written hthread

end sendable

/-!
## DATA for the selected mode

Results:

* `diverted_of_not_meets` — an event that does not meet the condition leaves a pending send for
  another mode than the one that will be in force.
* `Diverted.transmits` — the port thread then drains that send for a mode that is not selected.
* `drain_selected` — a run meets the condition at every event exactly when the port thread may stop
  it anywhere and drain, and every DATA frame goes out for the selected mode.
-/

/-! ### A run that leaves the condition -/

/-- What the port thread does on its own when every write succeeds. -/
def threadEvents : List TxEvent := [.autoSelect, .drain, .transmit OK]

theorem transmits_threadEvents (n : Nat) :
    ∀ event ∈ List.replicate n (.transmit OK), event ∈ threadEvents := by
  intro event hmem
  rw [eq_of_mem_replicate hmem]
  exact mem_cons_of_mem _ (mem_cons_of_mem _ mem_cons_self)

/-- A DATA frame that this event transmits is for the selected mode. -/
def SelectedAt (s : Session) (event : TxEvent) : Prop :=
  ∀ mode buf, (tx.step s event).2 = some (.data mode buf) → s.selected = mode

/-- A pending send for another mode than the one that will be in force. -/
structure Diverted (s : Session) : Prop where
  alive : s.thread ≠ .ended
  pending : s.engine.pendingSend = true
  other : s.engine.pendingSendMode ≠ s.inForce

section diverted

variable {s : Session}

theorem inForce_autoSelected (hpub : s.thread = .published) :
    s.autoSelected.inForce = s.inForce := by
  have hauto : ¬ s.autoSelected.AutoPending := Session.not_autoPending (by nofun)
  by_cases hdefault : s.engine.info.currentMode < s.engine.info.numModes
  · rw [Session.inForce_auto ⟨hpub, hdefault⟩]
    have hselect : s.autoSelected.engine = s.engine.postSelect s.engine.info.currentMode :=
      if_pos hdefault
    rw [Session.inForce_select hauto (by rw [hselect]; rfl), hselect]
    rfl
  · have hselect : s.autoSelected.engine = s.engine := if_neg hdefault
    have hauto' : ¬ s.AutoPending := fun h => hdefault h.2
    rw [Session.inForce, if_neg hauto, Session.inForce, if_neg hauto', Session.selected,
      hselect, hpub]
    rfl

/-- **Every event that does not meet the condition diverts a send.** -/
theorem diverted_of_not_meets {event : TxEvent} (h : ¬ Meets s event) :
    Diverted (s.next event).1 := by
  cases event with
  | post i =>
    simp only [Meets, not_forall] at h
    obtain ⟨halive, r, hr, hcond⟩ := h
    have hnext : (s.next (.post i)).1 = s.posted i r := by simp only [Session.next, hr]
    rw [hnext]
    cases r with
    | select mode =>
      simp only [not_forall] at hcond
      obtain ⟨hauto, hsend, hne⟩ := hcond
      refine ⟨halive, hsend, ?_⟩
      rw [Session.inForce_select (show ¬ (s.posted i (.select mode)).AutoPending from hauto) rfl]
      exact hne
    | send mode buf needSelect =>
      simp only [not_forall] at hcond
      obtain ⟨hmissing, hne⟩ := hcond
      refine ⟨halive, rfl, ?_⟩
      by_cases hauto : s.AutoPending
      · have hauto' : (s.posted i (.send mode buf needSelect)).AutoPending := by
          cases needSelect <;> exact hauto
        rw [Session.inForce_auto hauto] at hne
        rw [Session.inForce_auto hauto']
        cases needSelect <;> exact hne
      · rw [hmissing.resolve_right hauto]
        exact hne
  | receive reads =>
    simp only [Meets, not_forall] at h
    obtain ⟨hidle, hsend, hselect, hne⟩ := h
    have hnext : (s.next (.receive reads)).1 = s.heard reads := by
      simp only [Session.next, if_pos hidle]
    rw [hnext]
    have hthread : (s.heard reads).thread = .idle := hidle
    obtain ⟨hselect', -, hsend', hmode', -⟩ := slots_listen s.engine reads
    refine ⟨by simp [hthread], hsend'.trans hsend, ?_⟩
    rw [Session.inForce_drain (Session.not_autoPending (by simp [hthread]))
      (hselect'.trans hselect), hthread]
    exact fun heq => hne (heq.symm.trans hmode')
  | autoSelect | drain => exact absurd trivial h
  | select mode => exact absurd trivial h
  | send mode buf => exact absurd trivial h
  | transmit write => exact absurd trivial h

theorem next_transmit (s : Session) {p : Packet} (packets : List Packet) (hp : p.sendable = true) :
    (s.continueWith (p :: packets)).next (.transmit OK)
      = ((s.written p).continueWith packets, some p) := by
  simp only [Session.next, Session.continueWith, reduceCtorEq, if_false, hp, not_true_eq_false,
    if_neg (show ¬ OK < 0 by decide)]
  rfl

theorem run_transmit (s : Session) {ps : List Packet} (qs : List Packet)
    (h : ∀ p ∈ ps, p.sendable = true) :
    tx.run (s.continueWith (ps ++ qs)) (List.replicate ps.length (.transmit OK))
      = { s with wire := s.wire ++ ps }.continueWith qs := by
  induction ps generalizing s with
  | nil => rw [append_nil]; rfl
  | cons p ps ih =>
    have hstep : (tx.step (s.continueWith (p :: ps ++ qs)) (.transmit OK)).1
        = (s.written p).continueWith (ps ++ qs) :=
      congrArg Prod.fst (next_transmit s (ps ++ qs) (h p mem_cons_self))
    rw [length_cons, replicate_succ, tx.run_cons, hstep,
      ih (s.written p) fun q hq => h q (mem_cons_of_mem p hq)]
    show ({ s.written p with wire := s.wire ++ [p] ++ ps } : Session).continueWith qs = _
    rw [append_assoc]
    rfl

theorem pendingSend_autoSelect (e : Engine) :
    e.autoSelect.pendingSend = e.pendingSend ∧
      e.autoSelect.pendingSendMode = e.pendingSendMode := by
  unfold Engine.autoSelect
  split
  · exact ⟨rfl, rfl⟩
  · exact ⟨rfl, rfl⟩

/-- The thread comes to the end of what it is doing, and the send is still diverted. -/
theorem Diverted.settles (h : Diverted s) (hs : Sendable s) :
    ∃ more, (∀ event ∈ more, event ∈ threadEvents) ∧ (tx.run s more).thread = .idle ∧
      Diverted (tx.run s more) ∧ Sendable (tx.run s more) := by
  cases hthread : s.thread with
  | published =>
    have hrun : tx.run s [.autoSelect] = s.autoSelected := by
      show (s.next .autoSelect).1 = _
      simp only [Session.next, if_pos hthread]
    obtain ⟨hsend, hmode⟩ := pendingSend_autoSelect s.engine
    refine ⟨[.autoSelect], fun event hmem => ?_, ?_⟩
    · obtain rfl := mem_singleton.mp hmem
      exact mem_cons_self
    · rw [hrun]
      refine ⟨rfl, ⟨by rintro ⟨⟩, hsend.trans h.pending, ?_⟩, hs.autoSelected⟩
      rw [inForce_autoSelected hthread]
      exact fun heq => h.other (hmode.symm.trans heq)
  | idle => exact ⟨[], fun _ hmem => absurd hmem not_mem_nil, hthread, h, hs⟩
  | draining packets =>
    have hne : packets ≠ [] := fun hnil => hs.draining (by rw [hthread, hnil])
    have hs' : s.continueWith (packets ++ []) = s := by
      rw [append_nil, Session.continueWith, if_neg hne, ← hthread]
    have hpackets : ∀ p ∈ packets, p.sendable = true := by
      intro p hp
      apply hs.packets p
      rw [hthread]
      exact hp
    have hrun := run_transmit s [] hpackets
    rw [hs'] at hrun
    refine ⟨List.replicate packets.length (.transmit OK), transmits_threadEvents _, ?_⟩
    rw [hrun]
    refine ⟨rfl, ⟨by rintro ⟨⟩, h.pending, ?_⟩,
      ⟨hs.slot, hs.requests, fun _ hp => absurd hp not_mem_nil, by rintro ⟨⟩⟩⟩
    rw [← append_nil packets] at hthread
    rw [inForce_continueWith hthread]
    exact h.other
  | ended => exact absurd hthread h.alive

theorem Diverted.transmits (h : Diverted s) (hs : Sendable s) (hidle : s.thread = .idle) :
    ∃ more, (∀ event ∈ more, event ∈ threadEvents) ∧ ¬ tx.Throughout SelectedAt s more := by
  -- Everything that is taken ahead of the DATA frame.
  let front : List Packet :=
    (if s.engine.pendingSelect then
      [.extMode s.engine.pendingSelectMode, .select s.engine.pendingSelectMode] else []) ++
    [.extMode s.engine.pendingSendMode]
  let last : Packet := .data s.engine.pendingSendMode s.engine.pendingSendBuf
  have htaken : s.engine.taken = front ++ [last] := by
    rw [Engine.taken, if_pos h.pending, append_assoc]
    rfl
  have hsendable : ∀ p ∈ front, p.sendable = true := by
    intro p hp
    apply sendable_taken hs.slot p
    rw [htaken]
    exact mem_append_left _ hp
  have hauto : ¬ s.AutoPending := Session.not_autoPending (by rw [hidle]; nofun)
  have hforce : lastSelect s.selected front = s.inForce := by
    show lastSelect s.selected ((if s.engine.pendingSelect then _ else _) ++ _) = _
    cases hselect : s.engine.pendingSelect with
    | true =>
      rw [Session.inForce_select hauto hselect]
      rfl
    | false =>
      rw [Session.inForce_drain hauto hselect, hidle]
      rfl
  let drained : Session := { s with engine := s.engine.take }
  have hdrain : (tx.step s .drain).1 = drained.continueWith (front ++ [last]) := by
    show (s.next .drain).1 = _
    simp only [Session.next, if_pos hidle, Session.drained, htaken]
    rfl
  refine ⟨.drain :: (List.replicate front.length (.transmit OK) ++ [.transmit OK]), ?_, ?_⟩
  · intro event hmem
    rcases mem_cons.mp hmem with rfl | hmem
    · exact mem_cons_of_mem _ mem_cons_self
    · rw [← replicate_succ'] at hmem
      exact transmits_threadEvents _ event hmem
  · rintro ⟨-, hrest⟩
    rw [hdrain, tx.throughout_append, run_transmit drained [last] hsendable] at hrest
    have hsent : (tx.step ({ drained with wire := drained.wire ++ front }.continueWith [last])
        (.transmit OK)).2 = some last :=
      congrArg Prod.snd (next_transmit _ [] (hs.slot h.pending))
    have hlast := hrest.2.1 s.engine.pendingSendMode s.engine.pendingSendBuf hsent
    exact h.other (hlast.symm.trans ((lastSelect_append _ _ _).trans hforce))

end diverted

/-! ### The result -/

theorem diverted_run (s : Session) (hs : Sendable s) {event : TxEvent} (h : ¬ Meets s event) :
    ∃ more, (∀ event ∈ more, event ∈ threadEvents) ∧
      ¬ tx.Throughout SelectedAt (tx.step s event).1 more := by
  obtain ⟨settle, hsettle, hidle, hdiverted, hsendable⟩ :=
    (diverted_of_not_meets h).settles (hs.next event)
  obtain ⟨more, hmore, hwrong⟩ := hdiverted.transmits hsendable hidle
  refine ⟨settle ++ more, ?_, fun hall => hwrong (tx.throughout_append.mp hall).2⟩
  intro event hmem
  exact (mem_append.mp hmem).elim (hsettle event) (hmore event)

theorem meets_threadEvent {event : TxEvent} (h : event ∈ threadEvents) (s : Session) :
    Meets s event := by
  rcases mem_cons.mp h with rfl | h
  · trivial
  rcases mem_cons.mp h with rfl | h
  · trivial
  · obtain rfl := mem_singleton.mp h
    trivial

/-- **DATA for the selected mode.** The events of a session all meet the condition exactly when the
port thread may be left alone at any moment, and until then and from then on every DATA frame goes
out for the mode that is selected. With nothing left out and nothing added, this is the session
itself. -/
theorem drain_selected (e : Engine) (hsend : e.pendingSend = false) (events : List TxEvent) :
    tx.Throughout Meets (Session.start e) events ↔
      ∀ pre post more, events = pre ++ post → (∀ event ∈ more, event ∈ threadEvents) →
        tx.Throughout SelectedAt (Session.start e) (pre ++ more) := by
  constructor
  -- The thread's own events meet any condition, so the invariant is kept to the end.
  · intro hmeets pre post more heq hmore
    rw [heq, tx.throughout_append] at hmeets
    have hall : tx.Throughout Meets (Session.start e) (pre ++ more) :=
      tx.throughout_append.mpr
        ⟨hmeets.1,
          tx.throughout_of_forall (fun event hmem => meets_threadEvent (hmore event hmem)) _⟩
    refine tx.throughout_of_invariant (fun s event hs hevent => ?_) (consistent_start hsend) hall
    exact ⟨fun mode buf ht => hs.transmitted ht, hs.next hevent⟩
  -- By induction on the events. At the first that does not meet the condition the session is
  -- stopped.
  · intro h
    have hs := sendable_start hsend
    generalize Session.start e = s at h hs
    induction events generalizing s with
    | nil => trivial
    | cons event events ih =>
      constructor
      · by_contra hnot
        obtain ⟨more, hmore, hwrong⟩ := diverted_run s hs hnot
        exact hwrong (h [event] events more rfl hmore).2
      · apply ih _ _ (hs.next event)
        intro pre post more heq hmore
        exact (h (event :: pre) post more (by rw [heq]; rfl) hmore).2

/-- A synchronized device of three writable modes, with mode 0 current. -/
def threeModes : Engine :=
  { Engine.boot true true with
    info := { DeviceInfo.zero with
      typeId := 61, numModes := 3, flags := flagSynced
      modes := List.replicate maxModes.toNat { ModeInfo.zero with writable := 1 } } }

/-- Data for mode 2 is drained together with its own SELECT. -/
theorem drain_selected_with_select :
    tx.Throughout SelectedAt (Session.start threeModes)
        ([.autoSelect, .send 2 [0x64], .post 0] ++
          [.drain, .transmit OK, .transmit OK, .transmit OK, .transmit OK]) ∧
      (tx.trace (Session.start threeModes)
          [.autoSelect, .send 2 [0x64], .post 0, .drain, .transmit OK, .transmit OK, .transmit OK,
            .transmit OK]).filterMap (·.2)
        = [.extMode 2, .select 2, .extMode 2, .data 2 [0x64]] := by
  refine ⟨?_, by decide +kernel⟩
  apply (drain_selected threeModes rfl [.autoSelect, .send 2 [0x64], .post 0]).mp ?_ _ [] _ rfl
    (by decide)
  refine ⟨trivial, trivial, fun _ r hr => ?_, trivial⟩
  have hposted : (tx.run (Session.start threeModes) [.autoSelect, .send 2 [0x64]]).inFlight[0]?
      = some (.send 2 [0x64] true) := by
    decide +kernel
  obtain rfl := Option.some.inj (hposted.symm.trans hr)
  rintro (hmissing | hauto)
  · cases hmissing
  · exact absurd hauto (by decide +kernel)

/-- Mode 2 is selected, then data is sent for mode 0, which is still current. -/
def overtaken : List TxEvent :=
  [.autoSelect, .select 2, .post 0, .send 0 [0x64], .post 0, .drain, .transmit OK, .transmit OK,
    .transmit OK, .transmit OK]

/-- **DATA for mode 0 goes out while mode 2 is selected.** -/
theorem overtaken_diverts :
    ¬ tx.Throughout SelectedAt (Session.start threeModes) overtaken ∧
      (tx.trace (Session.start threeModes) overtaken).filterMap (·.2)
        = [.extMode 2, .select 2, .extMode 0, .data 0 [0x64]] := by
  refine ⟨?_, by decide +kernel⟩
  intro hall
  have hlast := (tx.throughout_append.mp
    (show tx.Throughout SelectedAt _ (overtaken.take 9 ++ [.transmit OK]) from hall)).2.1
  have hmode := hlast 0 [0x64] (by decide +kernel)
  exact absurd hmode (by decide +kernel)

end Brickwright.Lump
