import Brickwright.Charger

/-!
# The charge timeout

`charger_poll_work` counts the ticks over which `MODE` is on, switches it off at the 14400th and
does nothing else for 120 ticks. `vbus_worker` is not held up by that: a rise of VBUS that it
handles in the pause switches `MODE` on, and the ticks of the pause are not counted.
`timeoutKept_of_calm` is what holds of the runs without such a rise.
-/

namespace Brickwright.Charger

open State

def EndsTick (s : State) : Input → Prop
  | .poll => s.polling = false ∧ s.chargePaused = true
  | .pollRest _ => s.polling = true
  | _ => False

instance (s : State) : (input : Input) → Decidable (EndsTick s input)
  | .poll => inferInstanceAs (Decidable (_ ∧ _))
  | .pollRest _ => inferInstanceAs (Decidable (_ = _))
  | .edge | .vbusWorker | .detect _ => inferInstanceAs (Decidable False)

def ticks : State → List Input → Nat
  | _, [] => 0
  | s, input :: events =>
    (if EndsTick s input then 1 else 0) + ticks (machine.step s input).1 events

/-- `MODE` is on all the time. -/
def Enabled (s : State) (events : List Input) : Prop :=
  machine.Throughout (fun s _ => s.modeDuty = 0) s events ∧ (machine.run s events).modeDuty = 0

structure TimeoutKept (start : State) (events : List Input) : Prop where
  limited : ∀ before during after, events = before ++ (during ++ after) →
    Enabled (machine.run start before) during →
    ticks (machine.run start before) during ≤ chargeTimeoutTicks
  paused : ∀ before adc during after, events = before ++ .pollRest adc :: (during ++ after) →
    (machine.run start before).polling = true → TimesOut (machine.run start before) →
    let s := (machine.run start before).pollRest adc
    ticks s during < chargePauseTicks →
      (machine.run s during).modeDuty ≠ 0 ∧
      ∀ input ∈ after.head?, EndsTick (machine.run s during) input →
        (machine.step (machine.run s during) input).1.modeDuty ≠ 0

/-- No rise of VBUS is handled in a pause. -/
def Calm (s : State) : Input → Prop
  | .vbusWorker =>
    s.vbusQueued = true ∧ s.polling = false ∧ s.vbus = true ∧ s.prevVbus = false →
      s.chargePaused = false
  | _ => True

instance (s : State) : (input : Input) → Decidable (Calm s input)
  | .vbusWorker => inferInstanceAs (Decidable (_ → _))
  | .edge | .poll | .pollRest _ | .detect _ => inferInstanceAs (Decidable True)

/-! ## Single sections -/

/-- `MODE` is off in a pause, and the ticks it is on are below the limit. -/
structure Counts (s : State) : Prop where
  paused : s.chargePaused = true → s.modeDuty ≠ 0 ∧ s.polling = false
  count : s.chargeCount < chargeTimeoutTicks

/-- The pause, after `n` of its ticks. -/
structure Pausing (n : Nat) (s : State) : Prop where
  paused : s.chargePaused = true
  idle : s.polling = false
  off : s.modeDuty ≠ 0
  count : s.pauseCount = n

/-- What a section does to the count and to a pause. -/
structure Goes (s : State) (input : Input) (s' : State) : Prop where
  counts : Counts s'
  tick : EndsTick s input → s'.modeDuty = 0 → s'.chargeCount = s.chargeCount + 1
  between : ¬EndsTick s input → s'.chargeCount = s.chargeCount
  pausing : ∀ n, Pausing n s → ¬EndsTick s input → Pausing n s'
  pauseTick : ∀ n, Pausing n s → EndsTick s input →
    s'.modeDuty ≠ 0 ∧ (n + 1 < chargePauseTicks → Pausing (n + 1) s')

section Steps

variable {s s' : State} {input : Input}

theorem timeoutTicks_pos : 0 < chargeTimeoutTicks := by decide

theorem Goes.of_between (hnot : ¬EndsTick s input) (hcounts : Counts s')
    (hcount : s'.chargeCount = s.chargeCount) (hpausing : ∀ n, Pausing n s → Pausing n s') :
    Goes s input s' :=
  ⟨hcounts, fun h => absurd h hnot, fun _ => hcount, fun n hp _ => hpausing n hp,
    fun _ _ h => absurd h hnot⟩

theorem goes_detect (h : Counts s) (det : Bool) : Goes s (.detect det) (s.detect det) := by
  have hsame : ∀ {s' : State}, s'.modeDuty = s.modeDuty → s'.chargePaused = s.chargePaused →
      s'.pauseCount = s.pauseCount → s'.polling = s.polling → s'.chargeCount = s.chargeCount →
      Goes s (.detect det) s' := by
    intro s' hmode hpaused hpause hpolling hcount
    refine .of_between id ⟨?_, ?_⟩ hcount fun n hp => ?_
    · rw [hmode, hpaused, hpolling]
      exact h.paused
    · rw [hcount]
      exact h.count
    · exact ⟨hpaused.trans hp.paused, hpolling.trans hp.idle, hmode ▸ hp.off, hpause.trans hp.count⟩
  unfold detect
  repeat' split
  all_goals exact hsame rfl rfl rfl rfl rfl

theorem counts_handleVbusTransition (h : Counts s)
    (hcalm : s.vbus = true ∧ s.prevVbus = false → s.chargePaused = false) :
    Counts s.handleVbusTransition ∧ s.handleVbusTransition.chargeCount = s.chargeCount ∧
      ∀ n, Pausing n s → Pausing n s.handleVbusTransition := by
  rcases handleVbusTransition_cases s with ⟨-, heq⟩ | ⟨hvbus, hprev, heq⟩ | ⟨-, -, heq⟩
  · rw [heq]
    exact ⟨h, rfl, fun _ => id⟩
  · have hrunning := hcalm ⟨hvbus, hprev⟩
    rw [heq]
    refine ⟨⟨fun hp => ?_, h.count⟩, rfl, fun n hp => ?_⟩
    · exact absurd (hrunning.symm.trans hp) Bool.false_ne_true
    · exact absurd (hrunning.symm.trans hp.paused) Bool.false_ne_true
  · rw [heq]
    exact ⟨⟨fun hp => ⟨modeDuty_off, (h.paused hp).2⟩, h.count⟩, rfl,
      fun n hp => ⟨hp.paused, hp.idle, modeDuty_off, hp.count⟩⟩

theorem counters_pollRest (s : State) (adc : Adc) :
    (TimesOut s → (s.pollRest adc).chargeCount = 0 ∧ (s.pollRest adc).pauseCount = 0) ∧
      (¬TimesOut s → (s.pollRest adc).chargeCount = if s.vbus then s.chargeCount + 1 else 0) ∧
      (s.pollRest adc).vbus = s.vbus := by
  have hled : ∀ s : State, s.updateBatteryLed.chargeCount = s.chargeCount ∧
      s.updateBatteryLed.pauseCount = s.pauseCount ∧ s.updateBatteryLed.vbus = s.vbus := by
    intro s
    unfold updateBatteryLed
    repeat' split
    all_goals exact ⟨rfl, rfl, rfl⟩
  have hlevel : ((s.setMode s.vbus).sampleCharger adc).vbus = s.vbus := by
    unfold sampleCharger classify
    dsimp only
    split <;> rfl
  have hcount : ((s.setMode s.vbus).sampleCharger adc).chargeCount =
      if s.vbus then s.chargeCount + 1 else 0 := (frame_sampleCharger (s.setMode s.vbus) adc).2
  unfold pollRest
  generalize (s.setMode s.vbus).sampleCharger adc = s₁ at hcount hlevel ⊢
  obtain ⟨hcharge, hpause, hvbus⟩ := hled s₁.pauseIfTimeout
  refine ⟨fun hover => ?_, fun hnot => ?_, ?_⟩
  · have hge : s₁.chargeCount ≥ chargeTimeoutTicks := by
      rw [hcount, if_pos hover.1]
      exact hover.2
    rw [pauseIfTimeout, if_pos hge] at hcharge hpause
    rw [pauseIfTimeout, if_pos hge]
    exact ⟨hcharge, hpause⟩
  · have hlt : ¬s₁.chargeCount ≥ chargeTimeoutTicks := by
      rw [hcount]
      split
      · next hvbus => exact fun hge => hnot ⟨hvbus, hge⟩
      · decide
    rw [pauseIfTimeout, if_neg hlt] at hcharge
    rw [pauseIfTimeout, if_neg hlt]
    exact hcharge.trans hcount
  · refine hvbus.trans (Eq.trans ?_ hlevel)
    unfold pauseIfTimeout
    split <;> rfl

theorem pausing_of_timesOut (hover : TimesOut s) (adc : Adc) : Pausing 0 (s.pollRest adc) := by
  obtain ⟨hpaused, hoff, -⟩ := (tickEnd_pollRest s adc).paused hover
  exact ⟨hpaused, rfl, hoff, ((counters_pollRest s adc).1 hover).2⟩

theorem goes_pollRest (h : Counts s) (hpolling : s.polling = true) (adc : Adc) :
    Goes s (.pollRest adc) (s.pollRest adc) := by
  have hrunning : s.chargePaused = false :=
    Bool.eq_false_iff.mpr fun hp => absurd (hpolling.symm.trans (h.paused hp).2) (by decide)
  have hend := tickEnd_pollRest s adc
  obtain ⟨hout, hin, -⟩ := counters_pollRest s adc
  refine ⟨⟨fun hp => ?_, ?_⟩, fun _ hon => ?_, fun hnot => absurd hpolling hnot,
    fun n hp => absurd (hrunning.symm.trans hp.paused) (by decide),
    fun n hp => absurd (hrunning.symm.trans hp.paused) (by decide)⟩
  · refine ⟨?_, rfl⟩
    by_cases hover : TimesOut s
    · exact (hend.paused hover).2.1
    · exact absurd (((hend.running hover).1.trans hrunning).symm.trans hp) (by decide)
  · by_cases hover : TimesOut s
    · rw [(hout hover).1]
      decide
    · rw [hin hover]
      split
      · next hvbus => exact Nat.lt_of_not_ge fun hge => hover ⟨hvbus, hge⟩
      · decide
  · have hover : ¬TimesOut s := fun hover => (hend.paused hover).2.1 hon
    have hmode := (hend.running hover).2.1
    rw [hin hover]
    refine if_pos ?_
    by_contra hvbus
    rw [if_neg hvbus] at hmode
    exact modeDuty_off (hmode.symm.trans hon)

theorem goes_poll (h : Counts s) (hidle : s.polling = false) : Goes s .poll s.poll.1 := by
  unfold poll
  split
  · next hp =>
    have hends : EndsTick s .poll := ⟨hidle, hp⟩
    obtain ⟨hoff, -⟩ := h.paused hp
    split
    · next hover =>
      refine ⟨⟨by rintro ⟨⟩, timeoutTicks_pos⟩, fun _ hon => absurd hon hoff,
        fun hnot => absurd hends hnot,
        fun _ _ hnot => absurd hends hnot, fun n hn _ => ⟨hoff, fun hlt => ?_⟩⟩
      rw [← hn.count] at hlt
      exact absurd hover (Nat.not_le_of_lt hlt)
    · refine ⟨⟨fun _ => ⟨hoff, hidle⟩, h.count⟩, fun _ hon => absurd hon hoff,
        fun hnot => absurd hends hnot, fun _ _ hnot => absurd hends hnot,
        fun n hn _ => ⟨hoff, fun _ => ⟨hp, hidle, hoff, ?_⟩⟩⟩
      exact congrArg (· + 1) hn.count
  · next hp =>
    have hrunning : s.chargePaused = false := Bool.eq_false_iff.mpr hp
    obtain ⟨hcounts, hcount, -⟩ := counts_handleVbusTransition h fun _ => hrunning
    have hsame : s.handleVbusTransition.chargePaused = false := by
      rcases handleVbusTransition_cases s with ⟨-, heq⟩ | ⟨-, -, heq⟩ | ⟨-, -, heq⟩
      all_goals
        rw [heq]
        exact hrunning
    refine .of_between (fun hends => hp hends.2) ⟨fun hnow => ?_, hcounts.count⟩ hcount
      fun n hn => absurd hn.paused hp
    exact absurd (hsame.symm.trans hnow) (by decide)

theorem goes_step (h : Counts s) (hcalm : Calm s input) :
    Goes s input (machine.step s input).1 := by
  have hstay : ¬EndsTick s input → Goes s input s := fun hnot => .of_between hnot h rfl fun _ => id
  cases input with
  | edge => exact .of_between id ⟨h.paused, h.count⟩ rfl fun n hp => ⟨hp.1, hp.2, hp.3, hp.4⟩
  | vbusWorker =>
    show Goes s _ (body s .vbusWorker).1
    unfold body
    dsimp only
    split
    · next hruns =>
      obtain ⟨hcounts, hcount, hpause⟩ := counts_handleVbusTransition h fun hrise =>
        hcalm ⟨hruns.1, Bool.eq_false_iff.mpr hruns.2, hrise⟩
      refine .of_between id ⟨hcounts.paused, hcounts.count⟩ hcount fun n hp => ?_
      obtain ⟨hpaused, hidle, hoff, hn⟩ := hpause n hp
      exact ⟨hpaused, hidle, hoff, hn⟩
    · exact hstay id
  | poll =>
    show Goes s _ (body s .poll).1
    unfold body
    dsimp only
    split
    · next hpolling => exact hstay fun hends => absurd (hpolling.symm.trans hends.1) nofun
    · next hidle => exact goes_poll h (Bool.eq_false_iff.mpr hidle)
  | pollRest adc =>
    show Goes s _ (body s (.pollRest adc)).1
    unfold body
    dsimp only
    split
    · next hpolling => exact goes_pollRest h hpolling adc
    · next hidle => exact hstay hidle
  | detect det =>
    show Goes s _ (body s (.detect det)).1
    unfold body
    dsimp only
    split
    · exact hstay id
    · exact goes_detect h det

end Steps

/-! ## Runs -/

section Runs

variable {s : State} {events : List Input}

theorem counts_run (h : Counts s) (hcalm : machine.Throughout Calm s events) :
    Counts (machine.run s events) := by
  induction events generalizing s with
  | nil => exact h
  | cons input events ih => exact ih (goes_step h hcalm.1).counts hcalm.2

theorem ticks_enabled (h : Counts s) (hcalm : machine.Throughout Calm s events)
    (hon : Enabled s events) :
    s.chargeCount + ticks s events = (machine.run s events).chargeCount := by
  induction events generalizing s with
  | nil => rfl
  | cons input events ih =>
    obtain ⟨hcounts, htick, hbetween, -⟩ := goes_step h hcalm.1
    have hnext : (machine.step s input).1.modeDuty = 0 := by
      cases events with
      | nil => exact hon.2
      | cons => exact hon.1.2.1
    rw [machine.run_cons, ← ih hcounts hcalm.2 ⟨hon.1.2, hon.2⟩, ticks]
    split
    · next hends =>
      rw [htick hends hnext]
      omega
    · next hnot => rw [hbetween hnot, Nat.zero_add]

theorem pausing_run {n : Nat} (h : Counts s) (hp : Pausing n s)
    (hcalm : machine.Throughout Calm s events) (hlt : n + ticks s events < chargePauseTicks) :
    Pausing (n + ticks s events) (machine.run s events) := by
  induction events generalizing s n with
  | nil => exact hp
  | cons input events ih =>
    have hgoes := goes_step h hcalm.1
    rw [ticks] at hlt ⊢
    split
    · next hends =>
      rw [if_pos hends] at hlt
      rw [← Nat.add_assoc] at hlt ⊢
      exact ih hgoes.counts ((hgoes.pauseTick n hp hends).2 (by omega)) hcalm.2 hlt
    · next hnot =>
      rw [if_neg hnot, Nat.zero_add] at hlt
      rw [Nat.zero_add]
      exact ih hgoes.counts (hgoes.pausing n hp hnot) hcalm.2 hlt

theorem counts_at_start (prev vbus : Bool) : Counts (batteryChargerInitialize prev vbus) := by
  cases prev <;> exact ⟨nofun, timeoutTicks_pos⟩

/-- **The timeout in a calm run.** -/
theorem timeoutKept_of_calm {prev vbus : Bool}
    (hcalm : machine.Throughout Calm (batteryChargerInitialize prev vbus) events) :
    TimeoutKept (batteryChargerInitialize prev vbus) events where
  limited := by
    rintro before during after rfl hon
    obtain ⟨hbefore, hrest⟩ := machine.throughout_append.mp hcalm
    obtain ⟨hduring, -⟩ := machine.throughout_append.mp hrest
    have hcounts := counts_run (counts_at_start prev vbus) hbefore
    have hend := (counts_run hcounts hduring).count
    rw [← ticks_enabled hcounts hduring hon] at hend
    omega
  paused := by
    rintro before adc during after rfl hpolling hover s hlt
    obtain ⟨hbefore, -, hrest⟩ := machine.throughout_append.mp hcalm
    have hcounts := counts_run (counts_at_start prev vbus) hbefore
    have hnext : (machine.step (machine.run (batteryChargerInitialize prev vbus) before)
        (.pollRest adc)).1 = s := congrArg Prod.fst (if_pos hpolling)
    rw [hnext] at hrest
    obtain ⟨hduring, hafter⟩ := machine.throughout_append.mp hrest
    have hs : Counts s := (goes_pollRest hcounts hpolling adc).counts
    have hp := pausing_run hs (pausing_of_timesOut hover adc) hduring (by omega)
    refine ⟨hp.off, fun input hinput hends => ?_⟩
    cases after with
    | nil => exact absurd hinput nofun
    | cons input' after =>
      obtain rfl := Option.some.inj hinput
      exact ((goes_step (counts_run hs hduring) hafter.1).pauseTick _ hp hends).1

end Runs

section Replug

variable {s : State} {n : Nat}

/-- Charging, after `n` ticks. -/
structure Charging (n : Nat) (s : State) : Prop where
  running : s.chargePaused = false
  idle : s.polling = false
  vbus : s.vbus = true
  prevVbus : s.prevVbus = true
  duty : s.tim5.duty ≠ 0
  count : s.chargeCount = n

def polls (adc : Adc) : Nat → List Input
  | 0 => []
  | n + 1 => polls adc n ++ [.poll, .pollRest adc]

theorem calm_polls (adc : Adc) (n : Nat) : ∀ input ∈ polls adc n, ∀ s, Calm s input := by
  induction n with
  | zero => exact fun _ hmem => nomatch hmem
  | succ n ih =>
    refine List.forall_mem_append.mpr ⟨ih, ?_⟩
    simp [Calm]

/-- An hour of charging, and the pause. -/
theorem timeoutKept_of_calm_hour : TimeoutKept (batteryChargerInitialize true true)
    (polls ⟨true, 3000, 10⟩ (chargeTimeoutTicks + chargePauseTicks)) := by
  generalize chargeTimeoutTicks + chargePauseTicks = n
  exact timeoutKept_of_calm (machine.throughout_of_forall (calm_polls _ _) _)

theorem step_poll (h : Charging n s) : (machine.step s .poll).1 = { s with polling := true } := by
  show (body s .poll).1 = _
  rw [body, if_neg (Bool.eq_false_iff.mp h.idle), State.poll,
    if_neg (Bool.eq_false_iff.mp h.running), handleVbusTransition,
    if_pos (h.vbus.trans h.prevVbus.symm)]

theorem charging_polls (h : Charging 0 s) (adc : Adc) (hlt : n < chargeTimeoutTicks) :
    Charging n (machine.run s (polls adc n)) := by
  induction n with
  | zero => exact h
  | succ n ih =>
    have hn := ih (by omega)
    rw [polls, machine.run_append, machine.run_cons, step_poll hn]
    generalize machine.run s (polls adc n) = s₁ at hn
    show Charging (n + 1) (State.pollRest { s₁ with polling := true } adc)
    have hnot : ¬TimesOut { s₁ with polling := true } := fun hover => by
      have hge : s₁.chargeCount + 1 ≥ chargeTimeoutTicks := hover.2
      rw [hn.count] at hge
      omega
    have hend := tickEnd_pollRest { s₁ with polling := true } adc
    obtain ⟨hpaused, -, hduty⟩ := hend.running hnot
    obtain ⟨-, hcount, hvbus⟩ := counters_pollRest { s₁ with polling := true } adc
    refine ⟨hpaused.trans hn.running, hend.polling, hvbus.trans hn.vbus,
      hend.prevVbus.trans hn.prevVbus, hduty ▸ hn.duty, ?_⟩
    rw [hcount hnot, if_pos hn.vbus]
    exact congrArg (· + 1) hn.count

theorem sound_polls (h : Charging 0 s) (adc : Adc) (hn : n ≤ chargeTimeoutTicks) :
    machine.Throughout Sound s (polls adc n) := by
  induction n with
  | zero => exact trivial
  | succ n ih =>
    have hc := charging_polls h adc (show n < chargeTimeoutTicks by omega)
    rw [polls, machine.throughout_append]
    refine ⟨ih (by omega), trivial, fun _ => .inr ?_, trivial⟩
    rw [step_poll hc]
    exact iff_of_true hc.vbus hc.duty

/-- A charger is plugged in and recognised. -/
def plugIn : List Input :=
  [.edge, .vbusWorker, .detect true, .detect true, .detect true, .detect true, .detect true,
    .detect true, .detect true]

/-- It charges for an hour, up to the pause. -/
theorem outputsSafe_of_sound_hour : OutputsSafe false false
    (plugIn ++ polls ⟨true, 3000, 10⟩ chargeTimeoutTicks) := by
  obtain ⟨n, hn⟩ : ∃ n, n = chargeTimeoutTicks := ⟨_, rfl⟩
  have hcharging : Charging 0 (machine.run (batteryChargerInitialize false false) plugIn) := by
    constructor <;> decide
  rw [← hn]
  apply outputsSafe_of_sound
  exact machine.throughout_append.mpr ⟨by decide, sound_polls hcharging _ (Nat.le_of_eq hn)⟩

theorem modeDuty_replug (hvbus : s.vbus = true) (hprev : s.prevVbus = true)
    (hidle : s.polling = false) :
    (machine.run s [.edge, .vbusWorker, .edge, .vbusWorker]).modeDuty = 0 := by
  simp [Machine.run, machine, body, handleVbusTransition, setMode, setIset, hvbus, hprev, hidle]

theorem not_timeoutKept_of_replug (h : Charging 0 s) (adc : Adc) (hn : n + 1 = chargeTimeoutTicks) :
    ¬TimeoutKept s ((polls adc n ++ [.poll]) ++
      .pollRest adc :: ([.edge, .vbusWorker, .edge, .vbusWorker] ++ [])) := by
  intro hkept
  have hc := charging_polls h adc (show n < chargeTimeoutTicks by omega)
  have hpaused := hkept.paused _ adc _ [] rfl
  rw [machine.run_append, machine.run_cons, machine.run_nil, step_poll hc] at hpaused
  generalize machine.run s (polls adc n) = s₁ at hc hpaused
  have hover : TimesOut { s₁ with polling := true } := ⟨hc.vbus, by
    show s₁.chargeCount + 1 ≥ chargeTimeoutTicks
    rw [hc.count, hn]⟩
  have hend := tickEnd_pollRest { s₁ with polling := true } adc
  obtain ⟨-, -, hvbus⟩ := counters_pollRest { s₁ with polling := true } adc
  obtain ⟨hoff, -⟩ := hpaused rfl hover (by simp [ticks, EndsTick, chargePauseTicks])
  exact hoff (modeDuty_replug (hvbus.trans hc.vbus) (hend.prevVbus.trans hc.prevVbus) hend.polling)

end Replug

/-- After an hour of charging, the hub is unplugged and plugged in again in the pause. -/
theorem not_timeoutKept : ¬ ∀ prev vbus events,
    TimeoutKept (batteryChargerInitialize prev vbus) events := by
  intro h
  obtain ⟨n, hn⟩ : ∃ n, n + 1 = chargeTimeoutTicks := ⟨14399, rfl⟩
  have hcharging : Charging 0 (batteryChargerInitialize true true) := by constructor <;> decide
  exact not_timeoutKept_of_replug hcharging ⟨true, 3000, 10⟩ hn (h true true _)

end Brickwright.Charger
