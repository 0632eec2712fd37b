import Mathlib.Data.List.FinRange
import Brickwright.Machine.History

/-!
# The battery charger (`stm32_battery_charger.c`)

Two pins of the MP2639A are driven: `MODE`, a channel of the LED driver, and `ISET`, the duty of
TIM5. `charger_poll_work` and `vbus_worker` run on `HPWORK`, one at a time; `bcd_detect_worker` runs
on `LPWORK`, and while it waits they overtake it. `HPWORK` has the higher priority and its handlers
do not wait, so the detection does not take a step while one of them runs. VBUS may change at any
time, also between the two times that a poll tick reads it.
-/

namespace Brickwright.Charger

abbrev chgNumSamples : Nat := 7

def chargeTimeoutTicks : Nat := 60 * 60 * 1000 / 250

def chargePauseTicks : Nat := 30 * 1000 / 250

def isetDutyOff : Nat := 0

def isetDuty500mA : Nat := 150

def isetDuty1500mA : Nat := 999

def batFullMv : Nat := 8190

def ledCompleteOnTicks : Nat := 11

def ledCompletePeriod : Nat := 12

def ledFaultOnTicks : Nat := 2

def ledFaultPeriod : Nat := 4

/-! ## The timer -/

def tim5Arr : Nat := 999

/-- The registers of TIM5. The counter runs in PWM mode 1 only; else the output is forced low. -/
structure Tim5 where
  cen : Bool
  pwm : Bool
  ccr1 : Nat
  pwm_of_cen : cen = true → pwm = true
  deriving DecidableEq

namespace Tim5

/-- `iset_pwm_initialize`. -/
def off : Tim5 := ⟨false, false, 0, nofun⟩

def duty (t : Tim5) : Nat := if t.cen && t.pwm then t.ccr1 else 0

/-- `iset_pwm_set_duty`. -/
def setDuty (t : Tim5) (duty : Nat) : Tim5 :=
  let duty := if duty > tim5Arr then tim5Arr else duty
  if duty = 0 then off
  else if t.cen then { t with ccr1 := duty }
  else ⟨true, true, duty, fun _ => rfl⟩

@[simp] theorem duty_setDuty (t : Tim5) (duty : Nat) :
    (t.setDuty duty).duty = min duty tim5Arr := by
  have hle : (if duty > tim5Arr then tim5Arr else duty) = min duty tim5Arr := by
    split <;> omega
  unfold setDuty
  rw [hle]
  dsimp only
  split
  · next h0 => exact h0.symm
  · split
    · next hcen =>
      have hpwm := t.pwm_of_cen hcen
      simp [Tim5.duty, hcen, hpwm]
    · rfl

end Tim5

/-! ## The driver -/

inductive BatteryStatus where
  | fault
  | charging
  | full
  | discharging
  deriving DecidableEq, Repr

/-- `BCD_NONE` and the kinds of a port. -/
inductive Bcd where
  | none
  | nonstandard
  | sdp
  | cdp
  | dcp
  deriving DecidableEq, Repr

def Bcd.duty : Bcd → Nat
  | .sdp => isetDuty500mA
  | .cdp | .dcp | .nonstandard => isetDuty1500mA
  | .none => isetDutyOff

/-- The bits of `GCCFG` that the detection writes. -/
structure Gccfg where
  bcden : Bool := false
  dcden : Bool := false
  pden : Bool := false
  sden : Bool := false
  pwrdwn : Bool := true
  deriving DecidableEq, Repr

/-- Where `bcd_detect_worker` is: behind which of its waits, or at the two writes of its result. -/
inductive Detection where
  | idle
  | dataContact
  | primaryOff
  | primary
  | secondaryOff
  | secondary
  | done (result : Bcd)
  | applying (result : Bcd)
  deriving DecidableEq, Repr

/-- What the converter reads: `read_chg`, `ADC_RANK_VBAT` and `ADC_RANK_IBAT`. -/
structure Adc where
  chg : Bool
  vbat : UInt16
  ibat : UInt16
  deriving DecidableEq, Repr

structure State where
  /-- `TLC5955_CH_CHARGER_MODE`; active low. -/
  modeDuty : UInt16 := 0
  ledR : UInt16 := 0
  ledG : UInt16 := 0
  ledB : UInt16 := 0
  tim5 : Tim5 := .off
  gccfg : Gccfg := {}
  chgSamples : Fin chgNumSamples → Bool := fun _ => false
  chgIndex : Fin chgNumSamples := ⟨0, by decide⟩
  chargerStatus : BatteryStatus := .discharging
  modeEnabled : Bool := false
  chargeCount : Nat := 0
  pauseCount : Nat := 0
  chargePaused : Bool := false
  ledBlinkCount : Nat := 0
  avgVoltage : Nat := 0
  avgInitialized : Bool := false
  /-- The level that was handled last. -/
  prevVbus : Bool
  bcdResult : Bcd := .none
  /-- The level of PA9. -/
  vbus : Bool
  /-- `vbus_work` and `bcd_work` are queued. -/
  vbusQueued : Bool := false
  bcdQueued : Bool := false
  /-- A poll tick is between its two readings of VBUS. -/
  polling : Bool := false
  detection : Detection := .idle

namespace State

/-- `charger_set_mode`. -/
def setMode (s : State) (enable : Bool) : State :=
  { s with modeDuty := if enable then 0 else 0xffff, modeEnabled := enable }

def setIset (s : State) (duty : Nat) : State := { s with tim5 := s.tim5.setDuty duty }

def handleVbusTransition (s : State) : State :=
  if s.vbus = s.prevVbus then s
  else if s.vbus then
    { (s.setIset isetDuty500mA).setMode true with bcdQueued := true, prevVbus := true }
  else { (s.setIset isetDutyOff).setMode false with bcdResult := .none, prevVbus := false }

def updateAverageVoltage (s : State) (adc : Adc) : State :=
  let currentMa := adc.ibat.toNat * 7300 / 4096
  let voltageMv := adc.vbat.toNat * 9900 / 4096 + currentMa * 3 / 16
  { s with
    avgVoltage := if s.avgInitialized then (s.avgVoltage * 127 + voltageMv) / 128 else voltageMv
    avgInitialized := true }

/-- How often neighbours in the ring of samples differ; the first has the last as its neighbour. -/
def transitions (s : State) : Nat :=
  (List.finRange chgNumSamples).countP fun i => s.chgSamples i ≠ s.chgSamples (i - 1)

/-- The status of the charger, and the ticks it has been charging. -/
def classify (s : State) : State :=
  if s.modeEnabled then
    { s with
      chargeCount := s.chargeCount + 1
      chargerStatus :=
        if s.transitions > 2 then .fault
        else if s.chgSamples s.chgIndex then .charging
        else if s.chargeCount + 1 > 2 then .full
        else .discharging }
  else { s with chargerStatus := .discharging, chargeCount := 0 }

/-- The part of a tick that samples the charger and counts. -/
def sampleCharger (s : State) (adc : Adc) : State :=
  let s := { s with chgSamples := Function.update s.chgSamples s.chgIndex adc.chg }
  let s := (s.updateAverageVoltage adc).classify
  { s with chgIndex := s.chgIndex + 1 }

def pauseIfTimeout (s : State) : State :=
  if s.chargeCount ≥ chargeTimeoutTicks then
    { ({ s with chargerStatus := .discharging }.setMode false).setIset isetDutyOff with
      chargePaused := true, pauseCount := 0, chargeCount := 0 }
  else s

def updateBatteryLed (s : State) : State :=
  match s.chargerStatus with
  | .charging =>
    if s.avgVoltage ≥ batFullMv then { s with ledR := 0, ledG := 0xffff, ledB := 0 }
    else { s with ledR := 0xffff, ledG := 0, ledB := 0 }
  | .full =>
    let count := (s.ledBlinkCount + 1) % ledCompletePeriod
    { s with
      ledBlinkCount := count, ledR := 0, ledB := 0
      ledG := if count < ledCompleteOnTicks then 0xffff else 0 }
  | .fault =>
    let count := (s.ledBlinkCount + 1) % ledFaultPeriod
    let level := if count < ledFaultOnTicks then 0xffff else 0
    { s with ledBlinkCount := count, ledR := level, ledG := level, ledB := 0 }
  | .discharging => { s with ledR := 0, ledG := 0, ledB := 0 }

end State

inductive Note where
  | edge
  /-- A tick has ended the pause; the level of VBUS is then this. -/
  | resumes (vbus : Bool)
  /-- A tick has ended, and left the outputs so. -/
  | polled (mode : Bool) (iset : Nat)
  deriving DecidableEq, Repr

namespace State

/-- `charger_poll_work`, up to its second reading of VBUS. -/
def poll (s : State) : State × List Note :=
  if s.chargePaused then
    if s.pauseCount + 1 ≥ chargePauseTicks then
      ({ s with chargePaused := false, chargeCount := 0, pauseCount := 0 }, [.resumes s.vbus])
    else ({ s with pauseCount := s.pauseCount + 1 }, [])
  else ({ s.handleVbusTransition with polling := true }, [])

/-- `charger_poll_work`, from `charger_enable_if_usb` on. -/
def pollRest (s : State) (adc : Adc) : State :=
  { ((s.setMode s.vbus).sampleCharger adc).pauseIfTimeout.updateBatteryLed with polling := false }

/-- `bcd_detect_worker`, one section. `det` is the bit of `GCCFG` that the section reads. -/
def detect (s : State) (det : Bool) : State :=
  match s.detection with
  | .idle =>
    if ¬s.bcdQueued then s
    else if ¬s.vbus then { s with bcdQueued := false }
    else
      { s with
        bcdQueued := false, detection := .dataContact
        gccfg := { bcden := true, dcden := true, pden := false, sden := false, pwrdwn := false } }
  | .dataContact =>
    { s with
      gccfg := { s.gccfg with dcden := false }
      detection := if det then .primaryOff else .done .nonstandard }
  | .primaryOff => { s with gccfg := { s.gccfg with pden := true }, detection := .primary }
  | .primary =>
    { s with
      gccfg := { s.gccfg with pden := false }
      detection := if det then .secondaryOff else .done .sdp }
  | .secondaryOff => { s with gccfg := { s.gccfg with sden := true }, detection := .secondary }
  | .secondary =>
    { s with
      gccfg := { s.gccfg with sden := false }
      detection := .done (if det then .dcp else .cdp) }
  | .done result =>
    { s with
      gccfg := { bcden := false, dcden := false, pden := false, sden := false, pwrdwn := true }
      bcdResult := result, detection := .applying result }
  | .applying result => { s.setIset result.duty with detection := .idle }

end State

inductive Input where
  /-- VBUS changes, and `vbus_exti_isr` runs. -/
  | edge
  | vbusWorker
  | poll
  /-- The tick goes on behind its second reading of VBUS. -/
  | pollRest (adc : Adc)
  | detect (det : Bool)
  deriving DecidableEq

def body (s : State) : Input → State × List Note
  | .edge => ({ s with vbus := !s.vbus, vbusQueued := true }, [.edge])
  | .vbusWorker =>
    if s.vbusQueued ∧ ¬s.polling then ({ s.handleVbusTransition with vbusQueued := false }, [])
    else (s, [])
  | .poll => if s.polling then (s, []) else s.poll
  | .pollRest adc =>
    if s.polling then
      (s.pollRest adc, [.polled ((s.pollRest adc).modeDuty = 0) (s.pollRest adc).tim5.duty])
    else (s, [])
  | .detect det => (if s.polling then s else s.detect det, [])

def machine : Machine State Input (List Note) := ⟨body⟩

/-- `stm32_battery_charger_initialize`, which has read the level `prev`; the level is `vbus` at its
end. -/
def batteryChargerInitialize (prev vbus : Bool) : State :=
  let s : State := { prevVbus := prev, vbus := vbus }
  if prev then { (s.setIset isetDuty500mA).setMode true with bcdQueued := true }
  else (s.setMode false).setIset isetDutyOff

/-!
## The outputs of the charger

Three handlers write the two outputs, and none looks at what the others are about: the detection
sets `ISET` when its waits are over, whatever has happened to VBUS meanwhile; a rise of VBUS is
handled in a pause as at any other time; a tick reads VBUS twice, for the two outputs; and the end
of a pause leaves `ISET` to the next rise. A section that does none of these keeps the outputs
together, and each of them takes them apart (`kept_step_iff`). So they are together in every run
without such sections (`outputsSafe_of_sound`).
-/

open State
open List

/-! ### What is asked for -/

/-- `MODE` is on exactly if `ISET` is; both are off without VBUS and in a pause. -/
structure Safe (s : State) : Prop where
  together : s.modeDuty = 0 ↔ s.tim5.duty ≠ 0
  off : s.prevVbus = false ∨ s.chargePaused = true → s.modeDuty ≠ 0 ∧ s.tim5.duty = 0

def State.NoWorker (s : State) : Prop := s.polling = false ∧ s.detection = .idle

/-- A pause has ended with VBUS present, the next tick leaves the outputs so, and VBUS has not
changed in between. -/
def Resumes (h : List Note) (mode : Bool) (iset : Nat) : Prop :=
  ∃ before after, h = before ++ .resumes true :: .polled mode iset :: after

structure OutputsSafe (prev vbus : Bool) (events : List Input) : Prop where
  safe : ∀ before, before <+: events →
    (machine.run (batteryChargerInitialize prev vbus) before).NoWorker →
    Safe (machine.run (batteryChargerInitialize prev vbus) before)
  resumed : ∀ mode iset,
    Resumes (machine.history (batteryChargerInitialize prev vbus) events) mode iset →
    mode = true ∧ iset ≠ 0

/-! ### When a section keeps it -/

def TimesOut (s : State) : Prop := s.vbus = true ∧ s.chargeCount + 1 ≥ chargeTimeoutTicks

instance (s : State) : Decidable (TimesOut s) := inferInstanceAs (Decidable (_ ∧ _))

/-- The detection is about to set `ISET`. -/
def Applies (s : State) : Prop :=
  match s.detection with
  | .applying _ => True
  | _ => False

instance (s : State) : Decidable (Applies s) := by
  unfold Applies
  split <;> infer_instance

/-- The detection sets `ISET` while `MODE` is on; no rise of VBUS is handled in a pause; and at the
second reading of VBUS in a tick, `ISET` is on exactly if VBUS is present. -/
def Sound (s : State) : Input → Prop
  | .edge | .poll => True
  | .vbusWorker =>
    s.vbusQueued = true ∧ s.polling = false ∧ s.vbus = true ∧ s.prevVbus = false →
      s.chargePaused = false
  | .pollRest _ => s.polling = true → TimesOut s ∨ (s.vbus = true ↔ s.tim5.duty ≠ 0)
  | .detect _ => s.polling = false ∧ Applies s → s.modeDuty = 0

instance (s : State) (input : Input) : Decidable (Sound s input) := by
  cases input <;> unfold Sound <;> infer_instance

/-! ### What the sections do -/

section Sections

variable (s : State)

theorem modeDuty_off : (0xffff : UInt16) ≠ 0 := by decide

theorem handleVbusTransition_cases :
    (s.vbus = s.prevVbus ∧ s.handleVbusTransition = s) ∨
    (s.vbus = true ∧ s.prevVbus = false ∧ s.handleVbusTransition =
      { (s.setIset isetDuty500mA).setMode true with bcdQueued := true, prevVbus := true }) ∨
    (s.vbus = false ∧ s.prevVbus = true ∧ s.handleVbusTransition =
      { (s.setIset isetDutyOff).setMode false with bcdResult := .none, prevVbus := false }) := by
  unfold handleVbusTransition
  split
  · next hsame => exact .inl ⟨hsame, rfl⟩
  · next hne =>
    split
    · next hvbus =>
      rw [hvbus] at hne
      exact .inr (.inl ⟨hvbus, Bool.eq_false_iff.mpr (Ne.symm hne), rfl⟩)
    · next hvbus =>
      have hvbus : s.vbus = false := Bool.eq_false_iff.mpr hvbus
      rw [hvbus] at hne
      exact .inr (.inr ⟨hvbus, Bool.eq_true_of_not_eq_false (Ne.symm hne), rfl⟩)

/-- Nothing that the outputs depend on has changed. -/
structure Frame (s s' : State) : Prop where
  prevVbus : s'.prevVbus = s.prevVbus
  detection : s'.detection = s.detection
  chargePaused : s'.chargePaused = s.chargePaused
  modeDuty : s'.modeDuty = s.modeDuty
  tim5 : s'.tim5 = s.tim5

theorem frame_sampleCharger (adc : Adc) : Frame s (s.sampleCharger adc) ∧
    (s.sampleCharger adc).chargeCount = if s.modeEnabled then s.chargeCount + 1 else 0 := by
  unfold sampleCharger classify
  dsimp only
  split
  · next hmode => exact ⟨⟨rfl, rfl, rfl, rfl, rfl⟩, (if_pos hmode).symm⟩
  · next hmode => exact ⟨⟨rfl, rfl, rfl, rfl, rfl⟩, (if_neg hmode).symm⟩

theorem frame_updateBatteryLed : Frame s s.updateBatteryLed := by
  unfold updateBatteryLed
  split
  · split <;> exact ⟨rfl, rfl, rfl, rfl, rfl⟩
  all_goals exact ⟨rfl, rfl, rfl, rfl, rfl⟩

theorem pauseIfTimeout_of_ge (h : s.chargeCount ≥ chargeTimeoutTicks) :
    s.pauseIfTimeout.prevVbus = s.prevVbus ∧ s.pauseIfTimeout.detection = s.detection ∧
      s.pauseIfTimeout.chargePaused = true ∧ s.pauseIfTimeout.modeDuty ≠ 0 ∧
      s.pauseIfTimeout.tim5.duty = 0 := by
  rw [pauseIfTimeout, if_pos h]
  exact ⟨rfl, rfl, rfl, modeDuty_off, Tim5.duty_setDuty ..⟩

/-- What a tick leaves behind its second reading of VBUS. -/
structure TickEnd (s s' : State) : Prop where
  prevVbus : s'.prevVbus = s.prevVbus
  polling : s'.polling = false
  detection : s'.detection = s.detection
  paused : TimesOut s → s'.chargePaused = true ∧ s'.modeDuty ≠ 0 ∧ s'.tim5.duty = 0
  running : ¬TimesOut s → s'.chargePaused = s.chargePaused ∧
    s'.modeDuty = (if s.vbus then 0 else 0xffff) ∧ s'.tim5.duty = s.tim5.duty

theorem tickEnd_pollRest (adc : Adc) : TickEnd s (s.pollRest adc) := by
  obtain ⟨hframe, hcount⟩ := frame_sampleCharger (s.setMode s.vbus) adc
  have hled := frame_updateBatteryLed ((s.setMode s.vbus).sampleCharger adc).pauseIfTimeout
  -- the count of a tick with `MODE` off is below the limit
  have hout : TimesOut s ↔ ((s.setMode s.vbus).sampleCharger adc).chargeCount ≥
      chargeTimeoutTicks := by
    rw [hcount]
    show _ ↔ (if s.vbus = true then s.chargeCount + 1 else 0) ≥ _
    split
    · next hvbus => exact and_iff_right hvbus
    · next hvbus => exact ⟨fun h => absurd h.1 hvbus, fun h => absurd h (by decide)⟩
  by_cases hover : TimesOut s
  · obtain ⟨hprev, hdetection, hpaused, hmode, hduty⟩ := pauseIfTimeout_of_ge _ (hout.mp hover)
    refine ⟨(hled.prevVbus.trans hprev).trans hframe.prevVbus, rfl,
      (hled.detection.trans hdetection).trans hframe.detection,
      fun _ => ⟨hled.chargePaused.trans hpaused, ?_, ?_⟩, fun hnot => absurd hover hnot⟩
    · exact fun h0 => hmode (hled.modeDuty.symm.trans h0)
    · exact (congrArg Tim5.duty hled.tim5).trans hduty
  · have hsame : ((s.setMode s.vbus).sampleCharger adc).pauseIfTimeout =
        (s.setMode s.vbus).sampleCharger adc := if_neg (hout.not.mp hover)
    rw [hsame] at hled
    unfold pollRest
    rw [hsame]
    exact ⟨hled.prevVbus.trans hframe.prevVbus, rfl, hled.detection.trans hframe.detection,
      fun h => absurd h hover, fun _ => ⟨hled.chargePaused.trans hframe.chargePaused,
        hled.modeDuty.trans hframe.modeDuty, congrArg Tim5.duty (hled.tim5.trans hframe.tim5)⟩⟩

end Sections

/-! ### One section -/

/-- The outputs while no handler of `HPWORK` is running, and between the two readings of a tick. A
detection has a result. -/
structure Kept (s : State) : Prop where
  safe : s.polling = false → Safe s
  running : s.polling = true → s.chargePaused = false ∧ (s.prevVbus = false → s.tim5.duty = 0)
  result : s.detection ≠ .done .none ∧ s.detection ≠ .applying .none

section Steps

variable {s : State}

theorem Safe.of_frame {s' : State} (h : Safe s) (hframe : Frame s s') : Safe s' := by
  obtain ⟨hprev, -, hpaused, hmode, htim⟩ := hframe
  refine ⟨?_, ?_⟩
  · rw [hmode, htim]
    exact h.together
  · rw [hprev, hpaused, hmode, htim]
    exact h.off

/-- A transition of VBUS keeps the outputs together, unless it is a rise in a pause. -/
theorem safe_handleVbusTransition_iff (h : Safe s) : Safe s.handleVbusTransition ↔
    (s.vbus = true ∧ s.prevVbus = false → s.chargePaused = false) := by
  rcases handleVbusTransition_cases s with ⟨hsame, heq⟩ | ⟨hvbus, hprev, heq⟩ | ⟨hvbus, hprev, heq⟩
  · rw [heq]
    refine ⟨fun _ hrise => ?_, fun _ => h⟩
    rw [hrise.1, hrise.2] at hsame
    cases hsame
  · have hduty : (s.tim5.setDuty isetDuty500mA).duty = 150 := Tim5.duty_setDuty ..
    rw [heq]
    refine ⟨fun hs _ => ?_, fun hp => ⟨?_, ?_⟩⟩
    · refine Bool.eq_false_iff.mpr fun hpaused => ?_
      exact (hs.off (.inr hpaused)).1 rfl
    · exact ⟨fun _ h0 => absurd (hduty.symm.trans h0) (by decide), fun _ => rfl⟩
    · rintro (h0 | h0)
      · cases h0
      · exact absurd ((hp ⟨hvbus, hprev⟩).symm.trans h0) Bool.false_ne_true
  · have hduty : (s.tim5.setDuty isetDutyOff).duty = 0 := Tim5.duty_setDuty ..
    rw [heq]
    refine ⟨fun _ hrise => ?_, fun _ => ⟨?_, fun _ => ⟨modeDuty_off, hduty⟩⟩⟩
    · rw [hvbus] at hrise
      cases hrise.1
    · exact ⟨fun h0 => absurd h0 modeDuty_off, fun h0 => absurd hduty h0⟩

theorem kept_poll (h : Kept s) (hidle : s.polling = false) : Kept s.poll.1 := by
  have hsafe := h.safe hidle
  unfold poll
  split
  · next hpaused =>
    have hoff := hsafe.off (.inr hpaused)
    split
    · exact ⟨fun _ => ⟨hsafe.together, fun _ => hoff⟩, fun hp => absurd (hidle.symm.trans hp) nofun,
        h.result⟩
    · exact ⟨fun _ => ⟨hsafe.together, hsafe.off⟩, fun hp => absurd (hidle.symm.trans hp) nofun,
        h.result⟩
  · next hrunning =>
    have hrunning : s.chargePaused = false := Bool.eq_false_iff.mpr hrunning
    have hhandled := (safe_handleVbusTransition_iff hsafe).mpr fun _ => hrunning
    rcases handleVbusTransition_cases s with ⟨-, heq⟩ | ⟨-, -, heq⟩ | ⟨-, -, heq⟩
    all_goals
      rw [heq] at hhandled ⊢
      exact ⟨nofun, fun _ => ⟨hrunning, fun hprev => (hhandled.off (.inl hprev)).2⟩, h.result⟩

/-- The rest of a tick leaves the outputs together exactly if VBUS agrees with `ISET`, or the pause
begins. -/
theorem kept_pollRest_iff (h : Kept s) (hpolling : s.polling = true) (adc : Adc) :
    Kept (s.pollRest adc) ↔ TimesOut s ∨ (s.vbus = true ↔ s.tim5.duty ≠ 0) := by
  obtain ⟨hprev, hidle, hdetection, htimeout, hrunning⟩ := tickEnd_pollRest s adc
  have hkept : Kept (s.pollRest adc) ↔ Safe (s.pollRest adc) :=
    ⟨fun hk => hk.safe hidle, fun hs => ⟨fun _ => hs, fun hp => absurd (hidle.symm.trans hp) nofun,
      hdetection ▸ h.result⟩⟩
  rw [hkept]
  by_cases hover : TimesOut s
  · obtain ⟨-, hmode, hduty⟩ := htimeout hover
    refine iff_of_true ⟨iff_of_false hmode fun h0 => h0 hduty, fun _ => ⟨hmode, hduty⟩⟩ (.inl hover)
  · obtain ⟨hpaused, hmode, hduty⟩ := hrunning hover
    have hvbus : (s.pollRest adc).modeDuty = 0 ↔ s.vbus = true := by
      rw [hmode]
      split
      · next hv => exact iff_of_true rfl hv
      · next hv => exact iff_of_false modeDuty_off hv
    rw [or_iff_right hover]
    constructor
    · intro hs
      rw [← hvbus, hs.together, hduty]
    · intro hiff
      refine ⟨?_, fun hoff => ?_⟩
      · rw [hvbus, hduty]
        exact hiff
      · rw [hpaused, (h.running hpolling).1, hprev] at hoff
        have hzero := (h.running hpolling).2 (hoff.resolve_right nofun)
        rw [hduty, ne_eq, hvbus, hiff]
        exact ⟨fun h0 => h0 hzero, hzero⟩

/-- A step of the detection keeps the outputs together, unless it sets `ISET` while `MODE` is
off. -/
theorem kept_detect_iff (h : Kept s) (hidle : s.polling = false) (det : Bool) :
    Kept (s.detect det) ↔ (Applies s → s.modeDuty = 0) := by
  have hsafe := h.safe hidle
  have hrest : ∀ {s' : State}, Frame s { s' with detection := s.detection } → s'.polling = false →
      s'.detection ≠ .done .none ∧ s'.detection ≠ .applying .none → ¬Applies s →
      (Kept s' ↔ (Applies s → s.modeDuty = 0)) := fun hframe hp hr hnot =>
    iff_of_true ⟨fun _ => ⟨(hsafe.of_frame hframe).together, (hsafe.of_frame hframe).off⟩,
      fun hp' => absurd (hp.symm.trans hp') nofun, hr⟩ fun happ => absurd happ hnot
  have happlies : ∀ {d : Detection}, s.detection = d → (∀ result, d ≠ .applying result) →
      ¬Applies s := fun hd hne happ => by
    unfold Applies at happ
    split at happ
    · next result hr => exact hne result (hd.symm.trans hr)
    · exact happ
  unfold detect
  split
  · next hd =>
    have hnot := happlies hd nofun
    split
    · exact hrest ⟨rfl, rfl, rfl, rfl, rfl⟩ hidle h.result hnot
    · split
      · exact hrest ⟨rfl, rfl, rfl, rfl, rfl⟩ hidle h.result hnot
      · exact hrest ⟨rfl, rfl, rfl, rfl, rfl⟩ hidle ⟨nofun, nofun⟩ hnot
  · next hd =>
    refine hrest ⟨rfl, rfl, rfl, rfl, rfl⟩ hidle ?_ (happlies hd nofun)
    cases det <;> exact ⟨nofun, nofun⟩
  · next hd => exact hrest ⟨rfl, rfl, rfl, rfl, rfl⟩ hidle ⟨nofun, nofun⟩ (happlies hd nofun)
  · next hd =>
    refine hrest ⟨rfl, rfl, rfl, rfl, rfl⟩ hidle ?_ (happlies hd nofun)
    cases det <;> exact ⟨nofun, nofun⟩
  · next hd => exact hrest ⟨rfl, rfl, rfl, rfl, rfl⟩ hidle ⟨nofun, nofun⟩ (happlies hd nofun)
  · next hd =>
    refine hrest ⟨rfl, rfl, rfl, rfl, rfl⟩ hidle ?_ (happlies hd nofun)
    cases det <;> exact ⟨nofun, nofun⟩
  · next result hd =>
    refine hrest ⟨rfl, rfl, rfl, rfl, rfl⟩ hidle ⟨nofun, fun hnone => ?_⟩ (happlies hd nofun)
    cases hnone
    exact h.result.1 hd
  · next result hd =>
    have happ : Applies s := by
      unfold Applies
      rw [hd]
      trivial
    have hduty : (s.tim5.setDuty result.duty).duty ≠ 0 := by
      have hne : result ≠ .none := fun hnone => h.result.2 (hnone ▸ hd)
      rw [Tim5.duty_setDuty]
      cases result with
      | none => exact absurd rfl hne
      | nonstandard | sdp | cdp | dcp => decide
    constructor
    · exact fun hk _ => (hk.safe hidle).together.mpr hduty
    · intro hmode
      have hon : ¬(s.prevVbus = false ∨ s.chargePaused = true) := fun hoff =>
        (hsafe.off hoff).1 (hmode happ)
      exact ⟨fun _ => ⟨iff_of_true (hmode happ) hduty, fun hoff => absurd hoff hon⟩,
        fun hp => absurd (hidle.symm.trans hp) nofun, nofun, nofun⟩

/-- **A section keeps the outputs together exactly if it is sound.** -/
theorem kept_step_iff (h : Kept s) (input : Input) :
    Kept (machine.step s input).1 ↔ Sound s input := by
  show Kept (body s input).1 ↔ _
  cases input with
  | edge =>
    refine iff_of_true ⟨fun hp => ?_, h.running, h.result⟩ trivial
    exact ⟨(h.safe hp).together, (h.safe hp).off⟩
  | vbusWorker =>
    dsimp only [body, Sound]
    split
    · next hgo =>
      have hidle : s.polling = false := Bool.eq_false_iff.mpr hgo.2
      have hiff := safe_handleVbusTransition_iff (h.safe hidle)
      have hsame : Kept { s.handleVbusTransition with vbusQueued := false } ↔
          Safe s.handleVbusTransition := by
        have hrest : s.handleVbusTransition.polling = false ∧
            s.handleVbusTransition.detection = s.detection := by
          rcases handleVbusTransition_cases s with ⟨-, heq⟩ | ⟨-, -, heq⟩ | ⟨-, -, heq⟩ <;>
            rw [heq] <;> exact ⟨hidle, rfl⟩
        constructor
        · exact fun hk => ⟨(hk.safe hrest.1).together, (hk.safe hrest.1).off⟩
        · intro hs
          refine ⟨fun _ => ⟨hs.together, hs.off⟩, fun hp =>
            absurd (hrest.1.symm.trans hp) nofun, ?_⟩
          exact hrest.2 ▸ h.result
      rw [hsame, hiff]
      exact ⟨fun hp hrise => hp hrise.2.2, fun hp hrise => hp ⟨hgo.1, hidle, hrise⟩⟩
    · next hnot =>
      refine iff_of_true h fun hrise => absurd ⟨hrise.1, ?_⟩ hnot
      exact Bool.eq_false_iff.mp hrise.2.1
  | poll =>
    refine iff_of_true ?_ trivial
    dsimp only [body]
    split
    · exact h
    · next hidle => exact kept_poll h (Bool.eq_false_iff.mpr hidle)
  | pollRest adc =>
    dsimp only [body, Sound]
    split
    · next hpolling =>
      rw [kept_pollRest_iff h hpolling, forall_prop_of_true hpolling]
    · next hidle => exact iff_of_true h fun hp => absurd hp hidle
  | detect det =>
    dsimp only [body, Sound]
    split
    · next hpolling => exact iff_of_true h fun hgo => absurd (hpolling.symm.trans hgo.1) nofun
    · next hidle =>
      have hidle : s.polling = false := Bool.eq_false_iff.mpr hidle
      rw [kept_detect_iff h hidle]
      exact ⟨fun hp hgo => hp hgo.2, fun hp happ => hp ⟨hidle, happ⟩⟩

/-! ### The end of a pause -/

theorem handleVbusTransition_count (s : State) : s.handleVbusTransition.vbus = s.vbus ∧
    s.handleVbusTransition.chargeCount = s.chargeCount := by
  rcases handleVbusTransition_cases s with ⟨-, heq⟩ | ⟨-, -, heq⟩ | ⟨-, -, heq⟩ <;> rw [heq] <;>
    exact ⟨rfl, rfl⟩

theorem detect_count (s : State) (det : Bool) :
    (s.detect det).vbus = s.vbus ∧ (s.detect det).chargeCount = s.chargeCount := by
  unfold detect
  split
  · split
    · exact ⟨rfl, rfl⟩
    · split <;> exact ⟨rfl, rfl⟩
  all_goals exact ⟨rfl, rfl⟩

/-- A section either notes nothing and leaves VBUS and the count, or it notes one thing. -/
theorem notes_cases (s : State) (input : Input) :
    ((body s input).2 = [] ∧ (body s input).1.vbus = s.vbus ∧
      (body s input).1.chargeCount = s.chargeCount) ∨
    (body s input).2 = [.edge] ∨
    (∃ vbus, (body s input).2 = [.resumes vbus] ∧ (body s input).1.vbus = vbus ∧
      (body s input).1.chargeCount = 0) ∨
    ∃ adc, input = .pollRest adc ∧ s.polling = true ∧
      (body s input).2 =
        [.polled ((s.pollRest adc).modeDuty = 0) (s.pollRest adc).tim5.duty] := by
  cases input with
  | edge => exact .inr (.inl rfl)
  | vbusWorker =>
    dsimp only [body]
    split
    · exact .inl ⟨rfl, handleVbusTransition_count s⟩
    · exact .inl ⟨rfl, rfl, rfl⟩
  | poll =>
    dsimp only [body]
    split
    · exact .inl ⟨rfl, rfl, rfl⟩
    · unfold State.poll
      split
      · split
        · exact .inr (.inr (.inl ⟨_, rfl, rfl, rfl⟩))
        · exact .inl ⟨rfl, rfl, rfl⟩
      · exact .inl ⟨rfl, handleVbusTransition_count s⟩
  | pollRest adc =>
    dsimp only [body]
    split
    · next hpolling => exact .inr (.inr (.inr ⟨adc, rfl, hpolling, rfl⟩))
    · exact .inl ⟨rfl, rfl, rfl⟩
  | detect det =>
    dsimp only [body]
    split
    · exact .inl ⟨rfl, rfl, rfl⟩
    · exact .inl ⟨rfl, detect_count s det⟩

/-- After the end of a pause with VBUS present, and before anything else is noted, VBUS is present
and nothing is counted. -/
def Waiting (h : List Note) (s : State) : Prop :=
  ∀ before, h = before ++ [.resumes true] → s.vbus = true ∧ s.chargeCount = 0

theorem waiting_step {h : List Note} (hw : Waiting h s) (input : Input) :
    Waiting (h ++ (body s input).2) (body s input).1 := by
  intro before hsplit
  rcases notes_cases s input with ⟨hnotes, hvbus, hcount⟩ | hnotes | ⟨vbus, hnotes, hvbus, hcount⟩ |
    ⟨adc, -, -, hnotes⟩
  · rw [hnotes, append_nil] at hsplit
    rw [hvbus, hcount]
    exact hw before hsplit
  · rw [hnotes] at hsplit
    cases (append_inj' hsplit rfl).2
  · rw [hnotes] at hsplit
    cases (append_inj' hsplit rfl).2
    exact ⟨hvbus, hcount⟩
  · rw [hnotes] at hsplit
    cases (append_inj' hsplit rfl).2

end Steps

/-! ### Whole runs -/

theorem kept_at_start (prev vbus : Bool) : Kept (batteryChargerInitialize prev vbus) := by
  cases prev with
  | false =>
    have hduty : ((Tim5.off).setDuty isetDutyOff).duty = 0 := Tim5.duty_setDuty ..
    refine ⟨fun _ => ⟨?_, fun _ => ⟨modeDuty_off, hduty⟩⟩, nofun, nofun, nofun⟩
    exact ⟨fun h0 => absurd h0 modeDuty_off, fun h0 => absurd hduty h0⟩
  | true =>
    have hduty : ((Tim5.off).setDuty isetDuty500mA).duty = 150 := Tim5.duty_setDuty ..
    refine ⟨fun _ => ⟨?_, fun h0 => h0.elim nofun nofun⟩, nofun, nofun, nofun⟩
    exact ⟨fun _ h0 => absurd (hduty.symm.trans h0) (by decide), fun _ => rfl⟩

section Runs

variable {prev vbus : Bool} {events : List Input}

theorem kept_of_sound {s : State} (hk : Kept s) (hall : machine.Throughout Sound s events) :
    Kept (machine.run s events) := by
  induction events generalizing s with
  | nil => exact hk
  | cons input events ih => exact ih ((kept_step_iff hk input).mpr hall.1) hall.2

theorem waiting_run (prev vbus : Bool) (events : List Input) :
    Waiting (machine.history (batteryChargerInitialize prev vbus) events)
      (machine.run (batteryChargerInitialize prev vbus) events) :=
  @Machine.history_invariant _ _ _ machine _ Waiting (fun _ _ input hw => waiting_step hw input) []
    (fun _ hsplit => absurd hsplit (by simp)) events

theorem resumed_of_sound
    (hall : machine.Throughout Sound (batteryChargerInitialize prev vbus) events) {mode : Bool}
    {iset : Nat}
    (h : Resumes (machine.history (batteryChargerInitialize prev vbus) events) mode iset) :
    mode = true ∧ iset ≠ 0 := by
  obtain ⟨before, after, hsplit⟩ := h
  rw [← singleton_append, ← append_assoc] at hsplit
  obtain ⟨pre, input, post, l, r, rfl, hnotes, hpre, -⟩ := Machine.exists_step_of_history hsplit
  obtain ⟨-, hrest⟩ := machine.throughout_append.mp hall
  have hwait := waiting_run prev vbus pre
  generalize machine.run (batteryChargerInitialize prev vbus) pre = s at *
  rcases notes_cases s input with ⟨hnil, -⟩ | hone | ⟨_, hone, -⟩ | ⟨adc, rfl, hpolling, hone⟩
  · exact absurd (hnotes.symm.trans hnil) (by simp)
  · cases l with
    | nil => cases hnotes.symm.trans hone
    | cons n l => exact absurd (congrArg List.length (hnotes.symm.trans hone)) (by simp)
  · cases l with
    | nil => cases hnotes.symm.trans hone
    | cons n l => exact absurd (congrArg List.length (hnotes.symm.trans hone)) (by simp)
  · cases l with
    | cons n l => exact absurd (congrArg List.length (hnotes.symm.trans hone)) (by simp)
    | nil =>
      rw [append_nil] at hpre
      obtain ⟨hvbus, hcount⟩ := hwait before hpre.symm
      have hover : ¬TimesOut s := fun hover => by
        have := hover.2
        rw [hcount] at this
        exact absurd this (by decide)
      obtain ⟨-, -, -, -, hrunning⟩ := tickEnd_pollRest s adc
      obtain ⟨-, hmode, hduty⟩ := hrunning hover
      have hiff := (hrest.1 hpolling).resolve_left hover
      cases hnotes.symm.trans hone
      rw [hmode, if_pos hvbus, hduty]
      exact ⟨rfl, hiff.mp hvbus⟩

/-- **The outputs in a sound run.** -/
theorem outputsSafe_of_sound
    (hall : machine.Throughout Sound (batteryChargerInitialize prev vbus) events) :
    OutputsSafe prev vbus events where
  safe := by
    rintro before ⟨after, rfl⟩ hidle
    exact (kept_of_sound (kept_at_start prev vbus) (machine.throughout_append.mp hall).1).safe
      hidle.1
  resumed := fun _ _ => resumed_of_sound hall

end Runs

/-- VBUS disappears while the detection waits. -/
theorem not_outputsSafe : ¬ ∀ prev vbus events, OutputsSafe prev vbus events := by
  intro h
  have hsafe := (h true true
    [.detect true, .edge, .vbusWorker, .detect false, .detect false, .detect false]).safe _
    prefix_rfl ⟨by decide, by decide⟩
  exact absurd (hsafe.off (.inl (by decide))).2 (by decide)

end Brickwright.Charger
