import Brickwright.Legoport.Handoff.Basic

/-!
# The re-scan of an unowned port

`stm32_legoport.c`: a port with a UART that nobody owns is scanned again at every expiry of a gate.
Three confirmations of no device, or of one other type, release it. Each kind has its streak, and
neither clears the other's: `releases_in_a_row` is what holds of the runs that confirm the one only
while there is no streak of the other.
-/

namespace Brickwright.Legoport

open List

def affirmativeMatch : UInt8 := 20

def unownedDisconnectK : UInt8 := 3

def typeNone : UInt8 := 0

def lpf2UnknownUart : UInt8 := 14

inductive RescanNote where
  | confirmed (type : UInt8)
  /-- The port goes back to its normal scan. -/
  | released
  /-- `legoport_invoke_handoff` is called. -/
  | handsOff
  deriving DecidableEq

/-- The gate of `DCM_LATCHED_UART_UNOWNED_IDLE`. -/
def Dcm.gate (d : Dcm) (now : Nat) : Dcm :=
  if now < d.unownedIdleUntil then d
  else { d with state := .s0Init, inUnownedRescan := true, matchCount := 0, prevTypeId := typeNone }

def Dcm.rearm (d : Dcm) (now : Nat) : Dcm :=
  { d with
    inUnownedRescan := false, state := .latchedUartUnownedIdle
    unownedIdleUntil := now + msec2tick unownedProbeMs }

/-- A streak is long enough to release the port, or the gate is armed again. -/
def Dcm.decide (d : Dcm) (streak : UInt8) (now : Nat) : Dcm × List RescanNote :=
  if streak ≥ unownedDisconnectK then
    ({ d with
      inUnownedRescan := false, state := .s0Init, matchCount := 0, prevTypeId := typeNone },
      [.released])
  else (d.rearm now, [])

/-- The streaks of `DCM_S8_FINALIZE`. -/
def Dcm.confirm (d : Dcm) (newConfirmed : UInt8) (now : Nat) : Dcm × List RescanNote :=
  if newConfirmed = lpf2UnknownUart then
    ({ d with unownedDiscStreak := 0, unownedOtherStreak := 0 }.rearm now, [])
  else if newConfirmed = typeNone then
    let d := { d with unownedDiscStreak := d.unownedDiscStreak + 1 }
    d.decide d.unownedDiscStreak now
  else
    let d :=
      if d.unownedOtherType = newConfirmed then
        { d with unownedOtherStreak := d.unownedOtherStreak + 1 }
      else { d with unownedOtherStreak := 1, unownedOtherType := newConfirmed }
    d.decide d.unownedOtherStreak now

/-- The count of `DCM_S8_FINALIZE`. -/
def Dcm.matched (d : Dcm) : UInt8 := if d.matchCount < 255 then d.matchCount + 1 else d.matchCount

/-- `DCM_S8_FINALIZE`, behind a scan that has found `typeId`. -/
def Dcm.finalize (d : Dcm) (typeId : UInt8) (now : Nat) : Dcm × List RescanNote :=
  if typeId = d.prevTypeId then
    let d := { d with matchCount := d.matched }
    if d.matchCount ≥ affirmativeMatch then
      if d.inUnownedRescan then
        ((d.confirm typeId now).1, .confirmed typeId :: (d.confirm typeId now).2)
      else if typeId = lpf2UnknownUart then (d, [.confirmed typeId, .handsOff])
      else ({ d with state := .s0Init }, [.confirmed typeId])
    else ({ d with state := .s0Init }, [])
  else ({ d with matchCount := 0, prevTypeId := typeId, state := .s0Init }, [])

inductive RescanInput where
  | gate (now : Nat)
  /-- A scan from `DCM_S0_INIT` on is over. -/
  | scanned (typeId : UInt8) (now : Nat)

/-- `legoport_dcm_step`, with the states of one scan as one. -/
def rescanBody (d : Dcm) : RescanInput → Dcm × List RescanNote
  | .gate now => (if d.state = .latchedUartUnownedIdle then d.gate now else d, [])
  | .scanned typeId now => if d.state = .s0Init then d.finalize typeId now else (d, [])

def rescan : Machine Dcm RescanInput (List RescanNote) := ⟨rescanBody⟩

/-! ## The streaks -/

def confirmedTypes (h : List RescanNote) : List UInt8 :=
  h.filterMap fun
    | .confirmed type => some type
    | _ => none

/-- The first release comes behind three confirmations in a row of one type, no UART. -/
def ReleasesInARow (h : List RescanNote) : Prop :=
  ∀ before after, h = before ++ .released :: after → RescanNote.released ∉ before →
    ∃ type, type ≠ lpf2UnknownUart ∧ List.replicate 3 type <:+ confirmedTypes before

/-- A type is confirmed only while there is no streak of the other kind. -/
def Alone (d : Dcm) : RescanInput → Prop
  | .scanned typeId _ =>
    d.inUnownedRescan = true ∧ typeId = d.prevTypeId ∧ d.matched ≥ affirmativeMatch →
      (typeId = typeNone → d.unownedOtherStreak = 0) ∧
      (typeId ≠ typeNone → typeId ≠ lpf2UnknownUart → d.unownedDiscStreak = 0)
  | .gate _ => True

instance (d : Dcm) (input : RescanInput) : Decidable (Alone d input) := by
  cases input <;> unfold Alone <;> infer_instance

/-- A streak that does not release the port yet. -/
structure Streak (n type : UInt8) (h : List RescanNote) : Prop where
  last : List.replicate n.toNat type <:+ confirmedTypes h
  short : n.toNat < 3

/-- The streaks of a port that has not been released. -/
structure Streaks (h : List RescanNote) (d : Dcm) : Prop where
  rescan : d.state ≠ .latchedUartUnownedIdle → d.inUnownedRescan = true
  disc : Streak d.unownedDiscStreak typeNone h
  other : Streak d.unownedOtherStreak d.unownedOtherType h

section Steps

variable {h : List RescanNote} {d : Dcm}

theorem confirmedTypes_append (h notes : List RescanNote) :
    confirmedTypes (h ++ notes) = confirmedTypes h ++ confirmedTypes notes := filterMap_append

theorem confirmedTypes_confirmed (h : List RescanNote) (type : UInt8) :
    confirmedTypes (h ++ [.confirmed type]) = confirmedTypes h ++ [type] :=
  confirmedTypes_append ..

theorem Streak.of_eq_zero {n type : UInt8} (hn : n = 0) : Streak n type h := by
  subst hn
  exact ⟨nil_suffix, by decide⟩

theorem Streak.succ {n type : UInt8} (hs : Streak n type h) : (n + 1).toNat ≤ 3 ∧
    List.replicate (n + 1).toNat type <:+ confirmedTypes (h ++ [.confirmed type]) := by
  obtain ⟨⟨pre, hpre⟩, hlt⟩ := hs
  have hsucc : (n + 1).toNat = n.toNat + 1 := by
    rw [UInt8.toNat_add]
    show (n.toNat + 1) % 256 = _
    omega
  rw [hsucc, replicate_succ', confirmedTypes_confirmed, ← hpre, append_assoc]
  exact ⟨hlt, suffix_append ..⟩

/-- What a step keeps, with the release that it may note. -/
structure Kept (h : List RescanNote) (d : Dcm) : Prop where
  releases : ReleasesInARow h
  streaks : RescanNote.released ∉ h → Streaks h d

theorem releasesInARow_append {notes : List RescanNote} (hk : ReleasesInARow h)
    (hnotes : RescanNote.released ∈ h ∨ RescanNote.released ∉ notes) :
    ReleasesInARow (h ++ notes) := by
  intro before after hsplit hbefore
  rcases append_eq_append_iff.mp hsplit with ⟨l, rfl, hl⟩ | ⟨l, rfl, hl⟩
  · rcases hnotes with hmem | hnot
    · exact absurd (mem_append_left _ hmem) hbefore
    · exact absurd (by simp [hl]) hnot
  · cases l with
    | nil =>
      rcases hnotes with hmem | hnot
      · exact absurd (append_nil before ▸ hmem) hbefore
      · exact absurd (by simp [← hl.trans (nil_append _)]) hnot
    | cons n l =>
      cases hl
      exact hk _ _ rfl hbefore

theorem kept_of_streaks {notes : List RescanNote} {d' : Dcm} (hk : ReleasesInARow h)
    (hnot : RescanNote.released ∉ notes) (hs : Streaks (h ++ notes) d') : Kept (h ++ notes) d' :=
  ⟨releasesInARow_append hk (.inr hnot), fun _ => hs⟩

theorem kept_decide {type streak : UInt8} (hk : ReleasesInARow h)
    (hrel : RescanNote.released ∉ h) (now : Nat) (htype : type ≠ lpf2UnknownUart)
    (hstreak : streak.toNat ≤ 3 ∧
      List.replicate streak.toNat type <:+ confirmedTypes (h ++ [.confirmed type]))
    (hs : Streak streak type (h ++ [.confirmed type]) →
      Streaks (h ++ [.confirmed type]) (d.rearm now)) :
    Kept (h ++ .confirmed type :: (d.decide streak now).2) (d.decide streak now).1 := by
  unfold Dcm.decide
  split
  · next hge =>
    have hthree : streak.toNat = 3 := Nat.le_antisymm hstreak.1 hge
    have hfirst : RescanNote.released ∉ h ++ [.confirmed type] := by simp [hrel]
    refine ⟨fun before after hsplit hbefore => ?_, fun hno => absurd (by simp) hno⟩
    obtain ⟨rfl, -⟩ := (append_cons_inj_of_notMem hfirst not_mem_nil).mp
      ((append_cons h _ [.released]).symm.trans hsplit)
    exact ⟨type, htype, hthree ▸ hstreak.2⟩
  · next hlt =>
    exact kept_of_streaks hk (by simp)
      (hs ⟨hstreak.2, Nat.lt_of_not_ge fun hge => hlt hge⟩)

theorem kept_confirm {type : UInt8} (hk : ReleasesInARow h) (hrel : RescanNote.released ∉ h)
    (hs : Streaks h d) (now : Nat) (halone : (type = typeNone → d.unownedOtherStreak = 0) ∧
      (type ≠ typeNone → type ≠ lpf2UnknownUart → d.unownedDiscStreak = 0)) :
    Kept (h ++ .confirmed type :: (d.confirm type now).2) (d.confirm type now).1 := by
  unfold Dcm.confirm
  split
  · exact kept_of_streaks hk (by simp)
      ⟨fun hne => absurd rfl hne, .of_eq_zero rfl, .of_eq_zero rfl⟩
  · next huart =>
    split
    · next hnone =>
      subst hnone
      have hother := halone.1 rfl
      exact kept_decide hk hrel now huart hs.disc.succ fun hdisc =>
        ⟨fun hne => absurd rfl hne, hdisc, .of_eq_zero hother⟩
    · next hsome =>
      have hdisc := halone.2 hsome huart
      split
      · next hsame =>
        subst hsame
        exact kept_decide hk hrel now huart hs.other.succ fun hother =>
          ⟨fun hne => absurd rfl hne, .of_eq_zero hdisc, hother⟩
      · have hfirst : Streak 0 type h := .of_eq_zero rfl
        exact kept_decide hk hrel now huart hfirst.succ fun hother =>
          ⟨fun hne => absurd rfl hne, .of_eq_zero hdisc, hother⟩

/-- The streaks are counted up to the release; behind it nothing is left to keep. -/
theorem kept_step {input : RescanInput} (hk : Kept h d) (halone : Alone d input) :
    Kept (h ++ (rescan.step d input).2) (rescan.step d input).1 := by
  by_cases hrel : RescanNote.released ∈ h
  · exact ⟨releasesInARow_append hk.releases (.inl hrel),
      fun hno => absurd (mem_append_left _ hrel) hno⟩
  have hs := hk.streaks hrel
  have hquiet : ∀ {d' : Dcm}, Streaks h d' → Kept (h ++ []) d' := by
    intro d' hs'
    rw [append_nil]
    exact ⟨hk.releases, fun _ => hs'⟩
  cases input with
  | gate now =>
    refine hquiet ?_
    show Streaks h (if d.state = .latchedUartUnownedIdle then d.gate now else d)
    split
    · unfold Dcm.gate
      split
      · exact hs
      · exact ⟨fun _ => rfl, hs.disc, hs.other⟩
    · exact hs
  | scanned typeId now =>
    show Kept (h ++ (rescanBody d (.scanned typeId now)).2) (rescanBody d (.scanned typeId now)).1
    unfold rescanBody
    dsimp only
    split
    · next hstate =>
      have hrescan := hs.rescan (by rw [hstate]; decide)
      have hscans : ∀ {d' : Dcm}, d'.inUnownedRescan = d.inUnownedRescan →
          d'.unownedDiscStreak = d.unownedDiscStreak →
          d'.unownedOtherStreak = d.unownedOtherStreak →
          d'.unownedOtherType = d.unownedOtherType → Streaks h d' := by
        intro d' hres hdisc hother htype
        refine ⟨fun _ => hres.trans hrescan, ?_, ?_⟩
        · rw [hdisc]
          exact hs.disc
        · rw [hother, htype]
          exact hs.other
      unfold Dcm.finalize
      dsimp only
      split
      · next hprev =>
        split
        · next hmatch =>
          have hcounted : Streaks h { d with matchCount := d.matched } := hscans rfl rfl rfl rfl
          exact kept_confirm hk.releases hrel hcounted now (halone ⟨hrescan, hprev, hmatch⟩)
        · exact hquiet (hscans rfl rfl rfl rfl)
      · exact hquiet (hscans rfl rfl rfl rfl)
    · exact hquiet hs

end Steps

/-- **Every run** that confirms each kind alone, from where the port has been left to nobody. -/
theorem releases_in_a_row (d : Dcm) (now : Nat) (events : List RescanInput)
    (hall : rescan.Throughout Alone (d.unowned now) events) :
    ReleasesInARow (rescan.history (d.unowned now) events) := by
  have hstart : Kept [] (d.unowned now) :=
    ⟨fun before after hsplit => absurd hsplit (by simp),
      fun _ => ⟨fun hne => absurd rfl hne, .of_eq_zero rfl, .of_eq_zero rfl⟩⟩
  exact (@Machine.history_invariant_of _ _ _ rescan _ Kept Alone (fun _ _ _ => kept_step) _ hstart
    events hall).releases

/-- The gate expires, and 21 scans find the same. -/
def confirms (typeId : UInt8) : List RescanInput :=
  .gate 20000 :: List.replicate 21 (.scanned typeId 0)

theorem releases_in_a_row_none : ReleasesInARow
    (rescan.history (Dcm.unowned {} 0) (confirms 0 ++ (confirms 0 ++ confirms 0))) :=
  releases_in_a_row _ _ _ (by decide)

/-- Two confirmations of no device, one of a motor, and one of no device. -/
theorem not_releases_in_a_row : ¬ ∀ d now events,
    ReleasesInARow (rescan.history (Dcm.unowned d now) events) := by
  intro h
  obtain ⟨type, -, hsuffix⟩ := h {} 0 (confirms 0 ++ confirms 0 ++ confirms 1 ++ confirms 0)
    [.confirmed 0, .confirmed 0, .confirmed 1, .confirmed 0] [] (by decide) (by decide)
  have htypes : [type, type, type] = [0, 1, 0] := suffix_iff_eq_drop.mp hsuffix
  obtain ⟨hnone, hmotor, -⟩ := by simpa only [List.cons.injEq] using htypes
  exact absurd (hnone.symm.trans hmotor) (by decide)

end Brickwright.Legoport
