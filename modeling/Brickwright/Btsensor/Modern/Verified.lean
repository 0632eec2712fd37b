import Brickwright.Btsensor.Modern.Forms

/-!
# The tunnel against its grammar

A payload is executed as a command just if it is the text of the command with every number in its
range, and the text of a command with a number out of its range is rejected: two kinds of payload
apart. The alternative of `clear()` leaves the cursor behind its text when bytes follow, so a beep
written there is executed; and a number of magnitude above 100000 is not read as a number at all, so
a command whose first number out of its range is one is handed on as opaque bytes.

* `recognise_command`, `recognise_outOfRange` — the texts of commands.
* `recognise_ok` — what is recognised is such a text.
-/

namespace Brickwright.Btsensor.Modern

open Decimal Piece

variable {payload rest : List UInt8} {op : Operation} {c : Command} {f : Field}

/-- Two texts that differ before either ends. -/
def Diverge (xs ys : List UInt8) : Prop := ∃ p ∈ xs.zip ys, p.1 ≠ p.2

theorem diverge_text {as bs : List Char}
    (h : ∃ p ∈ as.zip bs, p.1.toNat.toUInt8 ≠ p.2.toNat.toUInt8) :
    Diverge (text (String.ofList as)) (text (String.ofList bs)) := by
  obtain ⟨p, hp, hne⟩ := h
  rw [Diverge, text_ofList, text_ofList, List.zip_map]
  exact ⟨_, List.mem_map_of_mem hp, hne⟩

theorem not_prefix_append {xs ys : List UInt8} (h : Diverge xs ys) (rest : List UInt8) :
    ¬ xs <+: ys ++ rest := by
  induction xs generalizing ys with
  | nil => simp [Diverge] at h
  | cons x xs ih =>
    cases ys with
    | nil => simp [Diverge] at h
    | cons y ys =>
      rw [List.cons_append, List.cons_prefix_cons]
      rintro ⟨rfl, hbegins⟩
      have htail : Diverge xs ys := by simpa [Diverge] using h
      exact ih htail hbegins

theorem ite_of_diverge {α : Type*} {xs ys : List UInt8} (h : Diverge xs ys) (a b : α) :
    (if xs <+: ys ++ rest then a else b) = b :=
  if_neg (not_prefix_append h rest)

/-- **The chain of alternatives.** -/
theorem recognise_eq (rest : List UInt8) (op : Operation) : recognise ⟨rest, op⟩ =
    if motorLiteral <+: rest then motor ⟨rest.drop motorLiteral.length, op⟩
    else if display3x3Literal <+: rest then display3x3 ⟨rest.drop display3x3Literal.length, op⟩
    else if motorRunLiteral <+: rest then motorRun ⟨rest.drop motorRunLiteral.length, op⟩
    else if motorStopLiteral <+: rest then motorStop ⟨rest.drop motorStopLiteral.length, op⟩
    else if setPixelLiteral <+: rest then setPixel ⟨rest.drop setPixelLiteral.length, op⟩
    else if clearLiteral <+: rest then
      if (rest.drop clearLiteral.length).isEmpty then
        .ok () ⟨rest.drop clearLiteral.length, { op with kind := .matrix5Clear }⟩
      else if beepLiteral <+: rest.drop clearLiteral.length then
        beep ⟨(rest.drop clearLiteral.length).drop beepLiteral.length, op⟩
      else .error .gotoOpaque ⟨rest.drop clearLiteral.length, op⟩
    else if beepLiteral <+: rest then beep ⟨rest.drop beepLiteral.length, op⟩
    else .error .gotoOpaque ⟨rest, op⟩ := by
  rw [recognise]
  simp only [takeLiteral_bind, andM, bind_assoc, if_true, Bool.false_eq_true, if_false, toBool,
    atEnd_bind, pure_bind]
  cases (rest.drop clearLiteral.length).isEmpty with
  | true => rfl
  | false =>
    simp only [takeLiteral_bind, if_true, Bool.false_eq_true, if_false]
    rfl

theorem recognise_motor (rest : List UInt8) (op : Operation) :
    recognise ⟨motorLiteral ++ rest, op⟩ = motor ⟨rest, op⟩ := by
  rw [recognise_eq, if_pos (List.prefix_append ..), List.drop_left]

theorem recognise_display3x3 (rest : List UInt8) (op : Operation) :
    recognise ⟨display3x3Literal ++ rest, op⟩ = display3x3 ⟨rest, op⟩ := by
  rw [recognise_eq]
  rw [ite_of_diverge (by exact diverge_text (by decide))]
  rw [if_pos (List.prefix_append ..), List.drop_left]

theorem recognise_setPixel (rest : List UInt8) (op : Operation) :
    recognise ⟨setPixelLiteral ++ rest, op⟩ = setPixel ⟨rest, op⟩ := by
  rw [recognise_eq]
  iterate 4 rw [ite_of_diverge (by exact diverge_text (by decide))]
  rw [if_pos (List.prefix_append ..), List.drop_left]

theorem recognise_beep (rest : List UInt8) (op : Operation) :
    recognise ⟨beepLiteral ++ rest, op⟩ = beep ⟨rest, op⟩ := by
  rw [recognise_eq]
  iterate 6 rw [ite_of_diverge (by exact diverge_text (by decide))]
  rw [if_pos (List.prefix_append ..), List.drop_left]

theorem recognise_clear (rest : List UInt8) (op : Operation) :
    recognise ⟨clearLiteral ++ rest, op⟩ =
      if rest.isEmpty then .ok () ⟨rest, { op with kind := .matrix5Clear }⟩
      else if beepLiteral <+: rest then beep ⟨rest.drop beepLiteral.length, op⟩
      else .error .gotoOpaque ⟨rest, op⟩ := by
  rw [recognise_eq]
  iterate 5 rw [ite_of_diverge (by exact diverge_text (by decide))]
  rw [if_pos (List.prefix_append ..), List.drop_left]

theorem recognise_clear_beep (rest : List UInt8) (op : Operation) :
    recognise ⟨clearLiteral ++ (beepLiteral ++ rest), op⟩ = beep ⟨rest, op⟩ := by
  have hmore : ¬ (beepLiteral ++ rest).isEmpty = true := by
    rw [List.isEmpty_iff, List.append_eq_nil_iff]
    rintro ⟨h, -⟩
    exact absurd h (by decide)
  rw [recognise_clear, if_neg hmore, if_pos (List.prefix_append ..), List.drop_left]

/-! ## The commands with numbers -/

/-- A command with numbers: its first literal, what the operation is before the first number, the
pieces behind the literal, and the numbers. -/
structure Numbered where
  command : Command
  literal : List UInt8
  start : Operation
  pieces : List Piece
  values : List Int
  separated : Separated pieces none
  bounded : literal.length + bound pieces ≤ maxMessage
  length_eq : values.length = holes pieces
  render_eq : command.render = literal ++ Piece.render pieces values
  fields_eq : command.fields = Piece.fields pieces values
  operation_eq : command.operation = fill pieces values start
  recognise_eq : recognise ⟨literal ++ Piece.render pieces values, {}⟩ =
    scan pieces ⟨Piece.render pieces values, start⟩

namespace Numbered

def motorShort (port speed : Int) : Numbered where
  command := .motor port speed none
  literal := motorLiteral
  start := {}
  pieces := Modern.motorShort
  values := [port, speed]
  separated := by decide +kernel
  bounded := by decide
  length_eq := rfl
  render_eq := by
    simp [Command.render, Modern.motorShort, motorPieces, Piece.render]
  fields_eq := rfl
  operation_eq := rfl
  recognise_eq := by rw [recognise_motor, motor_render_short]

def motorLong (port speed endState : Int) : Numbered where
  command := .motor port speed (some endState)
  literal := motorLiteral
  start := {}
  pieces := Modern.motorLong
  values := [port, speed, endState]
  separated := by decide +kernel
  bounded := by decide
  length_eq := rfl
  render_eq := by
    simp [Command.render, Modern.motorLong, motorPieces, endStatePieces, endStateLiteral,
      Piece.render]
  fields_eq := rfl
  operation_eq := rfl
  recognise_eq := by rw [recognise_motor, motor_render_long]

def setPixel (x y brightness : Int) : Numbered where
  command := .setPixel x y brightness
  literal := setPixelLiteral
  start := { kind := .matrix5Pixel }
  pieces := setPixelPieces
  values := [x, y, brightness]
  separated := by decide +kernel
  bounded := by decide
  length_eq := rfl
  render_eq := by simp [Command.render, setPixelPieces, Piece.render]
  fields_eq := rfl
  operation_eq := rfl
  recognise_eq := by rw [recognise_setPixel, setPixel_eq]

def beep (frequency duration : Int) : Numbered where
  command := .beep frequency duration
  literal := beepLiteral
  start := { kind := .soundBeep }
  pieces := beepPieces
  values := [frequency, duration]
  separated := by decide +kernel
  bounded := by decide
  length_eq := rfl
  render_eq := by simp [Command.render, beepPieces, Piece.render]
  fields_eq := rfl
  operation_eq := rfl
  recognise_eq := by rw [recognise_beep, beep_eq]

def display3x3 (port a b c d e f g h i : Int) : Numbered where
  command := .display3x3 port #v[a, b, c, d, e, f, g, h, i]
  literal := display3x3Literal
  start := {}
  pieces := display3x3Pieces
  values := [port, a, b, c, d, e, f, g, h, i]
  separated := by decide +kernel
  bounded := by decide
  length_eq := rfl
  render_eq := by
    simp [Command.render, display3x3Pieces, Piece.render, List.finRange, pixelPieces, lastPixel]
  fields_eq := rfl
  operation_eq := by
    simp [Command.operation, fill, display3x3Pieces, pixelPieces, List.finRange, storePixel,
      lastPixel]
    rfl
  recognise_eq := by rw [recognise_display3x3, display3x3_eq]

variable (n : Numbered)

theorem fields_inRange (h : n.command.InRange) :
    ∀ f ∈ Piece.fields n.pieces n.values, f.InRange := by
  rw [← n.fields_eq]
  exact h

theorem recognise_inRange (h : n.command.InRange) :
    recognise ⟨n.command.render, {}⟩ = .ok () ⟨[], n.command.operation⟩ := by
  rw [n.render_eq, n.recognise_eq, n.operation_eq]
  exact scan_render n.separated n.length_eq (n.fields_inRange h)

theorem recognise_outOfRange (h : firstOutOfRange n.command.fields = some f) :
    ∃ s, recognise ⟨n.command.render, {}⟩ = .error (exitFor f.value) s := by
  rw [n.render_eq, n.recognise_eq]
  rw [n.fields_eq] at h
  exact scan_outOfRange n.separated n.length_eq h

theorem length_render_le (h : n.command.InRange) :
    n.command.render.length ≤ maxMessage := by
  rw [n.render_eq, List.length_append]
  have hlen := Piece.length_render_le n.separated (n.fields_inRange h)
  exact (Nat.add_le_add_left hlen _).trans n.bounded

end Numbered

/-! ## The commands with a letter -/

theorem portLetter_letter (put : UInt8 → Operation → Operation) (port : Fin 6)
    (rest : List UInt8) (op : Operation) :
    portLetter put ⟨letter port :: rest, op⟩ = .ok () ⟨rest, put port.val.toUInt8 op⟩ := by
  have hletter : ∀ port : Fin 6,
      ¬ (letter port < 65 ∨ letter port > 70) ∧ letter port - 65 = port.val.toUInt8 := by
    decide
  rw [portLetter]
  dsimp only
  rw [if_neg (hletter port).1, (hletter port).2]

theorem recognise_motorRun (port : Fin 6) (forward : Bool) :
    recognise ⟨(Command.motorRun port forward).render, {}⟩ =
      .ok () ⟨[], (Command.motorRun port forward).operation⟩ := by
  have hchain (rest : List UInt8) :
      recognise ⟨motorRunLiteral ++ rest, {}⟩ = motorRun ⟨rest, {}⟩ := by
    rw [recognise_eq]
    iterate 2 rw [ite_of_diverge (by exact diverge_text (by decide))]
    rw [if_pos (List.prefix_append ..), List.drop_left]
  cases forward with
  | true =>
    rw [Command.render, List.append_assoc, hchain, motorRun, List.singleton_append,
      bind_of_ok (portLetter_letter ..)]
    rfl
  | false =>
    rw [Command.render, List.append_assoc, hchain, motorRun, List.singleton_append,
      bind_of_ok (portLetter_letter ..)]
    rfl

theorem recognise_motorStop (port : Fin 6) :
    recognise ⟨(Command.motorStop port).render, {}⟩ =
      .ok () ⟨[], (Command.motorStop port).operation⟩ := by
  have hchain (rest : List UInt8) :
      recognise ⟨motorStopLiteral ++ rest, {}⟩ = motorStop ⟨rest, {}⟩ := by
    rw [recognise_eq]
    iterate 3 rw [ite_of_diverge (by exact diverge_text (by decide))]
    rw [if_pos (List.prefix_append ..), List.drop_left]
  rw [Command.render, List.append_assoc, hchain, motorStop, List.singleton_append,
    bind_of_ok (portLetter_letter ..)]
  rfl

theorem Command.cases_numbered (c : Command) :
    (∃ n : Numbered, n.command = c) ∨ (∃ port forward, c = motorRun port forward) ∨
      (∃ port, c = motorStop port) ∨ c = clear := by
  cases c with
  | motor port speed endState =>
    cases endState with
    | none => exact .inl ⟨.motorShort port speed, rfl⟩
    | some endState => exact .inl ⟨.motorLong port speed endState, rfl⟩
  | display3x3 port data =>
    obtain ⟨⟨data⟩, hsize⟩ := data
    match data, hsize with
    | [a, b, c, d, e, f, g, h, i], _ =>
      exact .inl ⟨.display3x3 port a b c d e f g h i, rfl⟩
  | motorRun port forward => exact .inr (.inl ⟨port, forward, rfl⟩)
  | motorStop port => exact .inr (.inr (.inl ⟨port, rfl⟩))
  | setPixel x y brightness => exact .inl ⟨.setPixel x y brightness, rfl⟩
  | clear => exact .inr (.inr (.inr rfl))
  | beep frequency duration => exact .inl ⟨.beep frequency duration, rfl⟩

/-- **The text of a command with every number in its range.** -/
theorem recognise_command (h : c.InRange) :
    recognise ⟨c.render, {}⟩ = .ok () ⟨[], c.operation⟩ := by
  obtain ⟨n, rfl⟩ | ⟨port, forward, rfl⟩ | ⟨port, rfl⟩ | rfl := c.cases_numbered
  · exact n.recognise_inRange h
  · exact recognise_motorRun port forward
  · exact recognise_motorStop port
  · have hclear := recognise_clear [] {}
    rwa [List.append_nil] at hclear

/-- **With a number out of its range.** -/
theorem recognise_outOfRange (h : firstOutOfRange c.fields = some f) :
    ∃ s, recognise ⟨c.render, {}⟩ = .error (exitFor f.value) s := by
  obtain ⟨n, rfl⟩ | ⟨port, forward, rfl⟩ | ⟨port, rfl⟩ | rfl := c.cases_numbered
  · exact n.recognise_outOfRange h
  · cases h
  · cases h
  · cases h

theorem length_render_le (h : c.InRange) : c.render.length ≤ maxMessage := by
  obtain ⟨n, rfl⟩ | ⟨port, forward, rfl⟩ | ⟨port, rfl⟩ | rfl := c.cases_numbered
  · exact n.length_render_le h
  · cases forward <;> decide +kernel +revert
  · decide +kernel +revert
  · decide +kernel

/-! ## What is recognised -/

theorem portLetter_ok {put : UInt8 → Operation → Operation} {s s' : Scan}
    (h : portLetter put s = .ok () s') :
    ∃ port : Fin 6, s.rest = letter port :: s'.rest ∧ s'.op = put port.val.toUInt8 s.op := by
  obtain ⟨rest, op⟩ := s
  cases rest with
  | nil => cases h
  | cons b rest =>
    rw [portLetter] at h
    dsimp only at h
    split at h
    · cases h
    · next hb =>
      cases h
      rw [not_or, UInt8.not_lt, UInt8.not_lt] at hb
      have hhi : b.toNat ≤ 70 := hb.2
      have hvalue : b - 65 = (b.toNat - 65).toUInt8 := by
        rw [← UInt8.toNat_inj, UInt8.toNat_sub_of_le _ _ hb.1]
        change b.toNat - 65 = (b.toNat - 65) % 256
        omega
      have hletter : b = letter ⟨b.toNat - 65, by omega⟩ := by
        rw [letter, ← hvalue, UInt8.add_comm, UInt8.sub_add_cancel]
      exact ⟨⟨b.toNat - 65, by omega⟩, by rw [← hletter], by rw [hvalue]⟩

theorem Numbered.of_scan (n : Numbered) {s : Scan}
    (hrange : ∀ f ∈ Piece.fields n.pieces n.values, f.InRange)
    (hop : s.op = fill n.pieces n.values n.start) :
    n.command.render = n.literal ++ Piece.render n.pieces n.values ∧ n.command.InRange ∧
      n.command.operation = s.op := by
  refine ⟨n.render_eq, ?_, by rw [n.operation_eq, hop]⟩
  rw [Command.InRange, n.fields_eq]
  exact hrange

variable {s : Scan}

theorem motor_ok (h : motor ⟨rest, {}⟩ = .ok () s) :
    ∃ c : Command, c.render = motorLiteral ++ rest ∧ c.InRange ∧ c.operation = s.op := by
  rcases motor_eq_or ⟨rest, {}⟩ with heq | heq
  · rw [heq] at h
    obtain ⟨vs, hlen, rfl, hrange, hop⟩ := scan_ok h
    obtain ⟨port, speed, rfl⟩ := List.length_eq_two.mp hlen
    exact ⟨_, (Numbered.motorShort port speed).of_scan hrange hop⟩
  · rw [heq] at h
    obtain ⟨vs, hlen, rfl, hrange, hop⟩ := scan_ok h
    obtain ⟨port, speed, endState, rfl⟩ := List.length_eq_three.mp hlen
    exact ⟨_, (Numbered.motorLong port speed endState).of_scan hrange hop⟩

theorem display3x3_ok (h : display3x3 ⟨rest, {}⟩ = .ok () s) :
    ∃ c : Command, c.render = display3x3Literal ++ rest ∧ c.InRange ∧ c.operation = s.op := by
  rw [display3x3_eq] at h
  obtain ⟨vs, hlen, rfl, hrange, hop⟩ := scan_ok h
  match vs, hlen with
  | [port, a, b, c, d, e, f, g, h, i], _ =>
    exact ⟨_, (Numbered.display3x3 port a b c d e f g h i).of_scan hrange hop⟩

theorem motorRun_ok (h : motorRun ⟨rest, {}⟩ = .ok () s) :
    ∃ c : Command, c.render = motorRunLiteral ++ rest ∧ c.InRange ∧ c.operation = s.op := by
  obtain ⟨⟨⟩, s1, hport, hspeed⟩ := bind_ok h
  obtain ⟨port, rfl, hop⟩ := portLetter_ok hport
  -- one literal or the other, and nothing behind it
  have hcut {literal : List UInt8} (hbegins : literal <+: s1.rest)
      (hnil : s1.rest.drop literal.length = []) : s1.rest = literal := by
    obtain ⟨tail, htail⟩ := hbegins
    rw [← htail, List.drop_left] at hnil
    rw [← htail, hnil, List.append_nil]
  rw [takeLiteral_bind] at hspeed
  split at hspeed
  · next hbegins =>
    obtain ⟨hnil, rfl⟩ := expectEnd_ok hspeed
    refine ⟨.motorRun port true, ?_, nofun, ?_⟩
    · rw [Command.render, hcut hbegins hnil, List.append_assoc]
      rfl
    · rw [hop]
      rfl
  · rw [if_neg Bool.false_ne_true, takeLiteral_bind] at hspeed
    split at hspeed
    · next hbegins =>
      obtain ⟨hnil, rfl⟩ := expectEnd_ok hspeed
      refine ⟨.motorRun port false, ?_, nofun, ?_⟩
      · rw [Command.render, hcut hbegins hnil, List.append_assoc]
        rfl
      · rw [hop]
        rfl
    · cases hspeed

theorem motorStop_ok (h : motorStop ⟨rest, {}⟩ = .ok () s) :
    ∃ c : Command, c.render = motorStopLiteral ++ rest ∧ c.InRange ∧ c.operation = s.op := by
  obtain ⟨⟨⟩, s1, hport, hrest⟩ := bind_ok h
  obtain ⟨port, rfl, hop⟩ := portLetter_ok hport
  obtain ⟨⟨⟩, s2, hparen, hend⟩ := bind_ok hrest
  obtain ⟨htext, hput⟩ := expect_ok hparen
  obtain ⟨hnil, rfl⟩ := expectEnd_ok hend
  refine ⟨.motorStop port, ?_, nofun, ?_⟩
  · rw [Command.render, htext, hnil, List.append_nil, List.append_assoc]
    rfl
  · rw [hput, hop]
    rfl

theorem setPixel_ok (h : setPixel ⟨rest, {}⟩ = .ok () s) :
    ∃ c : Command, c.render = setPixelLiteral ++ rest ∧ c.InRange ∧ c.operation = s.op := by
  rw [setPixel_eq] at h
  obtain ⟨vs, hlen, rfl, hrange, hop⟩ := scan_ok h
  obtain ⟨x, y, brightness, rfl⟩ := List.length_eq_three.mp hlen
  exact ⟨_, (Numbered.setPixel x y brightness).of_scan hrange hop⟩

theorem beep_ok (h : beep ⟨rest, {}⟩ = .ok () s) :
    ∃ frequency duration, (Command.beep frequency duration).render = beepLiteral ++ rest ∧
      (Command.beep frequency duration).InRange ∧
      (Command.beep frequency duration).operation = s.op := by
  rw [beep_eq] at h
  obtain ⟨vs, hlen, rfl, hrange, hop⟩ := scan_ok h
  obtain ⟨frequency, duration, rfl⟩ := List.length_eq_two.mp hlen
  exact ⟨frequency, duration, (Numbered.beep frequency duration).of_scan hrange hop⟩

/-- A beep behind the text of `clear()`. -/
def ClearThenBeep (payload : List UInt8) : Prop :=
  ∃ frequency duration, (Command.beep frequency duration).InRange ∧
    payload = clearLiteral ++ (Command.beep frequency duration).render

/-- **What is recognised** is the text of a command, or a beep behind that of `clear()`. -/
theorem recognise_ok (h : recognise ⟨payload, {}⟩ = .ok () s) :
    (∃ c : Command, c.render = payload ∧ c.InRange ∧ c.operation = s.op) ∨
      ClearThenBeep payload := by
  rw [recognise_eq] at h
  split at h
  · next hbegins =>
    obtain ⟨rest, rfl⟩ := hbegins
    rw [List.drop_left] at h
    exact .inl (motor_ok h)
  split at h
  · next hbegins =>
    obtain ⟨rest, rfl⟩ := hbegins
    rw [List.drop_left] at h
    exact .inl (display3x3_ok h)
  split at h
  · next hbegins =>
    obtain ⟨rest, rfl⟩ := hbegins
    rw [List.drop_left] at h
    exact .inl (motorRun_ok h)
  split at h
  · next hbegins =>
    obtain ⟨rest, rfl⟩ := hbegins
    rw [List.drop_left] at h
    exact .inl (motorStop_ok h)
  split at h
  · next hbegins =>
    obtain ⟨rest, rfl⟩ := hbegins
    rw [List.drop_left] at h
    exact .inl (setPixel_ok h)
  split at h
  · next hbegins =>
    obtain ⟨rest, rfl⟩ := hbegins
    rw [List.drop_left] at h
    split at h
    · next hempty =>
      cases h
      refine .inl ⟨.clear, ?_, nofun, rfl⟩
      rw [List.isEmpty_iff.mp hempty, List.append_nil]
      rfl
    split at h
    · next hbeep =>
      obtain ⟨tail, rfl⟩ := hbeep
      rw [List.drop_left] at h
      obtain ⟨frequency, duration, hrender, hrange, -⟩ := beep_ok h
      exact .inr ⟨frequency, duration, hrange, by rw [hrender]⟩
    · cases h
  split at h
  · next hbegins =>
    obtain ⟨rest, rfl⟩ := hbegins
    rw [List.drop_left] at h
    obtain ⟨frequency, duration, hbeep⟩ := beep_ok h
    exact .inl ⟨_, hbeep⟩
  · cases h

/-! ## The dispatch -/

/-- With a callback, the payload goes to it as this operation. -/
def Passes (payload : List UInt8) (op : Operation) : Prop :=
  dispatchTunnel true payload = .call op .ret

/-- With a callback, the payload is turned down before it. -/
def Rejects (payload : List UInt8) : Prop := ∃ rc < 0, dispatchTunnel true payload = .ret rc

theorem passes_of_recognise (hlen : payload.length ≤ maxMessage)
    (h : recognise ⟨payload, {}⟩ = .ok () s) : Passes payload s.op := by
  rw [Passes, dispatchTunnel, if_neg (by decide), if_neg (Nat.not_lt.mpr hlen), h]

theorem passes_of_gotoOpaque (hlen : payload.length ≤ maxMessage)
    (h : recognise ⟨payload, {}⟩ = .error .gotoOpaque s) :
    Passes payload { s.op with kind := .tunnelOpaque, opaqueBytes := payload } := by
  rw [Passes, dispatchTunnel, if_neg (by decide), if_neg (Nat.not_lt.mpr hlen), h]

theorem rejects_of_outOfRange (hlen : payload.length ≤ maxMessage)
    (h : recognise ⟨payload, {}⟩ = .error .outOfRange s) : Rejects payload := by
  refine ⟨-ERANGE, by decide, ?_⟩
  rw [dispatchTunnel, if_neg (by decide), if_neg (Nat.not_lt.mpr hlen), h]

theorem rejects_of_length (hlen : maxMessage < payload.length) : Rejects payload :=
  ⟨-EMSGSIZE, by decide, by rw [dispatchTunnel, if_neg (by decide), if_pos hlen]⟩

theorem not_rejects_of_passes (h : Passes payload op) : ¬ Rejects payload := by
  rintro ⟨rc, -, hreject⟩
  rw [Passes, hreject] at h
  cases h

theorem Passes.unique {op' : Operation} (h : Passes payload op) (h' : Passes payload op') :
    op = op' := by
  rw [Passes, h] at h'
  injection h'

theorem dispatch_cases (payload : List UInt8) :
    Rejects payload ∨ (∃ s, recognise ⟨payload, {}⟩ = .ok () s ∧ Passes payload s.op) ∨
      ∃ op, op.kind = .tunnelOpaque ∧ op.opaqueBytes = payload ∧ Passes payload op := by
  rcases Nat.lt_or_ge maxMessage payload.length with hlen | hlen
  · exact .inl (rejects_of_length hlen)
  · cases h : recognise ⟨payload, {}⟩ with
    | ok _ s => exact .inr (.inl ⟨s, rfl, passes_of_recognise hlen h⟩)
    | error e s =>
      cases e with
      | gotoOpaque => exact .inr (.inr ⟨_, rfl, rfl, passes_of_gotoOpaque hlen h⟩)
      | outOfRange => exact .inl (rejects_of_outOfRange hlen h)

theorem passes_command (h : c.InRange) : Passes c.render c.operation :=
  passes_of_recognise (length_render_le h) (recognise_command h)

theorem beep_render (frequency duration : Int) : (Command.beep frequency duration).render =
    beepLiteral ++ Piece.render beepPieces [frequency, duration] :=
  (Numbered.beep frequency duration).render_eq

theorem passes_clear_beep {frequency duration : Int}
    (h : (Command.beep frequency duration).InRange) :
    Passes (clearLiteral ++ (Command.beep frequency duration).render)
      (Command.beep frequency duration).operation := by
  have hrecognise : recognise ⟨clearLiteral ++ (Command.beep frequency duration).render, {}⟩ =
      .ok () ⟨[], (Command.beep frequency duration).operation⟩ := by
    rw [← recognise_command h, beep_render, recognise_clear_beep, recognise_beep]
  refine passes_of_recognise ?_ hrecognise
  have hpieces : (Piece.render beepPieces [frequency, duration]).length ≤ bound beepPieces :=
    Piece.length_render_le (Numbered.beep frequency duration).separated h
  have hbound : clearLiteral.length + (beepLiteral.length + bound beepPieces) ≤ maxMessage := by
    decide +kernel
  rw [beep_render, List.length_append, List.length_append]
  exact (Nat.add_le_add_left (Nat.add_le_add_left hpieces _) _).trans hbound

/-- A text that is not one of a command with its numbers in range is not executed. -/
structure FollowsGrammar (payload : List UInt8) : Prop where
  passes_iff : ∀ op : Operation, op.kind ≠ .tunnelOpaque →
    (Passes payload op ↔ ∃ c : Command, c.render = payload ∧ c.InRange ∧ c.operation = op)
  otherwise : (¬ ∃ c : Command, c.render = payload ∧ c.InRange) → Rejects payload ∨
    ∃ op, op.kind = .tunnelOpaque ∧ op.opaqueBytes = payload ∧ Passes payload op
  outOfRange : ∀ c : Command, c.render = payload → ¬ c.InRange → Rejects payload

/-- A command short enough to be looked at, whose first number out of its range is too large to be
read. -/
def TooLarge (payload : List UInt8) : Prop :=
  payload.length ≤ maxMessage ∧ ∃ (c : Command) (f : Field), c.render = payload ∧
    firstOutOfRange c.fields = some f ∧ 100000 < f.value.natAbs

theorem not_render_of_clearThenBeep (h : ClearThenBeep c.render) : ¬ c.InRange := by
  intro hrange
  obtain ⟨frequency, duration, hbeep, htext⟩ := h
  have hop : c.operation = (Command.beep frequency duration).operation :=
    (passes_command hrange).unique (htext ▸ passes_clear_beep hbeep)
  have hkind : c.operation.kind = .soundBeep := by rw [hop]; rfl
  -- only a beep stands for one, and its text begins otherwise
  cases c with
  | motor port speed endState => cases endState <;> cases hkind
  | beep frequency' duration' =>
    rw [beep_render] at htext
    exact not_prefix_append (by exact diverge_text (by decide)) _ ⟨_, htext.symm⟩
  | _ => cases hkind

/-- **The grammar of the tunnel**: a payload is treated by it just if it is neither a beep behind
the text of `clear()` nor a command whose first number out of its range is above 100000. -/
theorem tunnel_grammar (payload : List UInt8) :
    FollowsGrammar payload ↔ ¬ ClearThenBeep payload ∧ ¬ TooLarge payload := by
  constructor
  · intro h
    constructor
    · intro hclear
      obtain ⟨frequency, duration, hbeep, rfl⟩ := id hclear
      obtain ⟨c, htext, hrange, -⟩ := (h.passes_iff _ (by nofun)).mp (passes_clear_beep hbeep)
      rw [← htext] at hclear
      exact not_render_of_clearThenBeep hclear hrange
    · rintro ⟨hlen, c, f, rfl, hf, hlarge⟩
      obtain ⟨s, hs⟩ := recognise_outOfRange hf
      rw [exitFor, if_neg (Nat.not_le.mpr hlarge)] at hs
      have hreject := h.outOfRange c rfl (not_inRange_of_firstOutOfRange hf)
      exact not_rejects_of_passes (passes_of_gotoOpaque hlen hs) hreject
  · rintro ⟨hclear, hlarge⟩
    have hexecuted : ∀ s, recognise ⟨payload, {}⟩ = .ok () s →
        ∃ c : Command, c.render = payload ∧ c.InRange ∧ c.operation = s.op := fun s hs =>
      (recognise_ok hs).resolve_right hclear
    refine ⟨fun op hkind => ⟨fun hpass => ?_, ?_⟩, fun hno => ?_, fun c htext hrange => ?_⟩
    · rcases dispatch_cases payload with hreject | ⟨s, hs, hpass'⟩ | ⟨op', hkind', -, hpass'⟩
      · exact absurd hreject (not_rejects_of_passes hpass)
      · rw [hpass.unique hpass']
        exact hexecuted s hs
      · rw [hpass.unique hpass'] at hkind
        exact absurd hkind' hkind
    · rintro ⟨c, rfl, hrange, rfl⟩
      exact passes_command hrange
    · rcases dispatch_cases payload with hreject | ⟨s, hs, -⟩ | hopaque
      · exact .inl hreject
      · obtain ⟨c, htext, hrange, -⟩ := hexecuted s hs
        exact absurd ⟨c, htext, hrange⟩ hno
      · exact .inr hopaque
    · rcases Nat.lt_or_ge maxMessage payload.length with hlen | hlen
      · exact rejects_of_length hlen
      · cases hf : firstOutOfRange c.fields with
        | none => exact absurd (firstOutOfRange_eq_none.mp hf) hrange
        | some f =>
          obtain ⟨s, hs⟩ := recognise_outOfRange hf
          have hsmall : f.value.natAbs ≤ 100000 := Nat.le_of_not_lt fun h =>
            hlarge ⟨hlen, c, f, htext, hf, h⟩
          rw [exitFor, if_pos hsmall, htext] at hs
          exact rejects_of_outOfRange hlen hs

/-- A beep behind `clear()` is executed, and a port of 100001 is not rejected. -/
theorem tunnel_grammar_fails :
    ¬ FollowsGrammar (clearLiteral ++ text "from hub import sound\nsound.beep(440, 250, 100)") ∧
      ¬ FollowsGrammar
        (text "\x7b\"m\":\"motor\",\"p\":\x7b\"port\":100001,\"speed\":0\x7d\x7d") := by
  constructor
  · intro h
    have hpass : Passes (clearLiteral ++ text "from hub import sound\nsound.beep(440, 250, 100)")
        { kind := .soundBeep, frequencyHz := 440, durationMs := 250 } := rfl
    obtain ⟨c, htext, hrange, -⟩ := (h.passes_iff _ (by nofun)).mp hpass
    have hclear : ClearThenBeep c.render := ⟨440, 250, by decide, htext⟩
    exact not_render_of_clearThenBeep hclear hrange
  · intro h
    obtain ⟨rc, -, hreject⟩ := h.outOfRange (.motor 100001 0 none) rfl (by decide)
    cases hreject

end Brickwright.Btsensor.Modern
