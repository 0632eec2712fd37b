import Brickwright.Lump.Bounds.Basic

/-!
# The parser stays inside its arrays

`Shaped` is the invariant: every array has the length it was declared with. Each handler of the
parser, run on a shaped engine, makes every access it tries, comes out as the handler of the model
does, and leaves the engine shaped; a name needs the frame to have room for its terminator, which
every INFO frame has.
-/

namespace Brickwright.Lump

open Checked
open List

/-- The arrays of a mode have their lengths. -/
def ModeInfo.Shaped (m : ModeInfo) : Prop :=
  m.name.length = maxNameLen + 1 ∧ m.units.length = maxUnitsLen + 1

def DeviceInfo.Shaped (info : DeviceInfo) : Prop :=
  info.modes.length = maxModes.toNat ∧ ∀ m ∈ info.modes, m.Shaped

/-- The arrays of an engine have their lengths. -/
structure Engine.Shaped (e : Engine) : Prop where
  rxMsg : e.rxMsg.length = rxMsgBytes
  info : e.info.Shaped

theorem DeviceInfo.shaped_zero : DeviceInfo.zero.Shaped := by
  refine ⟨rfl, fun m hm => ?_⟩
  rw [eq_of_mem_replicate hm]
  exact ⟨rfl, rfl⟩

theorem DeviceInfo.Shaped.setMode {info : DeviceInfo} (h : info.Shaped) (mode : UInt8)
    {g : ModeInfo → ModeInfo} (hg : ∀ m, m.Shaped → (g m).Shaped) :
    (info.setMode mode g).Shaped := by
  refine ⟨(length_modify ..).trans h.1, fun m hm => ?_⟩
  obtain ⟨i, hi⟩ := mem_iff_getElem?.mp hm
  rw [DeviceInfo.setMode, List.getElem?_modify] at hi
  obtain ⟨m', hm', rfl⟩ := Option.map_eq_some_iff.mp hi
  have hshaped := h.2 m' (mem_of_getElem? hm')
  split
  · exact hg m' hshaped
  · exact hshaped

theorem Engine.shaped_boot (onData onSync : Bool) : (Engine.boot onData onSync).Shaped where
  rxMsg := rfl
  info := DeviceInfo.shaped_zero

namespace Bounded

variable {e : Engine}

/-! ## Reads of the receive buffer -/

theorem load_rxMsg (h : e.Shaped) {i : Nat} (hi : i < rxMsgBytes) :
    load e.rxMsg i = some (e.rx i) :=
  load_eq_some (by rw [h.rxMsg]; exact hi) 0

theorem getU32Le_rxMsg (h : e.Shaped) {i : Nat} (hi : i + 3 < rxMsgBytes) :
    getU32Le e.rxMsg i = some (e.rx32 i) := by
  rw [getU32Le, load_rxMsg h (by omega), load_rxMsg h (by omega), load_rxMsg h (by omega),
    load_rxMsg h hi]
  rfl

/-! ## Updates of a mode -/

variable {mode : UInt8}

theorem updateMode_eq {info : DeviceInfo} (h : info.Shaped) (hmode : mode < maxModes)
    {f : ModeInfo → Option ModeInfo} {g : ModeInfo → ModeInfo}
    (hf : ∀ m, m.Shaped → f m = some (g m)) :
    updateMode info mode f = some (info.setMode mode g) := by
  have hlt : mode.toNat < info.modes.length := by
    rw [h.1]
    exact UInt8.lt_iff_toNat_lt.mp hmode
  rw [updateMode, load, List.getElem?_eq_getElem hlt]
  show (f info.modes[mode.toNat] >>= fun m => do
    some { info with modes := ← store info.modes mode.toNat m }) = _
  rw [hf _ (h.2 _ (getElem_mem hlt))]
  show (store info.modes mode.toNat (g info.modes[mode.toNat]) >>= fun modes =>
    some { info with modes }) = _
  rw [store_eq_some hlt]
  show some { info with modes := _ } = some { info with modes := _ }
  congr 2
  apply ext_getElem?
  intro i
  rw [List.getElem?_set, List.getElem?_modify]
  split
  next heq =>
    subst heq
    rw [List.getElem?_eq_getElem hlt]
    rfl
  · cases info.modes[i]?
    · rfl
    · rfl

/-! ## The handlers -/

/-- A handler that makes its accesses comes out as the one of the model, and shaped. -/
def Agrees (p : Option (Int × Engine)) (q : Int × Engine) : Prop := p = some q ∧ q.2.Shaped

theorem agrees_parseSys (h : e.Shaped) : Agrees (parseSys e (e.rx 0)) e.parseSys := by
  unfold parseSys Engine.parseSys
  split
  · split
    · exact ⟨rfl, h⟩
    · exact ⟨rfl, h.rxMsg, h.info⟩
  · exact ⟨rfl, h⟩

theorem agrees_parseType (h : e.Shaped) : Agrees (parseType e) e.parseType := by
  unfold parseType Engine.parseType
  rw [load_rxMsg h (by decide)]
  show Agrees (if _ then _ else _) _
  split
  · exact ⟨rfl, h⟩
  · exact ⟨rfl, h.rxMsg, h.info⟩

theorem agrees_parseModes (h : e.Shaped) : Agrees (parseModes e e.cmd2) e.parseModes := by
  unfold parseModes Engine.parseModes
  split
  · exact ⟨rfl, h⟩
  split
  · exact ⟨rfl, h⟩
  · have hannounced : announcedModes e e.cmd2 = some e.announcedModes := by
      rw [announcedModes, load_rxMsg h (by decide), Engine.announcedModes]
      split
      · rfl
      · rfl
    rw [hannounced]
    exact ⟨rfl, h.rxMsg, h.info⟩

theorem agrees_parseSpeed (h : e.Shaped) : Agrees (parseSpeed e) e.parseSpeed := by
  unfold parseSpeed Engine.parseSpeed
  rw [getU32Le_rxMsg h (by decide)]
  split
  · exact ⟨rfl, h⟩
  · show Agrees (if _ then _ else _) _
    split
    · exact ⟨rfl, h⟩
    · exact ⟨rfl, h.rxMsg, h.info⟩

theorem agrees_parseVersion (h : e.Shaped) : Agrees (parseVersion e) e.parseVersion := by
  unfold parseVersion Engine.parseVersion
  rw [getU32Le_rxMsg h (by decide), getU32Le_rxMsg h (by decide)]
  split
  · exact ⟨rfl, h⟩
  · exact ⟨rfl, h.rxMsg, h.info⟩

theorem agrees_parseCmd (h : e.Shaped) : Agrees (parseCmd e (e.rx 0) e.cmd2) e.parseCmd := by
  unfold parseCmd Engine.parseCmd
  dsimp only
  split
  · exact agrees_parseType h
  split
  · exact agrees_parseModes h
  split
  · exact agrees_parseSpeed h
  split
  · exact agrees_parseVersion h
  split
  · rw [load_rxMsg h (by decide)]
    exact ⟨rfl, h.rxMsg, h.info⟩
  split
  · exact ⟨rfl, h⟩
  · exact ⟨rfl, h⟩

/-! ### Names -/

theorem cString_eq {xs : List UInt8} (h : 0 ∈ xs) : cString xs = some (xs.takeWhile (· ≠ 0)) := by
  induction xs with
  | nil => cases h
  | cons b bs ih =>
    unfold cString
    split
    next hb =>
      rw [hb]
      rfl
    next hb =>
      have hmem : 0 ∈ bs := (mem_cons.mp h).resolve_left (Ne.symm hb)
      rw [ih hmem, takeWhile_cons, if_pos (decide_eq_true hb)]
      rfl

theorem cString_terminated (h : e.Shaped) (hlow : 3 ≤ e.rxMsgSize)
    (hhigh : e.rxMsgSize ≤ rxMsgBytes) :
    0 ∈ (e.rxMsg.set (e.rxMsgSize - 1) 0).drop 2 := by
  have hlt : e.rxMsgSize - 1 < e.rxMsg.length := by
    rw [h.rxMsg]
    omega
  have hget : ((e.rxMsg.set (e.rxMsgSize - 1) 0).drop 2)[e.rxMsgSize - 3]? = some 0 := by
    rw [List.getElem?_drop, show 2 + (e.rxMsgSize - 3) = e.rxMsgSize - 1 by omega,
      List.getElem?_set_self hlt]
  exact mem_of_getElem? hget

theorem length_field (name : List UInt8) :
    ((name ++ List.replicate maxNameLen 0).take maxNameLen).length = maxNameLen := by
  rw [length_take, length_append, length_replicate]
  omega

theorem setName_eq (name : List UInt8) (modeFlags : UInt8) {m : ModeInfo} (hm : m.Shaped) :
    setName name modeFlags m = some { m with name := Engine.nameField name, modeFlags } := by
  have hfield := length_field name
  unfold setName Engine.nameField
  generalize (name ++ List.replicate maxNameLen 0).take maxNameLen = field at hfield
  have hfits : 0 + field.length ≤ m.name.length := by
    rw [hm.1]
    omega
  rw [copy_eq_some hfits]
  show (store (m.name.overlay 0 field) maxNameLen 0 >>= fun name =>
    some { m with name, modeFlags }) = _
  rw [store_eq_some (by rw [length_overlay hfits, hm.1]; omega)]
  have hlast : (m.name.drop (0 + field.length)).length = 1 := by
    rw [length_drop, hm.1]
    omega
  obtain ⟨b, hb⟩ := length_eq_one_iff.mp hlast
  rw [List.overlay, hb, take_zero, nil_append, ← hfield,
    set_append_right _ _ (Nat.le_refl _), Nat.sub_self]
  rfl

theorem shaped_nameField {m : ModeInfo} (hm : m.Shaped) (name : List UInt8) (modeFlags : UInt8) :
    ({ m with name := Engine.nameField name, modeFlags } : ModeInfo).Shaped := by
  refine ⟨?_, hm.2⟩
  show (Engine.nameField name).length = _
  rw [Engine.nameField, length_append, length_field]
  rfl

theorem frameModeFlags_eq (h : e.Shaped) :
    frameModeFlags e e.nameString = some e.frameModeFlags := by
  rw [frameModeFlags, load_rxMsg h (by decide), Engine.frameModeFlags]
  split
  · rfl
  · rfl

theorem agrees_parseTerminated (h : e.Shaped) (hmode : mode < maxModes)
    (hname : 0 ∈ e.rxMsg.drop 2) :
    Agrees (parseTerminated e mode)
      (if e.rx 2 < 0x41 ∨ e.rx 2 > 0x7a then (-EBADMSG, e)
      else
        let info := e.info.setMode mode fun m =>
          { m with name := Engine.nameField e.nameString, modeFlags := e.frameModeFlags }
        (OK, { e with
          infoFlags := e.infoFlags ||| ifInfoName, newMode := mode
          info := { info with
            capabilityFlags := e.info.capabilityFlags ||| e.frameModeFlags } })) := by
  unfold parseTerminated
  rw [load_rxMsg h (by decide)]
  show Agrees (if _ then _ else _) _
  split
  · exact ⟨rfl, h⟩
  · have hstring : cString (e.rxMsg.drop 2) = some e.nameString := cString_eq hname
    have hupdate := updateMode_eq h.info hmode fun m hm =>
      setName_eq e.nameString e.frameModeFlags hm
    have hset := h.info.setMode mode fun m hm => shaped_nameField hm e.nameString e.frameModeFlags
    rw [hstring]
    refine ⟨?_, h.rxMsg, hset⟩
    show (frameModeFlags e e.nameString >>= fun modeFlags => _) = _
    rw [frameModeFlags_eq h]
    show (updateMode e.info mode _ >>= fun info => _) = _
    rw [hupdate]
    rfl

theorem agrees_parseName (h : e.Shaped) (hmode : mode < maxModes)
    (hlow : 3 ≤ e.rxMsgSize) (hhigh : e.rxMsgSize ≤ rxMsgBytes) :
    Agrees (parseName e mode) (e.parseName mode) := by
  have hlt : e.rxMsgSize - 1 < e.rxMsg.length := by
    rw [h.rxMsg]
    omega
  have h' : ({ e with rxMsg := e.rxMsg.set (e.rxMsgSize - 1) 0 } : Engine).Shaped :=
    ⟨(length_set ..).trans h.rxMsg, h.info⟩
  unfold parseName Engine.parseName
  rw [store_eq_some hlt]
  exact agrees_parseTerminated h' hmode (cString_terminated h hlow hhigh)

/-! ### The other details of a mode -/

theorem agrees_parseRange (h : e.Shaped) (hmode : mode < maxModes)
    {set : UInt32 × UInt32 → ModeInfo → ModeInfo} (hset : ∀ r m, m.Shaped → (set r m).Shaped) :
    Agrees (parseRange e mode set) (e.parseRange mode set) := by
  unfold parseRange Engine.parseRange
  rw [getU32Le_rxMsg h (by decide), getU32Le_rxMsg h (by decide)]
  split
  · refine ⟨?_, h.rxMsg, h.info.setMode mode (hset _)⟩
    show (updateMode e.info mode _ >>= fun info => _) = _
    rw [updateMode_eq h.info hmode fun m _ => rfl]
    rfl
  · exact ⟨rfl, h⟩

theorem setUnits_eq {bytes : List UInt8} {n : Nat} (hbytes : bytes.length = n)
    (hn : n ≤ maxUnitsLen) {m : ModeInfo} (hm : m.Shaped) :
    setUnits bytes n m = some { m with units := (m.units.overlay 0 bytes).set n 0 } := by
  have hfits : 0 + bytes.length ≤ m.units.length := by
    rw [hm.2]
    omega
  rw [setUnits, copy_eq_some hfits]
  show (store (m.units.overlay 0 bytes) n 0 >>= fun units => some { m with units }) = _
  rw [store_eq_some (by rw [length_overlay hfits, hm.2]; omega)]
  rfl

theorem agrees_parseUnits (h : e.Shaped) (hmode : mode < maxModes) :
    Agrees (parseUnits e mode) (e.parseUnits mode) := by
  unfold parseUnits Engine.parseUnits
  dsimp only
  have hn : min (e.rxMsgSize - 3) maxUnitsLen ≤ maxUnitsLen := Nat.min_le_right ..
  generalize min (e.rxMsgSize - 3) maxUnitsLen = n at hn
  have hroom : 2 + n ≤ e.rxMsg.length := by
    rw [h.rxMsg]
    exact Nat.le_trans (Nat.add_le_add_left hn 2) (by decide)
  have hbytes : (e.rxMsg.window 2 n).length = n := length_window hroom
  rw [span_eq_some hroom]
  have hset : ∀ m : ModeInfo, m.Shaped →
      ({ m with units := (m.units.overlay 0 (e.rxMsg.window 2 n)).set n 0 } : ModeInfo).Shaped := by
    intro m hm
    refine ⟨hm.1, ?_⟩
    show ((m.units.overlay 0 (e.rxMsg.window 2 n)).set n 0).length = _
    rw [length_set, length_overlay (by rw [hbytes, hm.2]; omega), hm.2]
  refine ⟨?_, h.rxMsg, h.info.setMode mode hset⟩
  show (updateMode e.info mode _ >>= fun info => _) = _
  rw [updateMode_eq h.info hmode fun m hm => setUnits_eq hbytes hn hm]
  rfl

theorem agrees_parseMapping (h : e.Shaped) (hmode : mode < maxModes) :
    Agrees (parseMapping e mode) (e.parseMapping mode) := by
  unfold parseMapping Engine.parseMapping
  rw [load_rxMsg h (by decide)]
  split
  · refine ⟨?_, h.rxMsg, h.info.setMode mode fun m hm => hm⟩
    show (updateMode e.info mode _ >>= fun info => _) = _
    rw [updateMode_eq h.info hmode fun m _ => rfl]
    rfl
  · exact ⟨rfl, h⟩

theorem agrees_parseFormat (h : e.Shaped) (hmode : mode < maxModes) :
    Agrees (parseFormat e mode) (e.parseFormat mode) := by
  unfold parseFormat Engine.parseFormat
  rw [load_rxMsg h (by decide), load_rxMsg h (by decide)]
  split
  · exact ⟨rfl, h⟩
  split
  · exact ⟨rfl, h⟩
  split
  · exact ⟨rfl, h⟩
  · show Agrees (updateMode e.info mode _ >>= fun info => _) _
    rw [updateMode_eq h.info hmode fun m _ => rfl]
    dsimp only [bind, Option.bind]
    split
    · exact ⟨rfl, h.rxMsg, h.info.setMode mode fun m hm => hm⟩
    · exact ⟨rfl, h.rxMsg, h.info.setMode mode fun m hm => hm⟩

theorem agrees_parseInfo (h : e.Shaped) {mode cmd2 : UInt8} (hmode : mode < maxModes)
    (hlow : 3 ≤ e.rxMsgSize) (hhigh : e.rxMsgSize ≤ rxMsgBytes) :
    Agrees (parseInfo e mode cmd2) (e.parseInfo mode cmd2) := by
  unfold parseInfo Engine.parseInfo
  split
  · exact agrees_parseName h hmode hlow hhigh
  split
  · exact agrees_parseRange h hmode fun r m hm => hm
  split
  · exact agrees_parseRange h hmode fun r m hm => hm
  split
  · exact agrees_parseRange h hmode fun r m hm => hm
  split
  · exact agrees_parseUnits h hmode
  split
  · exact agrees_parseMapping h hmode
  split
  · exact agrees_parseFormat h hmode
  · exact ⟨rfl, h⟩

/-! ### Data -/

theorem parseData_eq (h : e.Shaped) :
    parseData e (e.rx 0) = some ⟨OK, e.parseData.1, e.parseData.2⟩ ∧ e.parseData.1.Shaped := by
  unfold parseData Engine.parseData
  dsimp only
  split
  · exact ⟨rfl, h⟩
  split
  · exact ⟨rfl, h⟩
  next hsize =>
    have hroom : 1 + payloadSize (e.rx 0) ≤ e.rxMsg.length := by
      have hmax : payloadSize (e.rx 0) ≤ 32 := Nat.le_of_not_lt hsize
      rw [h.rxMsg, rxMsgBytes]
      omega
    have hdata : 0 + (e.rxMsg.window 1 (payloadSize (e.rx 0))).length ≤
        (List.replicate maxPayload (0 : UInt8)).length := by
      rw [length_window hroom, length_replicate]
      omega
    rw [span_eq_some hroom]
    refine ⟨?_, h.rxMsg, h.info⟩
    show (copy _ 0 (e.rxMsg.window 1 (payloadSize (e.rx 0))) >>= fun data => _) = _
    rw [copy_eq_some hdata]
    rfl

/-! ## The parser -/

/-- What the parser is promised: the size of a whole frame. -/
structure Ready (e : Engine) : Prop where
  shaped : e.Shaped
  fits : e.rxMsgSize ≤ rxMsgBytes
  info : msgType (e.rx 0) = .info → 3 ≤ e.rxMsgSize

theorem cmd2_eq (h : e.Shaped) : cmd2 e = some e.cmd2 := by
  rw [cmd2, load_rxMsg h (by decide), Engine.cmd2]
  split
  · rfl
  · rfl

theorem Agrees.quiet {p : Option (Int × Engine)} {q : Int × Engine} (h : Agrees p q) :
    (p >>= fun r => some (Parsed.quiet r)) = some (.quiet q) ∧ (Parsed.quiet q).engine.Shaped := by
  obtain ⟨rfl, hq⟩ := h
  exact ⟨rfl, hq⟩

/-- **The parser makes every access it tries.** -/
theorem parseMsg_eq (h : Ready e) :
    parseMsg e = some (Lump.parseMsg e) ∧ (Lump.parseMsg e).engine.Shaped := by
  have hs := h.shaped
  by_cases hsize : e.rxMsgSize = 0
  · rw [parseMsg, Lump.parseMsg, if_pos hsize, if_pos hsize]
    exact ⟨rfl, hs⟩
  rw [parseMsg, Lump.parseMsg, if_neg hsize, if_neg hsize, load_rxMsg hs (by decide), cmd2_eq hs]
  by_cases hmode : e.prologue.1 ≥ maxModes
  · have hdropped : prologue e (e.rx 0) e.cmd2 = e.prologue := rfl
    dsimp only [bind, Option.bind]
    rw [hdropped, if_pos hmode, if_pos hmode]
    exact ⟨rfl, hs⟩
  have hprologue : prologue e (e.rx 0) e.cmd2 = e.prologue := rfl
  dsimp only [bind, Option.bind]
  rw [hprologue, if_neg hmode, if_neg hmode]
  have hlt : e.prologue.1 < maxModes := UInt8.not_le.mp hmode
  cases htype : msgType (e.rx 0) with
  | sys => exact (agrees_parseSys hs).quiet
  | cmd =>
    have hcmd2 : e.prologue.2 = e.cmd2 := by
      rw [Engine.prologue_of_ne_info]
      rw [htype]
      decide
    rw [hcmd2]
    exact (agrees_parseCmd hs).quiet
  | info => exact (agrees_parseInfo hs hlt (h.info htype) h.fits).quiet
  | data => exact parseData_eq hs

end Bounded

end Brickwright.Lump
