import Mathlib.Data.List.Induction
import Brickwright.Lump.Engine
import Brickwright.Machine.Basic

/-!
# What a frame can do

`Effect e p` lists every outcome of a parse: the engine before, the guards that were passed, and the
whole engine after. Everything later that holds of the engine "whatever arrives" is a case analysis
on this list, and never on the parser.
-/

namespace Brickwright.Lump

/-- The parse of the frame in `rx_msg` comes out as `p`. -/
inductive Effect (e : Engine) : Parsed → Prop where
  /-- Dropped or refused. -/
  | none (ret : Int) : Effect e ⟨ret, e, []⟩
  | ack : Effect e ⟨OK, { e with info := { e.info with currentMode := e.newMode } }, []⟩
  | type (hmin : typeIdMin ≤ e.rx 1) (hmax : e.rx 1 ≤ typeIdMax) :
      Effect e ⟨OK, { e with
        infoFlags := e.infoFlags ||| ifCmdType, info := { e.info with typeId := e.rx 1 } }, []⟩
  | modes (hmode : msgCmd (e.rx 0) + e.extMode < maxModes) (htype : msgType (e.rx 0) = .cmd)
      (hcmd : msgCmd (e.rx 0) = cmdModes) (hfirst : e.infoFlags &&& ifCmdModes = 0)
      (hcmd2 : e.cmd2 ≤ 7) :
      Effect e ⟨OK, { e with
        infoFlags := e.infoFlags ||| ifCmdModes, newMode := e.numModes - 1
        info := { e.info with numModes := e.numModes } }, []⟩
  | speed (hmin : baudFallback ≤ e.rx32 1) (hmax : e.rx32 1 ≤ baudMax) :
      Effect e ⟨OK, { e with
        infoFlags := e.infoFlags ||| ifCmdSpeed, newBaudRate := e.rx32 1 }, []⟩
  | version :
      Effect e ⟨OK, { e with
        infoFlags := e.infoFlags ||| ifCmdVersion
        info := { e.info with fwVersion := e.rx32 1, hwVersion := e.rx32 5 } }, []⟩
  | extMode (hmode : msgCmd (e.rx 0) + e.extMode < maxModes) (htype : msgType (e.rx 0) = .cmd)
      (hcmd : msgCmd (e.rx 0) = cmdExtMode) : Effect e ⟨OK, { e with extMode := e.rx 1 }, []⟩
  /-- A name that is refused has still lost its checksum. -/
  | badName (rxMsg : List UInt8) : Effect e ⟨-EBADMSG, { e with rxMsg := rxMsg }, []⟩
  | name (mode : UInt8) (rxMsg : List UInt8) (modes : List ModeInfo) (capabilityFlags : UInt8) :
      Effect e ⟨OK, { e with
        rxMsg := rxMsg, infoFlags := e.infoFlags ||| ifInfoName, newMode := mode
        info := { e.info with modes := modes, capabilityFlags := capabilityFlags } }, []⟩
  /-- A detail of one mode. -/
  | detail (modes : List ModeInfo) :
      Effect e ⟨OK, { e with info := { e.info with modes := modes } }, []⟩
  /-- The last mode is complete. -/
  | lastFormat (modes : List ModeInfo) (hnew : e.newMode = 0)
      (hflags : e.infoFlags &&& ifRequired = ifRequired &&& ~~~ifInfoFormat) :
      Effect e ⟨OK, { e with
        infoFlags := e.infoFlags ||| ifInfoFormat, info := { e.info with modes := modes } }, []⟩
  /-- A mode is complete and others are left. -/
  | format (modes : List ModeInfo) (hnew : 0 < e.newMode) :
      Effect e ⟨OK, { e with
        infoFlags := (e.infoFlags ||| ifInfoFormat) &&& ~~~(ifInfoName ||| ifInfoFormat)
        newMode := e.newMode - 1, info := { e.info with modes := modes } }, []⟩
  | data (htype : msgType (e.rx 0) = .data) (hmode : msgCmd (e.rx 0) + e.extMode < maxModes) :
      Effect e ⟨OK, (e.deliver (msgCmd (e.rx 0) + e.extMode)).1,
        (e.deliver (msgCmd (e.rx 0) + e.extMode)).2⟩

section effects

variable (e : Engine)

theorem parseSys_effect : Effect e (.quiet e.parseSys) := by
  unfold Engine.parseSys
  split
  · split
    · exact .none _
    · exact .ack
  · exact .none _

theorem parseType_effect : Effect e (.quiet e.parseType) := by
  unfold Engine.parseType
  split
  · exact .none _
  next h =>
    obtain ⟨hmin, hmax⟩ := not_or.mp h
    exact .type (UInt8.not_lt.mp hmin) (UInt8.not_lt.mp hmax)

theorem parseModes_effect (hmode : msgCmd (e.rx 0) + e.extMode < maxModes)
    (htype : msgType (e.rx 0) = .cmd) (hcmd : msgCmd (e.rx 0) = cmdModes) :
    Effect e (.quiet e.parseModes) := by
  unfold Engine.parseModes
  split
  · exact .none _
  next hfirst =>
    split
    · exact .none _
    next hcmd2 => exact .modes hmode htype hcmd (not_not.mp hfirst) (UInt8.not_lt.mp hcmd2)

theorem parseSpeed_effect : Effect e (.quiet e.parseSpeed) := by
  unfold Engine.parseSpeed
  split
  · exact .none _
  · split
    · exact .none _
    next h =>
      obtain ⟨hmin, hmax⟩ := not_or.mp h
      exact .speed (UInt32.not_lt.mp hmin) (UInt32.not_lt.mp hmax)

theorem parseVersion_effect : Effect e (.quiet e.parseVersion) := by
  unfold Engine.parseVersion
  split
  · exact .none _
  · exact .version

theorem parseCmd_effect (hmode : msgCmd (e.rx 0) + e.extMode < maxModes)
    (htype : msgType (e.rx 0) = .cmd) : Effect e (.quiet e.parseCmd) := by
  simp only [Engine.parseCmd]
  split
  · exact parseType_effect e
  · split
    next hcmd => exact parseModes_effect e hmode htype hcmd
    · split
      · exact parseSpeed_effect e
      · split
        · exact parseVersion_effect e
        · split
          next hcmd => exact .extMode hmode htype hcmd
          · split
            · exact .none _
            · exact .none _

theorem parseName_effect (mode : UInt8) : Effect e (.quiet (e.parseName mode)) := by
  simp only [Engine.parseName]
  split
  · exact .badName _
  · exact .name mode _ _ _

theorem parseRange_effect (mode : UInt8) (set : UInt32 × UInt32 → ModeInfo → ModeInfo) :
    Effect e (.quiet (e.parseRange mode set)) := by
  unfold Engine.parseRange
  split
  · exact .detail _
  · exact .none _

theorem parseUnits_effect (mode : UInt8) : Effect e (.quiet (e.parseUnits mode)) :=
  .detail _

theorem parseMapping_effect (mode : UInt8) : Effect e (.quiet (e.parseMapping mode)) := by
  unfold Engine.parseMapping
  split
  · exact .detail _
  · exact .none _

theorem parseFormat_effect (mode : UInt8) : Effect e (.quiet (e.parseFormat mode)) := by
  simp only [Engine.parseFormat]
  split
  · exact .none _
  · split
    · exact .none _
    · split
      · exact .none _
      next hflags =>
        split
        next hnew => exact .format _ hnew
        next hnew =>
          exact .lastFormat _ (UInt8.le_zero_iff.mp (UInt8.not_lt.mp hnew)) (not_not.mp hflags)

theorem parseInfo_effect (mode cmd2 : UInt8) : Effect e (.quiet (e.parseInfo mode cmd2)) := by
  unfold Engine.parseInfo
  repeat' split
  · exact parseName_effect e mode
  · exact parseRange_effect e mode _
  · exact parseRange_effect e mode _
  · exact parseRange_effect e mode _
  · exact parseUnits_effect e mode
  · exact parseMapping_effect e mode
  · exact parseFormat_effect e mode
  · exact .none _

theorem parseData_effect (htype : msgType (e.rx 0) = .data) :
    Effect e ⟨OK, e.parseData.1, e.parseData.2⟩ := by
  unfold Engine.parseData
  split
  · exact .none _
  next hmode =>
    split
    · exact .none _
    · exact .data htype (UInt8.not_le.mp hmode)

/-- **Everything a frame can do.** -/
theorem parse_effect : Effect e (parseMsg e) := by
  unfold parseMsg
  split
  · exact .none _
  · simp only
    split
    · exact .none _
    next hmode =>
      split
      · exact parseSys_effect e
      next htype =>
        rw [Engine.prologue_of_ne_info (by rw [htype]; nofun)] at hmode
        exact parseCmd_effect e (UInt8.not_le.mp hmode) htype
      · exact parseInfo_effect e _ _
      next htype => exact parseData_effect e htype

end effects

/-!
## Extended modes

A `CMD EXT_MODE` frame sets an adder that the prologue of the parser applies to every later frame,
of whatever type. It applies it to the next `CMD EXT_MODE` as well, so the number of that command is
shifted out of the window of eight modes by most adders, and the frame is dropped there.

`hear` runs the parser over received frames. `announced` is the adder the device means to be in
force, read off the frames alone. `ext_mode_law` says exactly on which transmissions the engine
agrees with it.
-/

open List

/-- The parser, fed with one received frame after the other. -/
def hear : Machine Engine Frame (Int × List Call) where
  step e f :=
    ((parseMsg (e.receive f)).engine, (parseMsg (e.receive f)).ret, (parseMsg (e.receive f)).calls)

/-! ### What the device means -/

/-- A `CMD EXT_MODE` frame. -/
def Frame.IsExtMode (f : Frame) : Prop := f.type = .cmd ∧ f.cmd = cmdExtMode

instance (f : Frame) : Decidable f.IsExtMode := inferInstanceAs (Decidable (_ ∧ _))

def Frame.value (f : Frame) : UInt8 := f.bytes.getD 1 0

/-- The value of the last `CMD EXT_MODE`. -/
def announced (frames : List Frame) : Option UInt8 :=
  frames.foldl (fun v f => if f.IsExtMode then some f.value else v) none

/-- The adder after some frames, if every `CMD EXT_MODE` among them took effect. -/
def adder (e : Engine) (frames : List Frame) : UInt8 := (announced frames).getD e.extMode

theorem announced_concat (frames : List Frame) (f : Frame) :
    announced (frames ++ [f]) = if f.IsExtMode then some f.value else announced frames := by
  rw [announced, foldl_append]
  rfl

theorem adder_concat (e : Engine) (frames : List Frame) (f : Frame) :
    adder e (frames ++ [f]) = if f.IsExtMode then f.value else adder e frames := by
  rw [adder, announced_concat]
  split
  · rfl
  · rfl

/-! ### What the engine does -/

/-- The ring entry for a DATA frame taken as one of `mode`. -/
def Frame.toData (f : Frame) (mode : UInt8) : DataFrame :=
  ⟨mode, UInt8.ofNat (payloadSize f.header), (List.replicate maxPayload 0).overlay 0 f.payload⟩

/-- The frame reaches the ring, the public mode and the consumer as one of `mode`. -/
structure DeliveredAs (e : Engine) (f : Frame) (mode : UInt8) : Prop where
  pushed : .push (f.toData mode) ∈ (hear.step e f).2.2
  queued : (hear.step e f).1.dq = (e.dq.push (f.toData mode)).2
  current : (hear.step e f).1.info.currentMode = mode
  notified : e.onData = true → .onData mode f.payload ∈ (hear.step e f).2.2

/-- The frame has no effect beyond the receive buffer. -/
def Dropped (e : Engine) (f : Frame) : Prop := hear.step e f = (e.receive f, OK, [])

/-! #### One frame -/

variable (e : Engine) (f : Frame)

/-- The adder behind a frame that arrives under the adder `a`. -/
def nextAdder (a : UInt8) (f : Frame) : UInt8 :=
  if f.IsExtMode ∧ cmdExtMode + a < maxModes then f.value else a

theorem extMode_hear_of_not (hext : ¬ f.IsExtMode) : (hear.step e f).1.extMode = e.extMode := by
  have heffect : Effect (e.receive f) (parseMsg (e.receive f)) := parse_effect _
  show (parseMsg (e.receive f)).engine.extMode = (e.receive f).extMode
  generalize parseMsg (e.receive f) = p at heffect
  cases heffect with
  | extMode hmode htype hcmd =>
    rw [Engine.rx_receive_zero] at htype hcmd
    exact absurd ⟨htype, hcmd⟩ hext
  | _ => rfl

/-- **`CMD EXT_MODE` goes through the adder that is in force.** -/
theorem extMode_hear : (hear.step e f).1.extMode = nextAdder e.extMode f := by
  by_cases hext : f.IsExtMode
  · obtain ⟨htype, hcmd⟩ := hext
    have hlen : 1 < f.bytes.length := by
      have := f.length_cmd htype
      omega
    have hset : (e.receive f).parseCmd = (OK, { e.receive f with extMode := f.value }) := by
      rw [Engine.parseCmd, Engine.rx_receive_zero, show msgCmd f.header = cmdExtMode from hcmd,
        Engine.rx_receive e f hlen]
      rfl
    show (parseMsg (e.receive f)).engine.extMode = _
    rw [parseMsg_receive, Engine.prologue_receive e f (by rw [htype]; nofun), hcmd, htype]
    -- The number of the command goes through the same sum as a mode.
    by_cases hmode : cmdExtMode + e.extMode < maxModes
    · rw [if_neg (UInt8.not_le.mpr hmode), nextAdder, if_pos ⟨⟨htype, hcmd⟩, hmode⟩]
      simp only [hset]
      rfl
    · rw [if_pos (UInt8.not_lt.mp hmode), nextAdder, if_neg fun h => hmode h.2]
      rfl
  · rw [nextAdder, if_neg fun h => hext h.1, extMode_hear_of_not e f hext]

/-- **DATA is taken under the adder in force**, or dropped. -/
theorem hear_data (htype : f.type = .data) :
    hear.step e f
      = if f.cmd + e.extMode ≥ maxModes then (e.receive f, OK, [])
        else (((e.receive f).deliver (f.cmd + e.extMode)).1, OK,
          ((e.receive f).deliver (f.cmd + e.extMode)).2) := by
  have hpayload : ¬ payloadSize f.header > maxPayload := Nat.not_lt.mpr (f.payloadSize_le htype)
  have hparse := parseMsg_receive e f
  rw [Engine.prologue_receive e f (by rw [htype]; nofun), htype] at hparse
  show ((parseMsg (e.receive f)).engine, (parseMsg (e.receive f)).ret,
    (parseMsg (e.receive f)).calls) = _
  rw [hparse]
  by_cases hmode : f.cmd + e.extMode ≥ maxModes
  · rw [if_pos hmode, if_pos hmode]
  · have hdata : (e.receive f).parseData = (e.receive f).deliver (f.cmd + e.extMode) := by
      rw [Engine.parseData, Engine.rx_receive_zero, Engine.extMode_receive]
      rw [show msgCmd f.header = f.cmd from rfl, if_neg hmode, if_neg hpayload]
    rw [if_neg hmode, if_neg hmode]
    simp only [hdata]

theorem dropped_iff (htype : f.type = .data) : Dropped e f ↔ f.cmd + e.extMode ≥ maxModes := by
  rw [Dropped, hear_data e f htype]
  by_cases hmode : f.cmd + e.extMode ≥ maxModes
  · rw [if_pos hmode]
    exact ⟨fun _ => hmode, fun _ => rfl⟩
  · rw [if_neg hmode]
    refine ⟨fun heq => ?_, fun h => absurd h hmode⟩
    -- A delivery calls the ring at least.
    have hcalls : ((e.receive f).deliver (f.cmd + e.extMode)).2 = [] := congrArg (·.2.2) heq
    cases hcalls

theorem deliveredAs_of_lt (htype : f.type = .data) (hmode : f.cmd + e.extMode < maxModes) :
    DeliveredAs e f (f.cmd + e.extMode) := by
  have hstep := hear_data e f htype
  rw [if_neg (UInt8.not_le.mpr hmode)] at hstep
  have hframe : (e.receive f).dataFrame (f.cmd + e.extMode) = f.toData (f.cmd + e.extMode) := by
    rw [Engine.dataFrame, Engine.rx_receive_zero, Engine.payload_receive e f htype]
    rfl
  constructor
  · rw [hstep, Engine.deliver, hframe]
    exact mem_cons_self
  · rw [hstep, Engine.deliver, hframe]
    rfl
  · rw [hstep]
    rfl
  · intro hon
    rw [hstep, Engine.deliver, Engine.onData_receive, hon, Engine.payload_receive e f htype]
    exact mem_cons_of_mem _ mem_cons_self

/-! ### The law -/

/-- What the device may expect of frame `f` after the frames `pre`. -/
structure Understood (e : Engine) (pre : List Frame) (f : Frame) : Prop where
  takes_effect : f.IsExtMode → (hear.run e (pre ++ [f])).extMode = f.value
  delivered : ∀ v, f.type = .data → announced pre = some v →
    f.cmd.toNat + v.toNat < maxModes.toNat → DeliveredAs (hear.run e pre) f (f.cmd + v)
  dropped : ∀ v, f.type = .data → announced pre = some v →
    maxModes.toNat ≤ f.cmd.toNat + v.toNat → Dropped (hear.run e pre) f

/-- The number of a `CMD EXT_MODE` stays in the window under the adder before it, unless the command
changes nothing; the mode of a DATA frame does not wrap. -/
def InWindow (e : Engine) (pre : List Frame) (f : Frame) : Prop :=
  (f.IsExtMode → cmdExtMode + adder e pre < maxModes ∨ f.value = adder e pre) ∧
    (∀ v, f.type = .data → announced pre = some v → f.cmd.toNat + v.toNat < 256)

/-- As long as every command takes effect, the engine has the adder that was announced. -/
theorem extMode_run {frames : List Frame}
    (h : ∀ pre f post, frames = pre ++ f :: post → f.IsExtMode →
      (hear.run e pre).extMode = adder e pre → (hear.step (hear.run e pre) f).1.extMode = f.value) :
    (hear.run e frames).extMode = adder e frames := by
  induction frames using List.reverseRecOn with
  | nil => rfl
  | append_singleton frames f ih =>
    have hbefore : (hear.run e frames).extMode = adder e frames := by
      apply ih
      intro pre g post heq
      apply h pre g (post ++ [f])
      rw [heq, append_assoc, cons_append]
    rw [adder_concat, hear.run_concat]
    by_cases hext : f.IsExtMode
    · rw [if_pos hext]
      exact h frames f [] rfl hext hbefore
    · rw [if_neg hext, extMode_hear_of_not _ f hext, hbefore]

/-- A command in the window takes effect, and so does one that repeats the adder. -/
theorem extMode_hear_of_inWindow {pre : List Frame} {f : Frame} (hwin : InWindow e pre f)
    (hext : f.IsExtMode) (hadder : (hear.run e pre).extMode = adder e pre) :
    (hear.step (hear.run e pre) f).1.extMode = f.value := by
  rw [extMode_hear, hadder, nextAdder]
  rcases hwin.1 hext with hlt | hsame
  · rw [if_pos ⟨hext, hlt⟩]
  · rw [hsame, ite_self]

theorem toNat_mode {m v : UInt8} (h : m.toNat + v.toNat < 256) :
    (m + v).toNat = m.toNat + v.toNat := by
  rw [UInt8.toNat_add, Nat.mod_eq_of_lt h]

theorem cmd_lt (f : Frame) : f.cmd.toNat < 8 := by
  exact Nat.lt_of_le_of_lt Nat.and_le_right (by decide)

theorem understood_of_inWindow {pre : List Frame} {f : Frame} (hwin : InWindow e pre f)
    (hadder : (hear.run e pre).extMode = adder e pre) : Understood e pre f := by
  have hmode : ∀ v, f.type = .data → announced pre = some v →
      (f.cmd + (hear.run e pre).extMode).toNat = f.cmd.toNat + v.toNat := by
    intro v htype hv
    rw [hadder, adder, hv]
    exact toNat_mode (hwin.2 v htype hv)
  constructor
  · intro hext
    rw [hear.run_concat]
    exact extMode_hear_of_inWindow e hwin hext hadder
  · intro v htype hv hlt
    have heq : (hear.run e pre).extMode = v := by rw [hadder, adder, hv]; rfl
    rw [← hmode v htype hv] at hlt
    have := deliveredAs_of_lt (hear.run e pre) f htype (UInt8.lt_iff_toNat_lt.mpr hlt)
    rwa [heq] at this
  · intro v htype hv hle
    rw [← hmode v htype hv] at hle
    exact (dropped_iff _ f htype).mpr (UInt8.le_iff_toNat_le.mpr hle)

theorem inWindow_of_understood {pre : List Frame} {f : Frame} (h : Understood e pre f)
    (hadder : (hear.run e pre).extMode = adder e pre) : InWindow e pre f := by
  constructor
  · intro hext
    have heffect := h.takes_effect hext
    rw [hear.run_concat, extMode_hear, hadder, nextAdder] at heffect
    by_cases hlt : cmdExtMode + adder e pre < maxModes
    · exact .inl hlt
    · rw [if_neg fun h => hlt h.2] at heffect
      exact .inr heffect.symm
  · intro v htype hv
    by_contra hwrap
    -- The sum wraps into the window, so the frame is delivered although its mode is out of range.
    have hdrop := h.dropped v htype hv (by show 8 ≤ _; omega)
    have hle := (dropped_iff _ f htype).mp hdrop
    rw [hadder, adder, hv, Option.getD_some, ge_iff_le, UInt8.le_iff_toNat_le,
      UInt8.toNat_add] at hle
    have hcmd := cmd_lt f
    have hv := v.toNat_lt
    have hmax : maxModes.toNat = 8 := rfl
    omega

/-- **Extended modes.** The engine understands every frame of a transmission as the device means it
exactly when every frame stays in the window under the adder that the device announced before it. -/
theorem ext_mode_law (e : Engine) (frames : List Frame) :
    (∀ pre f post, frames = pre ++ f :: post → Understood e pre f)
      ↔ ∀ pre f post, frames = pre ++ f :: post → InWindow e pre f := by
  -- What holds at every frame holds at every frame before a given one.
  have hbefore : ∀ {P : List Frame → Frame → Prop} {pre : List Frame} {f : Frame} {post},
      frames = pre ++ f :: post → (∀ pre f post, frames = pre ++ f :: post → P pre f) →
      ∀ pre' g post', pre = pre' ++ g :: post' → P pre' g := by
    intro P pre f post heq h pre' g post' hpre
    apply h pre' g (post' ++ f :: post)
    rw [heq, hpre, append_assoc, cons_append]
  constructor
  · intro h pre f post heq
    apply inWindow_of_understood e (h pre f post heq)
    apply extMode_run
    intro pre' g post' hpre hext _
    rw [← hear.run_concat]
    exact (hbefore heq h pre' g post' hpre).takes_effect hext
  · intro h pre f post heq
    apply understood_of_inWindow e (h pre f post heq)
    apply extMode_run
    intro pre' g post' hpre
    exact extMode_hear_of_inWindow e (hbefore heq h pre' g post' hpre)

/-- `CMD EXT_MODE 8`, then `CMD EXT_MODE 0`, then DATA of mode 0. -/
def backToLowModes : List Frame :=
  [⟨[0x46, 0x08, 0xb1], by decide, by decide, by decide⟩,
    ⟨[0x46, 0x00, 0xb9], by decide, by decide, by decide⟩,
    ⟨[0xc0, 0x05, 0x3a], by decide, by decide, by decide⟩]

/-- **The adder 8 cannot be taken back**: a later 0 is dropped with the frames it shifts out of
range, and so is the DATA frame behind it. -/
theorem ext_mode_stuck :
    ¬ (∀ pre f post, backToLowModes = pre ++ f :: post →
        Understood (Engine.boot true true).resetSession pre f) ∧
      (hear.run (Engine.boot true true).resetSession (backToLowModes.take 2)).extMode = 8 ∧
      (hear.trace (Engine.boot true true).resetSession backToLowModes).map (·.2.2) =
        [[], [], []] := by
  have hstuck :
      (hear.run (Engine.boot true true).resetSession (backToLowModes.take 2)).extMode = 8 := by
    decide +kernel
  refine ⟨fun h => ?_, hstuck, by decide +kernel⟩
  have htaken := (h _ _ _ (show backToLowModes = backToLowModes.take 1 ++ _ from rfl)).takes_effect
    (by decide)
  exact absurd (hstuck.symm.trans htaken) (by decide)

end Brickwright.Lump
