import Brickwright.Bytes.Buffers
import Brickwright.Machine.Threads
import Brickwright.Text.Decimal

/-!
# Tunes (`stm32_tone.c`)

The parser of `/dev/tone0` and the waveform of a note. `parser_init` takes the leading directives,
`parser_next` one note or rest; what it cannot read it skips a part of, and says so.
-/

namespace Brickwright.Sound

open Decimal (IsDigit digitValue)

def noteBufSamples : Nat := 256

def targetSampleRate : Nat := 50000

def minSampleRate : Nat := 1000

def maxSampleRate : Nat := 100000

def defaultTempoBpm : Nat := 120

def minMidi : Int := 24

def maxMidi : Int := 107

/-- `g_volume_curve`. -/
def volumeCurve : List Nat :=
  [0, 943, 2130, 3624, 5505, 7873, 10851, 14607, 19331, 25280, 32767]

/-- `g_midi_mhz`: the frequency of a MIDI note, in mHz. -/
def midiMhz : List Nat := [
  8176, 8662, 9177, 9723, 10301, 10913, 11562, 12250, 12978, 13750, 14568, 15434,
  16352, 17324, 18354, 19445, 20602, 21827, 23125, 24500, 25957, 27500, 29135, 30868,
  32703, 34648, 36708, 38891, 41203, 43654, 46249, 48999, 51913, 55000, 58270, 61735,
  65406, 69296, 73416, 77782, 82407, 87307, 92499, 97999, 103826, 110000, 116541, 123471,
  130813, 138591, 146832, 155563, 164814, 174614, 184997, 195998, 207652, 220000, 233082, 246942,
  261626, 277183, 293665, 311127, 329628, 349228, 369994, 391995, 415305, 440000, 466164, 493883,
  523251, 554365, 587330, 622254, 659255, 698456, 739989, 783991, 830609, 880000, 932328, 987767,
  1046502, 1108731, 1174659, 1244508, 1318510, 1396913, 1479978, 1567982, 1661219, 1760000,
  1864655, 1975533, 2093005, 2217461, 2349318, 2489016, 2637020, 2793826, 2959955, 3135963,
  3322438, 3520000, 3729310, 3951066, 4186009, 4434922, 4698636, 4978032, 5274041, 5587652,
  5919911, 6271927, 6644875, 7040000, 7458620, 7902133, 8372018, 8869844, 9397273, 9956063,
  10548082, 11175303, 11839822, 12543854]

/-! ## The waveform -/

def toneAmplitudeFromVolume (volume : UInt8) : Nat :=
  let volume := if volume > 100 then 100 else volume.toNat
  let idx := volume / 10
  let rem := volume - idx * 10
  let lo := volumeCurve.getD idx 0
  let hi := if idx < 10 then volumeCurve.getD (idx + 1) 0 else volumeCurve.getD 10 0
  lo + (hi - lo) * rem / 10

/-- The number of samples of one period. -/
def squareLength (freqMhz : Nat) : Nat :=
  let freqHz := (freqMhz + 500) / 1000
  let freqHz := if freqHz = 0 then 1 else freqHz
  let n := targetSampleRate / freqHz
  let n := if n < 4 then 4 else n
  let n := if n > noteBufSamples then noteBufSamples else n
  n / 2 * 2

def squareRate (freqMhz : Nat) : Nat :=
  let sr := (freqMhz * squareLength freqMhz + 500) / 1000
  let sr := if sr < minSampleRate then minSampleRate else sr
  if sr > maxSampleRate then maxSampleRate else sr

/-- `tone_build_square`: the first samples of `g_tone_buf`. -/
def toneBuildSquare (freqMhz : Nat) (volume : UInt8) : List UInt16 :=
  let att := (toneAmplitudeFromVolume volume).toUInt16
  List.replicate (squareLength freqMhz / 2) (0x8000 - att) ++
    List.replicate (squareLength freqMhz / 2) (0x8000 + att)

def toneBuildSilence : List UInt16 := List.replicate 16 0x8000

theorem squareLength_range (freqMhz : Nat) :
    4 ≤ squareLength freqMhz ∧ squareLength freqMhz ≤ noteBufSamples := by
  have hmax : noteBufSamples = 256 := rfl
  unfold squareLength
  dsimp only
  generalize targetSampleRate / _ = n
  split_ifs <;> omega

theorem squareRate_range (freqMhz : Nat) :
    minSampleRate ≤ squareRate freqMhz ∧ squareRate freqMhz ≤ maxSampleRate := by
  have hmin : minSampleRate = 1000 := rfl
  have hmax : maxSampleRate = 100000 := rfl
  unfold squareRate
  dsimp only
  generalize (freqMhz * _ + 500) / 1000 = sr
  split_ifs <;> omega

/-! ## The parser -/

/-- `struct parsed_note_s`. The pitch counts only where it is not a rest. -/
structure ParsedNote where
  isRest : Bool
  legato : Bool
  midi : Int := 0
  durationUs : Nat
  releaseUs : Nat
  deriving DecidableEq, Repr

/-- `struct tune_parser_s`; the text that is left stands for `cur` and `end`. -/
structure TuneParser where
  cur : List UInt8
  tempoBpm : Nat := defaultTempoBpm
  defaultOctave : Nat := 4
  defaultFraction : Nat := 4
  deriving DecidableEq, Repr

def isLetter (upper c : UInt8) : Bool := c = upper || c = upper + 0x20

def isBlank (c : UInt8) : Bool := c = 0x20 || c = 0x09 || c = 0x2c || c = 0x0d || c = 0x0a

/-- `parser_skip_ws`. -/
def skipWs (cur : List UInt8) : List UInt8 := cur.dropWhile isBlank

/-- The loop of `parser_read_int`. -/
def readDigits : Nat → List UInt8 → Option Nat × List UInt8
  | v, [] => (some v, [])
  | v, c :: cur =>
    if IsDigit c then
      let v := v * 10 + digitValue c
      if v > 100000 then (none, c :: cur) else readDigits v cur
    else (some v, c :: cur)

/-- `parser_read_int`, and the text behind what it has read. -/
def parserReadInt (cur : List UInt8) : Option Nat × List UInt8 :=
  match cur with
  | [] => (none, [])
  | c :: _ => if IsDigit c then readDigits 0 cur else (none, cur)

def IsFraction (v : Nat) : Prop := v = 1 ∨ v = 2 ∨ v = 4 ∨ v = 8 ∨ v = 16 ∨ v = 32

instance (v : Nat) : Decidable (IsFraction v) := inferInstanceAs (Decidable (_ ∨ _))

def directive (p : TuneParser) : Option TuneParser :=
  match p.cur with
  | [] => none
  | c :: cur =>
    let (v, rest) := parserReadInt cur
    if isLetter 0x54 c then
      some { p with cur := rest, tempoBpm := (v.filter fun v => 10 ≤ v ∧ v ≤ 400).getD p.tempoBpm }
    else if isLetter 0x4f c then
      some { p with
        cur := rest
        defaultOctave := (v.filter fun v => 2 ≤ v ∧ v ≤ 8).getD p.defaultOctave }
    else if isLetter 0x4c c then
      some { p with
        cur := rest, defaultFraction := (v.filter (IsFraction ·)).getD p.defaultFraction }
    else none

/-- The loop of `parser_init`. Each turn takes a letter, so there are no more turns than bytes. -/
def directives : Nat → TuneParser → TuneParser
  | 0, p => p
  | turns + 1, p =>
    let p := { p with cur := skipWs p.cur }
    match directive p with
    | some p => directives turns p
    | none => p

def parserInit (buf : List UInt8) : TuneParser := directives (buf.length + 1) { cur := buf }

def parserNoteOffset (c : UInt8) : Option Int :=
  if isLetter 0x43 c then some 0
  else if isLetter 0x44 c then some 2
  else if isLetter 0x45 c then some 4
  else if isLetter 0x46 c then some 5
  else if isLetter 0x47 c then some 7
  else if isLetter 0x41 c then some 9
  else if isLetter 0x42 c then some 11
  else none

/-- What `parser_next` returns. -/
inductive Next where
  | nodata
  | invalid
  | note (note : ParsedNote)
  deriving DecidableEq, Repr

def accidental (off : Int) : List UInt8 → Int × List UInt8
  | 0x23 :: cur => (off + 1, cur)
  | 0x62 :: cur => (off - 1, cur)
  | cur => (off, cur)

def octave (default : Nat) : List UInt8 → Nat × List UInt8
  | [] => (default, [])
  | c :: cur => if IsDigit c then (digitValue c, cur) else (default, c :: cur)

/-- A rest, or the pitch of a note, if it is one. -/
def pitch (p : TuneParser) : List UInt8 → Option (Option Int) × List UInt8
  | [] => (none, [])
  | c :: cur =>
    if isLetter 0x52 c then (some none, cur)
    else
      match parserNoteOffset c with
      | none => (none, cur)
      | some off =>
        let (off, cur) := accidental off cur
        let (oct, cur) := octave p.defaultOctave cur
        let midi := ((oct : Int) + 1) * 12 + off
        if midi < minMidi ∨ midi > maxMidi then (none, cur) else (some (some midi), cur)

def fraction (default : Nat) : List UInt8 → Option Nat × List UInt8
  | 0x2f :: cur => ((parserReadInt cur).1.filter (IsFraction ·), (parserReadInt cur).2)
  | cur => (some default, cur)

def suffixes (dotted legato : Bool) : List UInt8 → Bool × Bool × List UInt8
  | 0x2e :: cur => suffixes true legato cur
  | 0x5f :: cur => suffixes dotted true cur
  | cur => (dotted, legato, cur)

/-- The length of a note, in microseconds. -/
def noteLength (tempoBpm fraction : Nat) (dotted : Bool) : Nat :=
  let dur := 240000000 / tempoBpm / fraction
  if dotted then dur + dur / 2 else dur

def parserNext (p : TuneParser) : Next × TuneParser :=
  match skipWs p.cur with
  | [] => (.nodata, { p with cur := [] })
  | c :: cur =>
    match pitch p (c :: cur) with
    | (none, cur) => (.invalid, { p with cur := cur })
    | (some midi, cur) =>
      match fraction p.defaultFraction cur with
      | (none, cur) => (.invalid, { p with cur := cur })
      | (some frac, cur) =>
        let (dotted, legato, cur) := suffixes false false cur
        let dur := noteLength p.tempoBpm frac dotted
        let release := if legato then 0 else dur / 8
        (.note {
            isRest := midi.isNone, legato := legato, midi := midi.getD 0
            durationUs := dur - release, releaseUs := release },
          { p with cur := cur })

/-!
## The two sound devices (`stm32_tone.c`, `stm32_pcm.c`, `stm32_sound.c`)

`/dev/tone0` plays a tune, note by note; `/dev/pcm0` plays one period in a loop. They share the DMA,
and `g_sound` says which open file has it. What is done under `g_sound.lock` is one section;
`tone_write` gives the lock back between its notes, and looks at `stop_flag` without it.

A file stands for the thread that writes and closes it. `TONEIOC_STOP` and the volume come through
any file that is open, also while it is written.
-/

def EINTR : Int := 4

def E2BIG : Int := 7

def EFAULT : Int := 14

def EINVAL : Int := 22

def EOVERFLOW : Int := 139

def sliceUsec : Nat := 20000

/-- `CONFIG_SPIKE_SOUND_PCM_BUFSAMPLES`. -/
def pcmBufSamples : Nat := 1024

inductive Mode where
  | idle
  | tone
  | pcm
  deriving DecidableEq, Repr

inductive Device where
  | tone
  | pcm
  deriving DecidableEq, Repr

/-- What the DMA plays: how much of `g_tone_buf` or `g_pcm_buf`, at which rate. The file is the one
whose call has started it. -/
structure Playing where
  buffer : Device
  length : Nat
  sampleRate : Nat
  startedBy : Nat
  deriving DecidableEq, Repr

/-- `g_sound`, the two buffers and the hardware. -/
structure Shared where
  openCount : Int := 0
  owner : Option Nat := none
  mode : Mode := .idle
  volume : UInt8 := 100
  stopFlag : Bool := false
  toneBuf : List UInt16 := List.replicate noteBufSamples 0
  pcmBuf : List UInt16 := List.replicate pcmBufSamples 0
  playing : Option Playing := none
  /-- `GPIO_AMP_EN`. -/
  ampEn : Bool := false
  deriving DecidableEq

inductive Point where
  | closed
  | idle (device : Device)
  /-- `tone_write`, before it claims the hardware. -/
  | claiming (parser : TuneParser) (nbytes : Nat)
  /-- Before the next `parser_next`. -/
  | next (parser : TuneParser) (nbytes : Nat)
  | starting (note : ParsedNote) (parser : TuneParser) (nbytes : Nat)
  /-- In `tone_sleep_with_stop`, for the note and for the gap behind it. -/
  | sounding (remainingUs : Nat) (note : ParsedNote) (parser : TuneParser) (nbytes : Nat)
  | releasing (note : ParsedNote) (parser : TuneParser) (nbytes : Nat)
  | gap (remainingUs : Nat) (parser : TuneParser) (nbytes : Nat)
  /-- At `out`. -/
  | finishing (ret : Int)
  deriving DecidableEq, Repr

inductive Input where
  | openFile (device : Device)
  | close
  /-- `write`; whether `board_user_in_ok` lets the buffer pass. -/
  | write (ubuf : Option (List UInt8)) (userOk : Bool)
  | volumeSet (level : UInt8)
  /-- `TONEIOC_STOP`. -/
  | stop
  /-- The next section of `tone_write`. -/
  | go
  /-- `nxsig_usleep` is interrupted. -/
  | signal
  deriving DecidableEq

inductive Note where
  /-- A `tone_write`, or a `pcm_write`, makes its file the owner. -/
  | claims
  | takes
  /-- `TONEIOC_STOP` clears the owner. -/
  | clears
  /-- A `tone_write` starts or stops the hardware. -/
  | toneStarts
  | toneStops
  | returns (ret : Int)
  deriving DecidableEq, Repr

namespace Shared

/-- `stm32_sound_play_pcm`, where it does not return `-EINVAL`. -/
def playPcm (s : Shared) (file : Nat) (buffer : Device) (length sampleRate : Nat) : Option Shared :=
  if length < 2 ∨ sampleRate < 1000 ∨ sampleRate > 100000 then none
  else some { s with playing := some ⟨buffer, length, sampleRate, file⟩, ampEn := true }

/-- `stm32_sound_stop_pcm`. -/
def stopPcm (s : Shared) : Shared := { s with playing := none, ampEn := false }

/-- The hardware is stopped, and has no owner. -/
def release (s : Shared) : Shared := { s.stopPcm with owner := none, mode := .idle }

/-- `tone_close` and `pcm_close`. -/
def close (s : Shared) (file : Nat) : Shared :=
  let s := { s with openCount := s.openCount - 1 }
  if s.owner = some file then { s with stopFlag := true }.release
  else if s.openCount = 0 then { s.stopPcm with mode := .idle }
  else s

/-- `TONEIOC_STOP`. -/
def stop (s : Shared) : Shared := { s with stopFlag := true }.release

/-- The claim of `tone_write`. -/
def claim (s : Shared) (file : Nat) : Shared :=
  { s with owner := some file, mode := .tone, stopFlag := false }

def startNote (s : Shared) (file : Nat) (note : ParsedNote) : Shared × List Note :=
  if note.isRest then
    ({ s with toneBuf := toneBuildSilence ++ s.toneBuf.drop toneBuildSilence.length }.stopPcm,
      [.toneStops])
  else
    let freqMhz := midiMhz.getD note.midi.toNat 0
    let samples := toneBuildSquare freqMhz s.volume
    let s := { s with toneBuf := samples ++ s.toneBuf.drop samples.length }
    ((s.playPcm file .tone (squareLength freqMhz) (squareRate freqMhz)).getD s, [.toneStarts])

end Shared

/-! ### `/dev/pcm0` -/

def pcmWriteMagic : Nat := 0x304D4350

def pcmWriteVersion : Nat := 1

/-- `struct pcm_write_hdr_s`. -/
structure PcmHeader where
  magic : Nat
  version : Nat
  hdrSize : Nat
  flags : Nat
  sampleRate : Nat
  sampleCount : Nat
  deriving DecidableEq, Repr

def sizeofPcmHeader : Nat := 20

def pcmHeader (ubuf : List UInt8) : PcmHeader where
  magic := Bytes.leNat (ubuf.window 0 4)
  version := Bytes.leNat (ubuf.window 4 2)
  hdrSize := Bytes.leNat (ubuf.window 6 2)
  flags := Bytes.leNat (ubuf.window 8 4)
  sampleRate := Bytes.leNat (ubuf.window 12 4)
  sampleCount := Bytes.leNat (ubuf.window 16 4)

/-- The samples behind a header of this size. -/
def pcmSamples (ubuf : List UInt8) (hdr : PcmHeader) : List UInt16 :=
  (List.range hdr.sampleCount).map fun i =>
    (Bytes.leNat (ubuf.window (hdr.hdrSize + 2 * i) 2)).toUInt16

/-- The checks 4 to 9 of `pcm_write`. -/
def pcmRefused (hdr : PcmHeader) (nbytes : Nat) : Option Int :=
  if hdr.version > pcmWriteVersion then some (-EINVAL)
  else if hdr.magic ≠ pcmWriteMagic then some (-EINVAL)
  else if hdr.hdrSize < sizeofPcmHeader ∨ hdr.hdrSize > nbytes then some (-EINVAL)
  else if hdr.sampleRate < 1000 ∨ hdr.sampleRate > 100000 then some (-EINVAL)
  else if hdr.sampleCount > (2 ^ 32 - 1) / 2 then some (-EOVERFLOW)
  else if hdr.sampleCount * 2 ≠ nbytes - hdr.hdrSize then some (-EINVAL)
  else if hdr.sampleCount * 2 > pcmBufSamples * 2 then some (-E2BIG)
  else none

def pcmWrite (s : Shared) (file : Nat) (ubuf : Option (List UInt8)) (userOk : Bool) :
    Shared × List Note :=
  match ubuf with
  | none => (s, [.returns (-EINVAL)])
  | some ubuf =>
    if ubuf.length < sizeofPcmHeader then (s, [.returns (-EINVAL)])
    else if ¬userOk then (s, [.returns (-EFAULT)])
    else
      let hdr := pcmHeader ubuf
      match pcmRefused hdr ubuf.length with
      | some ret => (s, [.returns ret])
      | none =>
        let s := { s with stopFlag := true }.stopPcm
        let samples := pcmSamples ubuf hdr
        let s := { s with pcmBuf := samples ++ s.pcmBuf.drop samples.length }
        match s.playPcm file .pcm hdr.sampleCount hdr.sampleRate with
        | none => (s, [.returns (-EINVAL)])
        | some s => ({ s with owner := some file, mode := .pcm }, [.takes, .returns ubuf.length])

/-! ### `/dev/tone0` -/

/-- Before the lock in `tone_write`. -/
def toneWrite (ubuf : Option (List UInt8)) (userOk : Bool) : List Note × Point :=
  match ubuf with
  | none | some [] => ([.returns 0], .idle .tone)
  | some ubuf =>
    if ¬userOk then ([.returns (-EFAULT)], .idle .tone)
    else ([], .claiming (parserInit ubuf) ubuf.length)

/-- One turn of the loop in `tone_sleep_with_stop`. -/
def sleepWithStop (s : Shared) (remainingUs : Nat) : Option Nat :=
  if s.stopFlag then none else some (remainingUs - min remainingUs sliceUsec)

/-- The next section of a `tone_write`. -/
def toneGo (s : Shared) (file : Nat) (pc : Point) : Shared × List Note × Point :=
  match pc with
  | .claiming parser nbytes => (s.claim file, [.claims], .next parser nbytes)
  | .next parser nbytes =>
    match parserNext parser with
    | (.nodata, _) => (s, [], .finishing nbytes)
    | (.invalid, parser) => (s, [], .next parser nbytes)
    | (.note note, parser) =>
      (s, [], if s.stopFlag then .finishing (-EINTR) else .starting note parser nbytes)
  | .starting note parser nbytes =>
    if s.owner ≠ some file then (s, [.returns (-EINTR)], .idle .tone)
    else
      ((s.startNote file note).1, (s.startNote file note).2,
        .sounding note.durationUs note parser nbytes)
  | .sounding 0 note parser nbytes =>
    (s, [], if note.releaseUs > 0 then .releasing note parser nbytes else .next parser nbytes)
  | .sounding remainingUs note parser nbytes =>
    (s, [],
      match sleepWithStop s remainingUs with
      | none => .finishing (-EINTR)
      | some remainingUs => .sounding remainingUs note parser nbytes)
  | .releasing note parser nbytes =>
    if s.owner = some file then (s.stopPcm, [.toneStops], .gap note.releaseUs parser nbytes)
    else (s, [], .gap note.releaseUs parser nbytes)
  | .gap 0 parser nbytes => (s, [], .next parser nbytes)
  | .gap remainingUs parser nbytes =>
    (s, [],
      match sleepWithStop s remainingUs with
      | none => .finishing (-EINTR)
      | some remainingUs => .gap remainingUs parser nbytes)
  | .finishing ret =>
    if s.owner = some file then (s.release, [.toneStops, .returns ret], .idle .tone)
    else (s, [.returns ret], .idle .tone)
  | .closed | .idle _ => (s, [], pc)

def toneSignal (pc : Point) : Point :=
  match pc with
  | .sounding (_ + 1) _ _ _ | .gap (_ + 1) _ _ => .finishing (-EINTR)
  | pc => pc

/-! ### The files -/

def body (file : Nat) (s : Shared) (pc : Point) (input : Input) : Shared × List Note × Point :=
  match pc, input with
  | .closed, .openFile device => ({ s with openCount := s.openCount + 1 }, [], .idle device)
  | .closed, _ => (s, [], .closed)
  | .idle _, .close => (s.close file, [], .closed)
  | .idle .pcm, .write ubuf userOk =>
    ((pcmWrite s file ubuf userOk).1, (pcmWrite s file ubuf userOk).2, .idle .pcm)
  | .idle .tone, .write ubuf userOk => (s, (toneWrite ubuf userOk).1, (toneWrite ubuf userOk).2)
  | pc, .volumeSet level => ({ s with volume := if level > 100 then 100 else level }, [], pc)
  | pc, .stop => (s.stop, [.clears], pc)
  | pc, .go => toneGo s file pc
  | pc, .signal => (s, [], toneSignal pc)
  | pc, _ => (s, [], pc)

def threads : Threads Shared (Nat × Point) Input Note where
  body s file input :=
    let (s', notes, pc) := body file.1 s file.2 input
    (s', notes, (file.1, pc))

def boot : Threads.State Shared (Nat × Point) := ⟨{}, fun i => (i, .closed)⟩

end Brickwright.Sound
