import Brickwright.Sound.Basic

/-!
# Who has the hardware

The owner is whoever took the hardware last; a tune acts on it only while it is the owner, so an
interrupted one never touches it again. What is playing has been started by the owner, but for one
step: `tone_write` makes its file the owner and leaves playing what another file has started, until
its first note. So the owner has started what is playing in every run in which a tune claims the
hardware while it is stopped, and in no other (`owned_iff`).
-/

namespace Brickwright.Sound

open List

/-! ## What is asked for -/

/-- What takes the ownership from a file. -/
def Loss (i : Nat) (n : Nat × Note) : Prop :=
  (n.2 = .claims ∨ n.2 = .takes) ∧ n.1 ≠ i ∨ n.2 = .clears

/-- Since the last claim of a tune, the ownership has not been taken from it. -/
def Intact (h : List (Nat × Note)) (i : Nat) : Prop :=
  ∀ before between, h = before ++ (i, .claims) :: between → (i, .claims) ∉ between →
    ∀ n ∈ between, ¬Loss i n

structure Owned (events : List (Nat × Input)) : Prop where
  /-- The owner has started what is playing. -/
  playing : ∀ before, before <+: events →
    ∀ p, (threads.machine.run boot before).shared.playing = some p →
      (threads.machine.run boot before).shared.owner = some p.startedBy
  /-- A tune that starts or stops the hardware is still the owner. -/
  acting : ∀ h i n after, threads.history boot events = h ++ (i, n) :: after →
    n = .toneStarts ∨ n = .toneStops → Intact h i
  closed : ∀ before, before <+: events →
    (∀ i, ((threads.machine.run boot before).pc i).2 = .closed) →
    (threads.machine.run boot before).shared.playing = none

/-- A tune claims the hardware while it is stopped. -/
def Quiet (s : Threads.State Shared (Nat × Point)) (e : Nat × Input) : Prop :=
  match (s.pc e.1).2, e.2 with
  | .claiming .., .go => s.shared.playing = none
  | _, _ => True

instance (s : Threads.State Shared (Nat × Point)) (e : Nat × Input) : Decidable (Quiet s e) := by
  unfold Quiet
  split <;> infer_instance

/-! ## What a section can do -/

/-- A tune that has claimed the hardware. -/
def Point.Claimed : Point → Prop
  | .next .. | .starting .. | .sounding .. | .releasing .. | .gap .. | .finishing _ => True
  | _ => False

/-- Where a file can be while it is the owner. -/
def Point.MayOwn (pc : Point) : Prop := pc.Claimed ∨ pc = .idle .pcm

structure Walks (i : Nat) (s : Shared) (pc pc' : Point) : Prop where
  closed : pc' = .closed ↔ pc = .closed
  mayOwn : s.owner = some i → pc.MayOwn → pc'.MayOwn
  claimed : pc'.Claimed → pc.Claimed

/-- The fields that the ownership is about. -/
structure Same (s s' : Shared) : Prop where
  owner : s'.owner = s.owner
  playing : s'.playing = s.playing
  openCount : s'.openCount = s.openCount

inductive Move (i : Nat) (s : Shared) : Point → Shared → List Note → Point → Prop where
  | opens (device : Device) :
      Move i s .closed { s with openCount := s.openCount + 1 } [] (.idle device)
  | closes (device : Device) : Move i s (.idle device) (s.close i) [] .closed
  | stops {pc : Point} (h : pc ≠ .closed) : Move i s pc s.stop [.clears] pc
  | claims (parser : TuneParser) (nbytes : Nat) :
      Move i s (.claiming parser nbytes) (s.claim i) [.claims] (.next parser nbytes)
  | takes {s' : Shared} {p : Playing} (ret : Int) (howner : s'.owner = some i)
      (hplaying : s'.playing = some p) (hfile : p.startedBy = i)
      (hcount : s'.openCount = s.openCount) :
      Move i s (.idle .pcm) s' [.takes, .returns ret] (.idle .pcm)
  | pcmFails {s' : Shared} (ret : Int) (howner : s'.owner = s.owner) (hplaying : s'.playing = none)
      (hcount : s'.openCount = s.openCount) : Move i s (.idle .pcm) s' [.returns ret] (.idle .pcm)
  | acts {pc pc' : Point} {s' : Shared} {n : Note} (hact : n = .toneStarts ∨ n = .toneStops)
      (howner : s.owner = some i) (howner' : s'.owner = s.owner)
      (hplaying : ∀ p, s'.playing = some p → p.startedBy = i)
      (hcount : s'.openCount = s.openCount) (hpc : pc.Claimed) (hpc' : pc'.Claimed) :
      Move i s pc s' [n] pc'
  | finishes (ret : Int) (howner : s.owner = some i) :
      Move i s (.finishing ret) s.release [.toneStops, .returns ret] (.idle .tone)
  | walks {pc pc' : Point} {s' : Shared} {notes : List Note} (hsame : Same s s')
      (hplain : ∀ n ∈ notes, ∃ ret, n = .returns ret) (h : Walks i s pc pc') :
      Move i s pc s' notes pc'

section Sections

variable {i : Nat} {s : Shared}

theorem Same.refl (s : Shared) : Same s s := ⟨rfl, rfl, rfl⟩

theorem Walks.of_claimed {pc pc' : Point} (h : pc.Claimed) (h' : pc'.Claimed) :
    Walks i s pc pc' := by
  refine ⟨?_, fun _ _ => .inl h', fun _ => h⟩
  constructor
  · rintro rfl
    exact h'.elim
  · rintro rfl
    exact h.elim

theorem move_pcmWrite (ubuf : Option (List UInt8)) (userOk : Bool) :
    Move i s (.idle .pcm) (pcmWrite s i ubuf userOk).1 (pcmWrite s i ubuf userOk).2
      (.idle .pcm) := by
  have hstays : ∀ ret, Move i s (.idle .pcm) s [.returns ret] (.idle .pcm) := fun ret =>
    .walks (.refl s) (fun n hn => ⟨ret, mem_singleton.mp hn⟩) ⟨Iff.rfl, fun _ h => h, id⟩
  unfold pcmWrite
  split
  · exact hstays _
  · split
    · exact hstays _
    · split
      · exact hstays _
      · dsimp only
        split
        · exact hstays _
        · split
          · exact .pcmFails _ rfl rfl rfl
          · next hplay =>
            unfold Shared.playPcm at hplay
            split at hplay
            · cases hplay
            · cases hplay
              exact .takes _ rfl rfl rfl rfl

theorem move_toneWrite (ubuf : Option (List UInt8)) (userOk : Bool) :
    Move i s (.idle .tone) s (toneWrite ubuf userOk).1 (toneWrite ubuf userOk).2 := by
  have hidle : ¬(Point.idle .tone).MayOwn := fun h => h.elim id nofun
  unfold toneWrite
  split
  · exact .walks (.refl s) (fun n hn => ⟨0, mem_singleton.mp hn⟩) ⟨Iff.rfl, fun _ h => h, id⟩
  · exact .walks (.refl s) (fun n hn => ⟨0, mem_singleton.mp hn⟩) ⟨Iff.rfl, fun _ h => h, id⟩
  · split
    · exact .walks (.refl s) (fun n hn => ⟨_, mem_singleton.mp hn⟩)
        ⟨Iff.rfl, fun _ h => h, id⟩
    · exact .walks (.refl s) nofun
        ⟨iff_of_false nofun nofun, fun _ h => absurd h hidle, nofun⟩

theorem walks_toneSignal (pc : Point) : Walks i s pc (toneSignal pc) := by
  unfold toneSignal
  split
  · exact .of_claimed trivial trivial
  · exact .of_claimed trivial trivial
  · exact ⟨Iff.rfl, fun _ h => h, id⟩

theorem startNote_frame (note : ParsedNote) :
    ((s.startNote i note).2 = [.toneStarts] ∨ (s.startNote i note).2 = [.toneStops]) ∧
      (s.startNote i note).1.owner = s.owner ∧
      (s.startNote i note).1.openCount = s.openCount ∧
      ∀ p, (s.startNote i note).1.playing = some p → p.startedBy = i := by
  unfold Shared.startNote
  split
  · exact ⟨.inr rfl, rfl, rfl, nofun⟩
  · refine ⟨.inl rfl, ?_⟩
    have hlength := squareLength_range (midiMhz.getD note.midi.toNat 0)
    have hrate := squareRate_range (midiMhz.getD note.midi.toNat 0)
    have hmin : minSampleRate = 1000 := rfl
    have hmax : maxSampleRate = 100000 := rfl
    dsimp only
    rw [Shared.playPcm, if_neg (by omega)]
    refine ⟨rfl, rfl, fun p hp => ?_⟩
    cases hp
    rfl

theorem move_toneGo (pc : Point) (hopen : pc ≠ .closed) :
    Move i s pc (toneGo s i pc).1 (toneGo s i pc).2.1 (toneGo s i pc).2.2 := by
  have hgoes : ∀ {pc pc' : Point}, pc.Claimed → pc'.Claimed → Move i s pc s [] pc' := fun h h' =>
    .walks (.refl s) nofun (.of_claimed h h')
  unfold toneGo
  split
  · exact .claims _ _
  · split
    · exact hgoes trivial trivial
    · exact hgoes trivial trivial
    · refine hgoes trivial ?_
      split <;> trivial
  · split
    · next hlost =>
      refine .walks (.refl s) (fun n hn => ⟨_, mem_singleton.mp hn⟩) ?_
      exact ⟨iff_of_false nofun nofun, fun howner => absurd howner hlost, nofun⟩
    · next howner =>
      have howner : s.owner = some i := Decidable.not_not.mp howner
      obtain ⟨hnotes, howner', hcount, hplaying⟩ := startNote_frame (i := i) (s := s) ‹_›
      rcases hnotes with hnotes | hnotes <;> rw [hnotes]
      · exact .acts (.inl rfl) howner howner' hplaying hcount trivial trivial
      · exact .acts (.inr rfl) howner howner' hplaying hcount trivial trivial
  · refine hgoes trivial ?_
    split <;> trivial
  · refine hgoes trivial ?_
    split <;> trivial
  · split
    · next howner => exact .acts (.inr rfl) howner rfl nofun rfl trivial trivial
    · exact hgoes trivial trivial
  · exact hgoes trivial trivial
  · refine hgoes trivial ?_
    split <;> trivial
  · split
    · next howner => exact .finishes _ howner
    · next hlost =>
      refine .walks (.refl s) (fun n hn => ⟨_, mem_singleton.mp hn⟩) ?_
      exact ⟨iff_of_false nofun nofun, fun howner => absurd howner hlost, nofun⟩
  · exact absurd rfl hopen
  · exact .walks (.refl s) nofun ⟨Iff.rfl, fun _ h => h, id⟩

/-- **Every section is a move.** -/
theorem move_body (pc : Point) (input : Input) :
    Move i s pc (body i s pc input).1 (body i s pc input).2.1 (body i s pc input).2.2 := by
  have hstill : ∀ {s' : Shared}, Same s s' → Move i s pc s' [] pc := fun h =>
    .walks h nofun ⟨Iff.rfl, fun _ h => h, id⟩
  cases pc with
  | closed => cases input <;> first | exact .opens _ | exact hstill (.refl s)
  | idle device =>
    cases device <;> cases input
    case pcm.write => exact move_pcmWrite ..
    case tone.write => exact move_toneWrite ..
    all_goals first
      | exact .closes _
      | exact .stops nofun
      | exact hstill (.refl s)
      | exact hstill ⟨rfl, rfl, rfl⟩
  | claiming | next | starting | sounding | releasing | gap | finishing =>
    cases input
    case go => exact move_toneGo _ nofun
    case stop => exact .stops nofun
    case volumeSet => exact hstill ⟨rfl, rfl, rfl⟩
    case signal => exact .walks (.refl s) nofun (walks_toneSignal _)
    all_goals exact hstill (.refl s)

theorem close_openCount : (s.close i).openCount = s.openCount - 1 := by
  unfold Shared.close
  dsimp only
  split
  · rfl
  · split <;> rfl

theorem close_playing (h : s.openCount - 1 = 0) : (s.close i).playing = none := by
  unfold Shared.close
  dsimp only
  split <;> rfl

theorem go_of_claims {parser parser' : TuneParser} {nbytes nbytes' : Nat} {input : Input}
    (h : (body i s (.claiming parser nbytes) input).2.2 = .next parser' nbytes') : input = .go := by
  cases input with
  | go => rfl
  | openFile | close | write | volumeSet | stop | signal => cases h

variable {pc pc' : Point} {s' : Shared} {notes : List Note}

/-- A note that a tune has started or stopped the hardware is the first of its section, and the tune
is the owner. -/
theorem Move.acting (hmove : Move i s pc s' notes pc') {l r : List Note} {n : Note}
    (hsplit : notes = l ++ n :: r) (hact : n = .toneStarts ∨ n = .toneStops) :
    l = [] ∧ s.owner = some i ∧ pc.Claimed := by
  have hmem : n ∈ notes := by
    rw [hsplit]
    exact mem_append_right _ mem_cons_self
  cases hmove with
  | opens | closes => cases hmem
  | stops | claims | pcmFails =>
    rw [mem_singleton.mp hmem] at hact
    exact hact.elim nofun nofun
  | takes =>
    rcases mem_pair.mp hmem with rfl | rfl <;> exact hact.elim nofun nofun
  | acts _ howner _ _ _ hpc =>
    cases l with
    | nil => exact ⟨rfl, howner, hpc⟩
    | cons => simp at hsplit
  | finishes ret howner =>
    cases l with
    | nil => exact ⟨rfl, howner, trivial⟩
    | cons m l =>
      obtain ⟨-, hrest⟩ := cons_eq_cons.mp hsplit
      have hn : n ∈ [Note.returns ret] := by
        rw [hrest]
        exact mem_append_right _ mem_cons_self
      rw [mem_singleton.mp hn] at hact
      exact hact.elim nofun nofun
  | walks _ hplain =>
    obtain ⟨ret, rfl⟩ := hplain n hmem
    exact hact.elim nofun nofun

theorem Move.owner_cases (hmove : Move i s pc s' notes pc') {j : Nat} (h : s'.owner = some j) :
    s.owner = some j ∨ j = i ∧ (pc'.MayOwn ∧ (notes = [.claims] ∨ ¬pc'.Claimed)) := by
  cases hmove with
  | opens => exact .inl h
  | closes =>
    unfold Shared.close at h
    dsimp only at h
    split at h
    · cases h
    · split at h <;> exact .inl h
  | stops | finishes => cases h
  | claims =>
    cases h
    exact .inr ⟨rfl, .inl trivial, .inl rfl⟩
  | takes _ howner =>
    rw [howner] at h
    cases h
    exact .inr ⟨rfl, .inr rfl, .inr id⟩
  | pcmFails _ howner => exact .inl (howner ▸ h)
  | acts _ _ howner' => exact .inl (howner' ▸ h)
  | walks hsame => exact .inl (hsame.owner ▸ h)

theorem Move.mayOwn (hmove : Move i s pc s' notes pc') (h : s'.owner = some i)
    (hpc : s.owner = some i → pc.MayOwn) : pc'.MayOwn := by
  rcases hmove.owner_cases h with hold | ⟨-, hmay, -⟩
  · have hmay := hpc hold
    cases hmove with
    | opens => exact absurd hmay fun h => h.elim id nofun
    | closes =>
      unfold Shared.close at h
      rw [if_pos hold] at h
      cases h
    | stops | finishes => cases h
    | claims => exact .inl trivial
    | takes | pcmFails => exact .inr rfl
    | acts _ _ _ _ _ _ hpc' => exact .inl hpc'
    | walks _ _ hwalks => exact hwalks.mayOwn hold hmay
  · exact hmay

end Sections

/-! ## The files and the owner -/

structure Opened (s : Threads.State Shared (Nat × Point)) (files : List Nat) : Prop where
  nodup : files.Nodup
  mem : ∀ i, i ∈ files ↔ (s.pc i).2 ≠ .closed
  count : s.shared.openCount = files.length
  stopped : files = [] → s.shared.playing = none

/-- The owner is a file that may own, and what is open is counted. -/
structure Structured (s : Threads.State Shared (Nat × Point)) : Prop where
  file : ∀ i, (s.pc i).1 = i
  mayOwn : ∀ i, s.shared.owner = some i → (s.pc i).2.MayOwn
  opened : ∃ files, Opened s files

/-- The owner has started what is playing. -/
def Held (s : Shared) : Prop := ∀ p, s.playing = some p → s.owner = some p.startedBy

/-- A tune that is the owner has been since its claim. -/
def Kept (h : List (Nat × Note)) (s : Threads.State Shared (Nat × Point)) : Prop :=
  ∀ i, s.shared.owner = some i → (s.pc i).2.Claimed → Intact h i

section Steps

variable {h : List (Nat × Note)} {s s' : Threads.State Shared (Nat × Point)} {i : Nat}
  {notes : List Note}

theorem Structured.move (hs : Structured s) (i : Nat) (input : Input) :
    ∃ notes, Move i s.shared (s.pc i).2 (threads.step s i input).shared notes
        ((threads.step s i input).pc i).2 ∧
      threads.notes s i input = notes.map (Prod.mk i) ∧ ((threads.step s i input).pc i).1 = i ∧
      ∀ j, j ≠ i → (threads.step s i input).pc j = s.pc j := by
  have hself := threads.step_pc_self (s := s) i input
  refine ⟨_, ?_, rfl, ?_, fun j hj => Threads.step_pc_of_ne hj input⟩
  · rw [hself]
    have hmove := move_body (i := i) (s := s.shared) (s.pc i).2 input
    show Move i s.shared (s.pc i).2 (body (s.pc i).1 ..).1 (body (s.pc i).1 ..).2.1
      (body (s.pc i).1 ..).2.2
    rw [hs.file i]
    exact hmove
  · rw [hself]
    exact hs.file i

theorem Opened.stay {files : List Nat} (ho : Opened s files)
    (hother : ∀ j, j ≠ i → s'.pc j = s.pc j)
    (hpc : (s.pc i).2 ≠ .closed) (hpc' : (s'.pc i).2 ≠ .closed)
    (hcount : s'.shared.openCount = s.shared.openCount) : Opened s' files := by
  refine ⟨ho.nodup, fun j => ?_, hcount.trans ho.count, fun hnil => ?_⟩
  · rcases eq_or_ne j i with rfl | hji
    · exact iff_of_true ((ho.mem j).mpr hpc) hpc'
    · rw [hother j hji]
      exact ho.mem j
  · have hi := (ho.mem i).mpr hpc
    rw [hnil] at hi
    cases hi

/-- An open or a close counts one file more or less, and nothing else does. -/
theorem Opened.move {files : List Nat} (ho : Opened s files)
    (hmove : Move i s.shared (s.pc i).2 s'.shared notes (s'.pc i).2)
    (hother : ∀ j, j ≠ i → s'.pc j = s.pc j) : ∃ files', Opened s' files' := by
  generalize hpc : (s.pc i).2 = pc at hmove
  generalize hpc' : (s'.pc i).2 = pc' at hmove
  generalize hshared' : s'.shared = shared' at hmove
  have hstay : pc ≠ .closed → pc' ≠ .closed → shared'.openCount = s.shared.openCount →
      ∃ files', Opened s' files' := fun h h' hcount =>
    ⟨files, ho.stay hother (hpc ▸ h) (hpc' ▸ h') (hshared' ▸ hcount)⟩
  cases hmove with
  | opens device =>
    have hnot : i ∉ files := fun hi => (ho.mem i).mp hi hpc
    refine ⟨i :: files, nodup_cons.mpr ⟨hnot, ho.nodup⟩, fun j => ?_, ?_, nofun⟩
    · rw [mem_cons]
      rcases eq_or_ne j i with rfl | hji
      · exact iff_of_true (.inl rfl) (hpc' ▸ nofun)
      · rw [hother j hji, ← ho.mem j]
        exact or_iff_right hji
    · rw [hshared', length_cons]
      show s.shared.openCount + 1 = _
      rw [ho.count]
      rfl
  | closes device =>
    have hi : i ∈ files := (ho.mem i).mpr (hpc ▸ nofun)
    have hlength : ((files.erase i).length : Int) = s.shared.openCount - 1 := by
      have hpos := length_pos_of_mem hi
      rw [length_erase_of_mem hi, ho.count]
      omega
    refine ⟨files.erase i, ho.nodup.erase i, fun j => ?_, ?_, fun hnil => ?_⟩
    · rw [List.Nodup.mem_erase_iff ho.nodup]
      rcases eq_or_ne j i with rfl | hji
      · exact iff_of_false (fun h => h.1 rfl) fun h => h hpc'
      · rw [hother j hji, ← ho.mem j]
        exact and_iff_right hji
    · rw [hshared', close_openCount, hlength]
    · rw [hnil] at hlength
      rw [hshared']
      exact close_playing hlength.symm
  | stops h => exact hstay h h rfl
  | claims | finishes => exact hstay nofun nofun rfl
  | takes _ _ _ _ hcount | pcmFails _ _ _ hcount => exact hstay nofun nofun hcount
  | acts _ _ _ _ hcount h h' =>
    exact hstay (fun h0 => (h0 ▸ h).elim) (fun h0 => (h0 ▸ h').elim) hcount
  | walks hsame _ hwalks =>
    by_cases hclosed : pc = .closed
    · refine ⟨files, ho.nodup, fun j => ?_, ?_, fun hnil => ?_⟩
      · rcases eq_or_ne j i with rfl | hji
        · rw [ho.mem j, hpc, hpc']
          exact (not_congr hwalks.closed).symm
        · rw [hother j hji]
          exact ho.mem j
      · rw [hshared', hsame.openCount]
        exact ho.count
      · rw [hshared', hsame.playing]
        exact ho.stopped hnil
    · exact hstay hclosed (fun h0 => hclosed (hwalks.closed.mp h0)) hsame.openCount

theorem Structured.step (hs : Structured s) (i : Nat) (input : Input) :
    Structured (threads.step s i input) := by
  obtain ⟨notes, hmove, -, hfile, hother⟩ := hs.move i input
  obtain ⟨files, ho⟩ := hs.opened
  refine ⟨fun j => ?_, fun j howner => ?_, ho.move hmove hother⟩
  · rcases eq_or_ne j i with rfl | hji
    · exact hfile
    · rw [hother j hji]
      exact hs.file j
  · rcases eq_or_ne j i with rfl | hji
    · exact hmove.mayOwn howner (hs.mayOwn j)
    · rw [hother j hji]
      exact hs.mayOwn j ((hmove.owner_cases howner).resolve_right fun h => hji h.1)

/-! ## The claim of a tune -/

theorem not_loss {j k : Nat} {n : Note} (h : n ≠ .claims ∧ n ≠ .takes ∧ n ≠ .clears) :
    ¬Loss k (j, n) := fun hloss => hloss.elim (fun hl => hl.1.elim h.1 h.2.1) h.2.2

theorem intact_concat {n : Nat × Note} (hintact : Intact h i) (hloss : ¬Loss i n) :
    Intact (h ++ [n]) i := by
  intro before between hsplit hnot m hm
  rcases eq_nil_or_concat between with rfl | ⟨between', n', rfl⟩
  · cases hm
  · rw [concat_eq_append, ← cons_append, ← append_assoc] at hsplit
    obtain ⟨hbefore, hlast⟩ := append_inj' hsplit rfl
    cases hlast
    rw [concat_eq_append, mem_append] at hnot hm
    rcases hm with hm | hm
    · exact hintact before between' hbefore (fun hc => hnot (.inl hc)) m hm
    · rw [mem_singleton.mp hm]
      exact hloss

theorem intact_append (hintact : Intact h i)
    (hnotes : ∀ n ∈ notes, n ≠ .claims ∧ n ≠ .takes ∧ n ≠ .clears) {j : Nat} :
    Intact (h ++ notes.map (Prod.mk j)) i := by
  induction notes generalizing h with
  | nil =>
    rw [map_nil, append_nil]
    exact hintact
  | cons n notes ih =>
    rw [map_cons, append_cons]
    exact ih (intact_concat hintact (not_loss (hnotes n mem_cons_self)))
      fun m hm => hnotes m (mem_cons_of_mem _ hm)

theorem intact_claim : Intact (h ++ [(i, .claims)]) i := by
  intro before between hsplit hnot
  rcases eq_nil_or_concat between with rfl | ⟨between', n', rfl⟩
  · exact nofun
  · rw [concat_eq_append, ← cons_append, ← append_assoc] at hsplit
    obtain ⟨-, hlast⟩ := append_inj' hsplit rfl
    cases hlast
    exact absurd (by simp) hnot

theorem Move.plain {σ σ' : Shared} {pc pc' : Point} (hmove : Move i σ pc σ' notes pc') {j : Nat}
    (h : σ.owner = some j) (h' : σ'.owner = some j) (hclaims : notes ≠ [.claims])
    (htakes : j = i → pc'.Claimed) : ∀ n ∈ notes, n ≠ .claims ∧ n ≠ .takes ∧ n ≠ .clears := by
  intro n hn
  cases hmove with
  | opens | closes => cases hn
  | stops | finishes => cases h'
  | claims => exact absurd rfl hclaims
  | takes _ howner =>
    rw [howner] at h'
    cases h'
    exact (htakes rfl).elim
  | pcmFails =>
    rw [mem_singleton.mp hn]
    exact ⟨nofun, nofun, nofun⟩
  | acts hact =>
    rw [mem_singleton.mp hn]
    rcases hact with rfl | rfl <;> exact ⟨nofun, nofun, nofun⟩
  | walks _ hplain =>
    obtain ⟨ret, rfl⟩ := hplain n hn
    exact ⟨nofun, nofun, nofun⟩

theorem Move.claimed {σ σ' : Shared} {pc pc' : Point} (hmove : Move i σ pc σ' notes pc')
    (hclaims : notes ≠ [.claims]) (h : pc'.Claimed) : pc.Claimed := by
  cases hmove with
  | opens | closes | takes | pcmFails | finishes => exact h.elim
  | stops => exact h
  | claims => exact absurd rfl hclaims
  | acts _ _ _ _ _ hpc => exact hpc
  | walks _ _ hwalks => exact hwalks.claimed h

theorem Kept.step (hk : Kept h s) (hs : Structured s) (i : Nat) (input : Input) :
    Kept (h ++ threads.notes s i input) (threads.step s i input) := by
  obtain ⟨notes, hmove, hnotes, -, hother⟩ := hs.move i input
  intro j howner hclaimed
  rw [hnotes]
  by_cases hclaims : notes = [.claims]
  · -- the claim of a file makes it the owner
    have hself : j = i := by
      generalize (s.pc i).2 = pc, ((threads.step s i input).pc i).2 = pc',
        (threads.step s i input).shared = σ' at hmove howner
      subst hclaims
      cases hmove with
      | claims =>
        cases howner
        rfl
      | acts hact => exact hact.elim nofun nofun
      | walks _ hplain => exact absurd (hplain _ mem_cons_self) nofun
    subst hclaims hself
    exact intact_claim
  · have hold : s.shared.owner = some j ∧ (s.pc j).2.Claimed := by
      rcases hmove.owner_cases howner with hold | ⟨rfl, -, hc⟩
      · refine ⟨hold, ?_⟩
        rcases eq_or_ne j i with rfl | hji
        · exact hmove.claimed hclaims hclaimed
        · rw [hother j hji] at hclaimed
          exact hclaimed
      · exact absurd hclaimed (hc.resolve_left hclaims)
    refine intact_append (hk j hold.1 hold.2) (hmove.plain hold.1 howner hclaims fun hji => ?_)
    exact hji ▸ hclaimed

/-! ## What is playing -/

/-- **A section keeps what is playing with its owner exactly if it is quiet.** -/
theorem held_step_iff (hs : Structured s) (hh : Held s.shared) (i : Nat) (input : Input) :
    Held (threads.step s i input).shared ↔ Quiet s (i, input) := by
  constructor
  · intro hh'
    unfold Quiet
    split
    · next parser nbytes hpc hinput =>
      -- whoever has started what is playing is the owner, and the tune is not yet
      cases hplaying : s.shared.playing with
      | none => rfl
      | some p =>
        have hinput : input = .go := hinput
        have hshared : (threads.step s i input).shared = s.shared.claim i := by
          show (body (s.pc i).1 s.shared (s.pc i).2 input).1 = _
          rw [hs.file i, hpc, hinput]
          rfl
        rw [hshared] at hh'
        have howner := hh p hplaying
        have hfile : some i = some p.startedBy := hh' p hplaying
        rw [← hfile] at howner
        have hmay := hs.mayOwn i howner
        rw [hpc] at hmay
        exact absurd hmay fun h => h.elim id nofun
    · trivial
  · intro hquiet
    obtain ⟨notes, hmove, -⟩ := hs.move i input
    have hclaims : ∀ parser nbytes parser' nbytes', (s.pc i).2 = .claiming parser nbytes →
        ((threads.step s i input).pc i).2 = .next parser' nbytes' → s.shared.playing = none := by
      intro parser nbytes parser' nbytes' hpc hpc'
      rw [threads.step_pc_self] at hpc'
      have hgo : input = .go := by
        have hpc' : (body (s.pc i).1 s.shared (s.pc i).2 input).2.2 = .next parser' nbytes' := hpc'
        rw [hpc] at hpc'
        exact go_of_claims hpc'
      unfold Quiet at hquiet
      rw [hpc, hgo] at hquiet
      exact hquiet
    generalize (s.pc i).2 = pc, ((threads.step s i input).pc i).2 = pc',
      (threads.step s i input).shared = σ' at hmove hclaims
    intro p hp
    cases hmove with
    | opens => exact hh p hp
    | closes =>
      unfold Shared.close at hp ⊢
      dsimp only at hp ⊢
      split at hp
      · cases hp
      · next hother =>
        rw [if_neg hother]
        split at hp
        · cases hp
        · next hopen =>
          rw [if_neg hopen]
          exact hh p hp
    | stops | finishes => cases hp
    | claims parser nbytes =>
      have hnone := hclaims _ _ _ _ rfl rfl
      exact absurd (hnone.symm.trans hp) nofun
    | takes _ howner hplaying hfile =>
      rw [hplaying] at hp
      cases hp
      rw [howner, hfile]
    | pcmFails _ _ hplaying =>
      rw [hplaying] at hp
      cases hp
    | acts _ howner howner' hplaying =>
      rw [howner', howner, hplaying p hp]
    | walks hsame =>
      rw [hsame.owner]
      exact hh p (hsame.playing ▸ hp)

end Steps

/-! ## Whole runs -/

theorem structured_boot : Structured boot where
  file := fun _ => rfl
  mayOwn := nofun
  opened := ⟨[], nodup_nil, fun _ => iff_of_false nofun fun h => h rfl, rfl, fun _ => rfl⟩

theorem structured_run (events : List (Nat × Input)) :
    Structured (threads.machine.run boot events) :=
  Threads.run_invariant (fun _ i input hs => hs.step i input) structured_boot events

theorem kept_run (events : List (Nat × Input)) :
    Kept (threads.history boot events) (threads.machine.run boot events) := by
  have hrun : Kept ([] ++ threads.history boot events) (threads.machine.run boot events) ∧
      Structured (threads.machine.run boot events) :=
    @Threads.history_invariant _ _ _ _ threads boot (fun h s => Kept h s ∧ Structured s)
      (fun _ _ i input hk => ⟨hk.1.step hk.2 i input, hk.2.step i input⟩) []
      ⟨nofun, structured_boot⟩ events
  exact hrun.1

/-- The owner has started what is playing, in every state of a run, exactly if its sections are
quiet. -/
theorem held_iff {s : Threads.State Shared (Nat × Point)} (hs : Structured s) (hh : Held s.shared)
    (events : List (Nat × Input)) :
    (∀ before, before <+: events → Held (threads.machine.run s before).shared) ↔
      threads.machine.Throughout Quiet s events := by
  induction events generalizing s with
  | nil =>
    refine iff_of_true (fun before hbefore => ?_) trivial
    rw [prefix_nil.mp hbefore]
    exact hh
  | cons e events ih =>
    obtain ⟨i, input⟩ := e
    have hiff := held_step_iff hs hh i input
    constructor
    · intro hall
      have hh' : Held (threads.step s i input).shared :=
        hall [(i, input)] ⟨events, rfl⟩
      refine ⟨hiff.mp hh', (ih (hs.step i input) hh').mp fun before hbefore => ?_⟩
      exact hall ((i, input) :: before) ((prefix_cons_inj _).mpr hbefore)
    · rintro ⟨hquiet, hrest⟩ before hbefore
      have hh' := hiff.mpr hquiet
      cases before with
      | nil => exact hh
      | cons e' before =>
        obtain ⟨heq, htail⟩ := cons_prefix_cons.mp hbefore
        subst heq
        exact (ih (hs.step i input) hh').mpr hrest before htail

/-- **Who has the hardware**, in every run. -/
theorem owned_iff (events : List (Nat × Input)) :
    Owned events ↔ threads.machine.Throughout Quiet boot events := by
  have hheld := held_iff structured_boot nofun events
  constructor
  · exact fun h => hheld.mp h.playing
  · intro hquiet
    refine ⟨hheld.mpr hquiet, fun h i n after hsplit hact => ?_, fun before _ hclosed => ?_⟩
    · obtain ⟨pre, ⟨j, input⟩, post, l, r, rfl, hnotes, rfl, -⟩ :=
        threads.exists_step_of_history hsplit
      obtain ⟨notes, hmove, hnotes', -⟩ := (structured_run pre).move j input
      rw [hnotes'] at hnotes
      obtain ⟨l', r', rfl, rfl, hr⟩ := map_eq_append_iff.mp hnotes
      obtain ⟨m, r'', rfl, hm, -⟩ := map_eq_cons_iff.mp hr
      cases hm
      obtain ⟨rfl, howner, hclaimed⟩ := hmove.acting rfl hact
      rw [map_nil, append_nil]
      exact kept_run pre i howner hclaimed
    · obtain ⟨files, ho⟩ := (structured_run before).opened
      refine ho.stopped (eq_nil_iff_forall_not_mem.mpr fun i hi => ?_)
      exact (ho.mem i).mp hi (hclosed i)

def blob : List UInt8 :=
  [0x50, 0x43, 0x4d, 0x30, 1, 0, 20, 0, 0, 0, 0, 0, 0xe8, 3, 0, 0, 2, 0, 0, 0] ++ [0, 0, 0xff, 0xff]

/-- One file plays a blob, and another claims the hardware for a tune. -/
theorem not_owned : ¬ ∀ events, Owned events := by
  intro h
  have hplaying := (h [(0, .openFile .pcm), (0, .write (some blob) true), (1, .openFile .tone),
    (1, .write (some (Decimal.text "C4/4")) true), (1, .go)]).playing _ prefix_rfl
    ⟨.pcm, 2, 1000, 0⟩ (by decide)
  exact absurd hplaying (by decide)

end Brickwright.Sound
