import Brickwright.Legosensor.Binding

/-!
# The topics of the classes

A section fixes the class a port's report goes to (`try_bind`, `class_of`, `unbind`); its events are
pushed later, and nobody looks at the binding again. So an event can come behind the events that
announce another binding, when its section came before that binding was made and its push behind
those events (`Overtakes`). `binding_exclusive` says that this is the only way.
-/

namespace Brickwright.Legosensor

open List

/-- The class a thread is going to push an event to, and the change of the binding behind the
section that fixed it. -/
def Stage.inHand : Stage → Option (Class × Nat)
  | .unsettling c n _ | .disowning c n _ | .naming c n | .announcing c n _ | .refreshing c n _ _ _
  | .sampling c n _ _ | .reporting c n _ | .parting c n _ => some (c, n)
  | .resetting lost => lost
  | _ => none

def Point.inHand : Point → Option (Class × Nat)
  | .port _ stage => stage.inHand
  | .user _ => none

/-- The binding whose last event a section pushes. -/
def Point.announced : Point → Input → Option (Class × Nat)
  | .port _ (.announcing c n _), .go .. => some (c, n)
  | _, _ => none

/-- The one is of the same class, and before the other. -/
def Older : Option (Class × Nat) → Option (Class × Nat) → Prop
  | some (c, m), some (d, n) => c = d ∧ m < n
  | _, _ => False

instance : DecidableRel Older
  | some (c, m), some (d, n) => inferInstanceAs (Decidable (c = d ∧ m < n))
  | none, _ | some _, none => isFalse id

/-- The last event of a new binding is pushed while the thread of another port has an event in hand
for a class that it fixed before that binding was made. -/
def Overtakes (s : Threads.State Shared Point) (e : Nat × Input) : Prop :=
  ∃ j < numPorts, j ≠ e.1 ∧ Older (s.pc j).inHand ((s.pc e.1).announced e.2)

instance : DecidableRel Overtakes := fun s e => inferInstanceAs (Decidable
  (∃ j < numPorts, j ≠ e.1 ∧ Older (s.pc j).inHand ((s.pc e.1).announced e.2)))

/-- The events of a port belong on a topic: whatever other binding has been announced there, the
port has been bound since. -/
def Clear (h : List (Nat × Note)) (c : Class) (p : Nat) : Prop :=
  ∀ i q n, q ≠ p → (i, .announces c q n) ∈ h → ∃ j m, n < m ∧ (j, .binds c p m) ∈ h

/-- Every event that has been pushed belonged where it was pushed. -/
def ClearThroughout (h : List (Nat × Note)) : Prop :=
  ∀ pre i c sample post, h = pre ++ (i, .pushes c sample) :: post → Clear pre c sample.port

/-! ## What is known of a class in hand -/

/-- Up to a change of the binding, nobody was bound after the port. -/
def Latest (h : List (Nat × Note)) (c : Class) (p n : Nat) : Prop :=
  ∃ j k, (j, .binds c p k) ∈ h ∧ ∀ i q m, q ≠ p → (i, .binds c q m) ∈ h → m ≤ n → m < k

/-- No binding behind a change has been announced. -/
def AnnouncedTo (h : List (Nat × Note)) (c : Class) (n : Nat) : Prop :=
  ∀ i q m, (i, .announces c q m) ∈ h → m ≤ n

/-- A thread fixed the class when its port was bound to it. -/
structure Seen (h : List (Nat × Note)) (s : Shared) (c : Class) (p n : Nat) : Prop where
  past : n ≤ (s.cls c).changes
  latest : Latest h c p n
  announced : AnnouncedTo h c n

/-- What is announced has been bound, under the number of a change that has been made. -/
structure Booked (h : List (Nat × Note)) (s : Shared) : Prop where
  bound : ∀ i c q n, (i, .announces c q n) ∈ h → (q, .binds c q n) ∈ h
  past : ∀ i c q n, (i, .binds c q n) ∈ h → i = q ∧ n ≤ (s.cls c).changes
  unique : ∀ i j c q r n, (i, .binds c q n) ∈ h → (j, .binds c r n) ∈ h → q = r
  current : ∀ c q, (s.cls c).boundPort = some q → Latest h c q (s.cls c).changes

/-- A port has been bound under that number, and nobody after it up to there. -/
structure Made (h : List (Nat × Note)) (s : Shared) (c : Class) (p n : Nat) : Prop where
  bound : (p, .binds c p n) ∈ h
  seen : Seen h s c p n

/-- A port was the latest to be bound before a binding that has not been announced. -/
structure Before (h : List (Nat × Note)) (c : Class) (d n : Nat) : Prop where
  latest : Latest h c d (n - 1)
  announced : ∀ i q m, (i, .announces c q m) ∈ h → m < n

/-- What a thread knows of the events it has in hand. -/
def Held (h : List (Nat × Note)) (s : Shared) (p : Nat) : Stage → Prop
  | .unsettling c n displaced => Made h s c p n ∧ Before h c displaced n
  | .disowning c n disc => Made h s c p n ∧ Before h c disc.port n
  | .naming c n => Made h s c p n
  | .announcing c n sentinel => Made h s c p n ∧ sentinel.port = p
  | .lookingUp _ _ sentinel => ∀ x ∈ sentinel, x.port = p
  | .refreshing c n sentinel _ _ => Seen h s c p n ∧ sentinel.port = p
  | .sampling c n _ _ => Seen h s c p n
  | .reporting c n sample => Seen h s c p n ∧ sample.port = p
  | .resetting lost => ∀ c n, lost = some (c, n) → Seen h s c p n
  | .parting c n sentinel => Seen h s c p n ∧ sentinel.port = p
  | .idle | .binding _ | .hydrating _ _ => True

theorem Before.clear {h : List (Nat × Note)} {s : Shared} {c : Class} {d n : Nat}
    (hd : Before h c d n) (hb : Booked h s) : Clear h c d := by
  intro i q m hq hm
  obtain ⟨j, k, hk, hlast⟩ := hd.latest
  have hlt := hd.announced i q m hm
  exact ⟨j, k, hlast q q m hq (hb.bound i c q m hm) (by omega), hk⟩

theorem Seen.clear {h : List (Nat × Note)} {s : Shared} {c : Class} {p n : Nat}
    (hs : Seen h s c p n) (hb : Booked h s) : Clear h c p := by
  intro i q m hq hm
  obtain ⟨j, k, hk, hlast⟩ := hs.latest
  exact ⟨j, k, hlast q q m hq (hb.bound i c q m hm) (hs.announced i q m hm), hk⟩

/-! ## What a section books -/

section Sections

variable {s : Shared} {p : Nat} {stage : Stage} {input : Input}

variable {c : Class}

theorem announced_of_note {q n : Nat} (h : Note.announces c q n ∈ (portBody s p stage input).2.1) :
    q = p ∧ (∃ sentinel, stage = .announcing c n sentinel) ∧
      (Point.port p stage).announced input = some (c, n) := by
  revert h
  fun_cases portBody s p stage input with
  | case9 c' n' sentinel =>
    intro h
    have heq : Note.announces c q n = .announces c' p n' := by simpa using h
    cases heq
    exact ⟨rfl, ⟨sentinel, rfl⟩, rfl⟩
  | _ => simp

theorem changes_mono (c : Class) :
    (s.cls c).changes ≤ ((portBody s p stage input).1.cls c).changes := by
  rcases @portBody_cls s p stage input with
    ⟨hsame, -⟩ | ⟨c', -, -, hbind, -⟩ | ⟨c', -, -, hunbind, -⟩
  · exact Nat.le_of_eq (by rw [hsame])
  · rw [hbind]
    exact s.setCls_cases (P := fun cs cs' => cs.changes ≤ cs'.changes) (Nat.le_succ _)
      (fun _ => Nat.le_refl _) c
  · rw [hunbind]
    exact s.setCls_cases (P := fun cs cs' => cs.changes ≤ cs'.changes) (Nat.le_succ _)
      (fun _ => Nat.le_refl _) c

theorem bound_of_note {q n : Nat} (h : Note.binds c q n ∈ (portBody s p stage input).2.1) :
    q = p ∧ n = (s.cls c).changes + 1 ∧
      ((portBody s p stage input).1.cls c).changes = n := by
  rcases @portBody_cls s p stage input with
    ⟨-, hnone⟩ | ⟨c', -, -, hbind, hnotes⟩ | ⟨c', -, -, -, hnotes⟩
  · exact absurd h (hnone c q n)
  · rw [hnotes] at h
    have heq := mem_singleton.mp h
    cases heq
    rw [hbind, Shared.setCls_self]
    exact ⟨rfl, rfl, rfl⟩
  · rw [hnotes] at h
    cases h

variable {h : List (Nat × Note)}

theorem mem_book {i j : Nat} {n : Note} {notes : List Note} :
    (j, n) ∈ h ++ notes.map (Prod.mk i) ↔ (j, n) ∈ h ∨ j = i ∧ n ∈ notes := by
  rw [mem_append, mem_map]
  constructor
  · rintro (hold | ⟨n', hn, heq⟩)
    · exact .inl hold
    · cases heq
      exact .inr ⟨rfl, hn⟩
  · rintro (hold | ⟨rfl, hn⟩)
    · exact .inl hold
    · exact .inr ⟨n, hn, rfl⟩

theorem Latest.book {q n : Nat} (hl : Latest h c q n) (hpast : n ≤ (s.cls c).changes) :
    Latest (h ++ (portBody s p stage input).2.1.map (Prod.mk p)) c q n := by
  obtain ⟨j, k, hk, hlast⟩ := hl
  refine ⟨j, k, mem_book.mpr (.inl hk), fun i r m hr hm hle => ?_⟩
  rcases mem_book.mp hm with hold | ⟨-, hnew⟩
  · exact hlast i r m hr hold hle
  · obtain ⟨-, hcount, -⟩ := bound_of_note hnew
    omega

theorem Booked.latest_bound (hb : Booked h s) :
    Latest (h ++ [Note.binds c p ((s.cls c).changes + 1)].map (Prod.mk p)) c p
      ((s.cls c).changes + 1) := by
  refine ⟨p, (s.cls c).changes + 1, mem_book.mpr (.inr ⟨rfl, mem_singleton_self _⟩),
    fun i r m hr hm _ => ?_⟩
  rcases mem_book.mp hm with hold | ⟨-, hnew⟩
  · have hpast := (hb.past i c r m hold).2
    omega
  · cases mem_singleton.mp hnew
    exact absurd rfl hr

/-- **One section of a port** keeps the book. -/
theorem Booked.step (hb : Booked h s)
    (hheld : ∀ c n sentinel, stage = .announcing c n sentinel → (p, .binds c p n) ∈ h)
    (input : Input) :
    Booked (h ++ (portBody s p stage input).2.1.map (Prod.mk p)) (portBody s p stage input).1 where
  bound i c q n hm := by
    rcases mem_book.mp hm with hold | ⟨-, hnew⟩
    · exact mem_book.mpr (.inl (hb.bound i c q n hold))
    · obtain ⟨rfl, ⟨sentinel, hstage⟩, -⟩ := announced_of_note hnew
      exact mem_book.mpr (.inl (hheld c n sentinel hstage))
  past i c q n hm := by
    rcases mem_book.mp hm with hold | ⟨rfl, hnew⟩
    · obtain ⟨hi, hle⟩ := hb.past i c q n hold
      exact ⟨hi, Nat.le_trans hle (changes_mono c)⟩
    · obtain ⟨rfl, -, hcount⟩ := bound_of_note hnew
      exact ⟨rfl, Nat.le_of_eq hcount.symm⟩
  unique i j c q r n hq hr := by
    rcases mem_book.mp hq with hold | ⟨-, hnew⟩ <;> rcases mem_book.mp hr with hold' | ⟨-, hnew'⟩
    · exact hb.unique i j c q r n hold hold'
    · have hpast := (hb.past i c q n hold).2
      obtain ⟨-, hcount, -⟩ := bound_of_note hnew'
      omega
    · have hpast := (hb.past j c r n hold').2
      obtain ⟨-, hcount, -⟩ := bound_of_note hnew
      omega
    · exact (bound_of_note hnew).1.trans (bound_of_note hnew').1.symm
  current c q hq := by
    rcases @portBody_cls s p stage input with
      ⟨hsame, -⟩ | ⟨c', -, -, hbind, hnotes⟩ | ⟨c', -, -, hunbind, -⟩
    · rw [hsame] at hq ⊢
      exact (hb.current c q hq).book (Nat.le_refl _)
    · by_cases hcc : c = c'
      · subst hcc
        rw [hbind, Shared.setCls_self] at hq ⊢
        rw [hnotes]
        cases hq
        exact hb.latest_bound
      · rw [hbind, Shared.setCls_of_ne s hcc] at hq ⊢
        exact (hb.current c q hq).book (Nat.le_refl _)
    · by_cases hcc : c = c'
      · subst hcc
        rw [hunbind, Shared.setCls_self] at hq
        cases hq
      · rw [hunbind, Shared.setCls_of_ne s hcc] at hq ⊢
        exact (hb.current c q hq).book (Nat.le_refl _)

def Quiet (notes : List Note) : Prop :=
  ∀ c q n, .binds c q n ∉ notes ∧ .announces c q n ∉ notes

theorem quiet_nil : Quiet [] := fun _ _ _ => ⟨not_mem_nil, not_mem_nil⟩

theorem quiet_push (c : Class) (sample : Sample) : Quiet [.pushes c sample] := by
  simp [Quiet]

section Quiet

variable {h : List (Nat × Note)} {s' : Shared} {c : Class} {q n i : Nat} {notes : List Note}

theorem Latest.quiet (hl : Latest h c q n) (hq : Quiet notes) :
    Latest (h ++ notes.map (Prod.mk i)) c q n := by
  obtain ⟨j, k, hk, hlast⟩ := hl
  refine ⟨j, k, mem_book.mpr (.inl hk), fun i r m hr hm hle => ?_⟩
  rcases mem_book.mp hm with hold | ⟨-, hnew⟩
  · exact hlast i r m hr hold hle
  · exact absurd hnew (hq c r m).1

theorem Seen.quiet (hs : Seen h s c q n) (hq : Quiet notes)
    (hcls : (s'.cls c).changes = (s.cls c).changes) :
    Seen (h ++ notes.map (Prod.mk i)) s' c q n where
  past := hcls ▸ hs.past
  latest := hs.latest.quiet hq
  announced j r m hm := by
    rcases mem_book.mp hm with hold | ⟨-, hnew⟩
    · exact hs.announced j r m hold
    · exact absurd hnew (hq c r m).2

theorem Made.quiet (hm : Made h s c q n) (hq : Quiet notes)
    (hcls : (s'.cls c).changes = (s.cls c).changes) :
    Made (h ++ notes.map (Prod.mk i)) s' c q n :=
  ⟨mem_book.mpr (.inl hm.bound), hm.seen.quiet hq hcls⟩

theorem Before.quiet (hd : Before h c q n) (hq : Quiet notes) :
    Before (h ++ notes.map (Prod.mk i)) c q n := by
  refine ⟨hd.latest.quiet hq, fun j r m hm => ?_⟩
  rcases mem_book.mp hm with hold | ⟨-, hnew⟩
  · exact hd.announced j r m hold
  · exact absurd hnew (hq c r m).2

end Quiet

theorem Booked.announced (hb : Booked h s) {i q m : Nat}
    (hm : (i, .announces c q m) ∈ h) : m ≤ (s.cls c).changes :=
  (hb.past q c q m (hb.bound i c q m hm)).2

theorem Booked.made (hb : Booked h s) (c : Class) :
    Made (h ++ [Note.binds c p ((s.cls c).changes + 1)].map (Prod.mk p))
      (s.setCls c ((s.cls c).rebind (some p))) c p ((s.cls c).changes + 1) where
  bound := mem_book.mpr (.inr ⟨rfl, mem_singleton_self _⟩)
  seen := {
    past := by
      rw [Shared.setCls_self]
      exact Nat.le_refl _
    latest := hb.latest_bound
    announced := by
      intro i q m hm
      rcases mem_book.mp hm with hold | ⟨-, hnew⟩
      · exact Nat.le_succ_of_le (hb.announced hold)
      · cases mem_singleton.mp hnew }

theorem Booked.before (hb : Booked h s) {d : Nat} (hd : (s.cls c).boundPort = some d) :
    Before (h ++ [Note.binds c p ((s.cls c).changes + 1)].map (Prod.mk p)) c d
      ((s.cls c).changes + 1) := by
  constructor
  · obtain ⟨j, k, hk, hlast⟩ := hb.current c d hd
    refine ⟨j, k, mem_book.mpr (.inl hk), fun i r m hr hm hle => ?_⟩
    rcases mem_book.mp hm with hold | ⟨-, hnew⟩
    · exact hlast i r m hr hold hle
    · cases mem_singleton.mp hnew
      omega
  · intro i q m hm
    rcases mem_book.mp hm with hold | ⟨-, hnew⟩
    · exact Nat.lt_succ_of_le (hb.announced hold)
    · cases mem_singleton.mp hnew

theorem Booked.seen (hb : Booked h s) {q : Nat}
    (hq : (s.cls c).boundPort = some q) : Seen h s c q (s.cls c).changes where
  past := Nat.le_refl _
  latest := hb.current c q hq
  announced _ _ _ hm := hb.announced hm

theorem Booked.seen_released (hb : Booked h s) {q : Nat} (hq : (s.cls c).boundPort = some q) :
    Seen h (s.setCls c ((s.cls c).rebind none)) c q ((s.cls c).changes + 1) where
  past := by
    rw [Shared.setCls_self]
    exact Nat.le_refl _
  latest := by
    obtain ⟨j, k, hk, hlast⟩ := hb.current c q hq
    exact ⟨j, k, hk, fun i r m hr hm _ => hlast i r m hr hm (hb.past i c r m hm).2⟩
  announced _ _ _ hm := Nat.le_succ_of_le (hb.announced hm)

/-- **One section of a port**, and what its thread knows then. -/
theorem Held.step (hh : Held h s p stage) (hb : Booked h s) (input : Input) :
    Held (h ++ (portBody s p stage input).2.1.map (Prod.mk p)) (portBody s p stage input).1 p
      (portBody s p stage input).2.2 := by
  fun_cases portBody s p stage input with
  | case1 | case5 | case9 | case16 | case19 => trivial
  | case2 info =>
    split <;> trivial
  | case3 c _ _ _ cs hbind =>
    obtain ⟨-, rfl⟩ := ClassState.tryBind_fresh hbind
    exact hb.made c
  | case4 c _ _ _ cs displaced hbind =>
    obtain ⟨hbound, -, rfl⟩ := ClassState.tryBind_displaced hbind
    exact ⟨hb.made c, hb.before hbound⟩
  | case6 c n displaced _ _ _ ps disc hdisc =>
    have hport := (s.ports displaced).port_disconnect displaced
    rw [hdisc] at hport
    obtain ⟨hmade, hbefore⟩ := hh
    rw [← hport] at hbefore
    exact ⟨hmade.quiet quiet_nil rfl, hbefore.quiet quiet_nil⟩
  | case7 c n disc => exact hh.1.quiet (quiet_push c disc) rfl
  | case8 c n => exact ⟨Made.quiet hh quiet_nil rfl, rfl⟩
  | case10 mode len =>
    split
    · rintro _ ⟨⟩
    · trivial
  | case11 => rintro _ ⟨⟩
  | case12 mode len _ _ info ps sentinel hhydrate =>
    have hport := (s.ports p).port_hydrate p info
    rw [hhydrate] at hport
    exact hport
  | case13 mode len sentinel =>
    cases hclass : s.classOf p with
    | none => trivial
    | some c =>
      have hseen := (hb.seen (Shared.boundPort_of_classOf hclass)).quiet (i := p) quiet_nil rfl
      cases sentinel with
      | none => exact hseen
      | some x => exact ⟨hseen, hh x rfl⟩
  | case14 c n sentinel mode len => exact hh.1.quiet (quiet_push c sentinel) rfl
  | case15 c n mode len _ late _ ps sample hsample =>
    have hport := (s.ports p).port_sample p mode len late
    rw [hsample] at hport
    exact ⟨Seen.quiet hh quiet_nil rfl, hport⟩
  | case17 s' lost hunbind =>
    rcases Shared.unbind_cases hunbind with ⟨rfl, -, -⟩ | ⟨c, rfl, hbound, rfl⟩
    · rintro _ _ ⟨⟩
    · rintro c' n ⟨⟩
      have hseen := (hb.seen_released hbound).quiet (i := p) quiet_nil rfl
      rwa [Shared.setCls_self]
  | case18 lost =>
    cases lost with
    | none => trivial
    | some x => exact ⟨(hh x.1 x.2 rfl).quiet quiet_nil rfl, rfl⟩
  | case20 =>
    rw [map_nil, append_nil]
    exact hh

/-! ## What others know -/

section Others

variable {h : List (Nat × Note)} {c : Class} {q n : Nat}

theorem Seen.other (hs : Seen h s c q n)
    (hann : ∀ r m, Note.announces c r m ∈ (portBody s p stage input).2.1 → m ≤ n) :
    Seen (h ++ (portBody s p stage input).2.1.map (Prod.mk p))
      (portBody s p stage input).1 c q n where
  past := Nat.le_trans hs.past (changes_mono c)
  latest := hs.latest.book hs.past
  announced i r m hm := by
    rcases mem_book.mp hm with hold | ⟨-, hnew⟩
    · exact hs.announced i r m hold
    · exact hann r m hnew

theorem Made.other (hm : Made h s c q n)
    (hann : ∀ r m, Note.announces c r m ∈ (portBody s p stage input).2.1 → m ≤ n) :
    Made (h ++ (portBody s p stage input).2.1.map (Prod.mk p)) (portBody s p stage input).1 c q n :=
  ⟨mem_book.mpr (.inl hm.bound), hm.seen.other hann⟩

theorem Before.other {d : Nat} (hd : Before h c d n) (hm : Made h s c q n) (hb : Booked h s)
    (hqp : q ≠ p) (hheld : ∀ c n sentinel, stage = .announcing c n sentinel → (p, .binds c p n) ∈ h)
    (hann : ∀ r m, Note.announces c r m ∈ (portBody s p stage input).2.1 → m ≤ n) :
    Before (h ++ (portBody s p stage input).2.1.map (Prod.mk p)) c d n := by
  have hpast := hm.seen.past
  refine ⟨hd.latest.book (by omega), fun i r m hmem => ?_⟩
  rcases mem_book.mp hmem with hold | ⟨-, hnew⟩
  · exact hd.announced i r m hold
  · obtain ⟨-, ⟨sentinel, hstage⟩, -⟩ := announced_of_note hnew
    refine Nat.lt_of_le_of_ne (hann r m hnew) ?_
    rintro rfl
    exact hqp (hb.unique _ _ _ _ _ _ hm.bound (hheld c m sentinel hstage))

/-- **A section of another port**, that announces nothing behind what the thread has in hand. -/
theorem Held.other {stage' : Stage} (hh : Held h s q stage') (hb : Booked h s) (hqp : q ≠ p)
    (hheld : ∀ c n sentinel, stage = .announcing c n sentinel → (p, .binds c p n) ∈ h)
    (hann : ∀ c n, stage'.inHand = some (c, n) →
      ∀ r m, Note.announces c r m ∈ (portBody s p stage input).2.1 → m ≤ n) :
    Held (h ++ (portBody s p stage input).2.1.map (Prod.mk p)) (portBody s p stage input).1 q
      stage' := by
  cases stage' with
  | idle | binding | hydrating => trivial
  | unsettling c n displaced =>
    have hn := hann c n rfl
    exact ⟨hh.1.other hn, hh.2.other hh.1 hb hqp hheld hn⟩
  | disowning c n disc =>
    have hn := hann c n rfl
    exact ⟨hh.1.other hn, hh.2.other hh.1 hb hqp hheld hn⟩
  | naming c n => exact Made.other hh (hann c n rfl)
  | announcing c n sentinel => exact ⟨hh.1.other (hann c n rfl), hh.2⟩
  | lookingUp mode len sentinel => exact hh
  | refreshing c n sentinel mode len => exact ⟨hh.1.other (hann c n rfl), hh.2⟩
  | sampling c n mode len => exact Seen.other hh (hann c n rfl)
  | reporting c n sample => exact ⟨hh.1.other (hann c n rfl), hh.2⟩
  | resetting lost => exact fun c n hlost => (hh c n hlost).other (hann c n hlost)
  | parting c n sentinel => exact ⟨hh.1.other (hann c n rfl), hh.2⟩

variable {s' : Shared} {i : Nat} {notes : List Note}

theorem Held.quiet {stage' : Stage} (hh : Held h s q stage') (hq : Quiet notes)
    (hcls : ∀ c, (s'.cls c).changes = (s.cls c).changes) :
    Held (h ++ notes.map (Prod.mk i)) s' q stage' := by
  cases stage' with
  | idle | binding | hydrating => trivial
  | unsettling c n displaced | disowning c n disc =>
    exact ⟨hh.1.quiet hq (hcls c), hh.2.quiet hq⟩
  | naming c n => exact Made.quiet hh hq (hcls c)
  | announcing c n sentinel => exact ⟨hh.1.quiet hq (hcls c), hh.2⟩
  | lookingUp mode len sentinel => exact hh
  | refreshing c n sentinel mode len => exact ⟨hh.1.quiet hq (hcls c), hh.2⟩
  | sampling c n mode len => exact Seen.quiet hh hq (hcls c)
  | reporting c n sample => exact ⟨hh.1.quiet hq (hcls c), hh.2⟩
  | resetting lost => exact fun c n hlost => (hh c n hlost).quiet hq (hcls c)
  | parting c n sentinel => exact ⟨hh.1.quiet hq (hcls c), hh.2⟩

theorem Booked.quiet (hb : Booked h s) (hq : Quiet notes)
    (hcls : ∀ c, (s'.cls c).binding = (s.cls c).binding) :
    Booked (h ++ notes.map (Prod.mk i)) s' where
  bound j c q n hm := by
    rcases mem_book.mp hm with hold | ⟨-, hnew⟩
    · exact mem_book.mpr (.inl (hb.bound j c q n hold))
    · exact absurd hnew (hq c q n).2
  past j c q n hm := by
    have hchanges : (s'.cls c).changes = (s.cls c).changes := congrArg (·.2.2) (hcls c)
    rcases mem_book.mp hm with hold | ⟨-, hnew⟩
    · rw [hchanges]
      exact hb.past j c q n hold
    · exact absurd hnew (hq c q n).1
  unique j k c q r n hj hk := by
    rcases mem_book.mp hj with hold | ⟨-, hnew⟩ <;> rcases mem_book.mp hk with hold' | ⟨-, hnew'⟩
    · exact hb.unique j k c q r n hold hold'
    · exact absurd hnew' (hq c r n).1
    · exact absurd hnew (hq c q n).1
    · exact absurd hnew (hq c q n).1
  current c q hbound := by
    have hchanges : (s'.cls c).changes = (s.cls c).changes := congrArg (·.2.2) (hcls c)
    have hport : (s'.cls c).boundPort = (s.cls c).boundPort := congrArg Prod.fst (hcls c)
    rw [hchanges]
    exact (hb.current c q (hport ▸ hbound)).quiet hq

end Others

theorem userBody_quiet (use : Use) : Quiet (userBody s use input).2.1 := by
  fun_cases userBody s use input <;> simp [Quiet]

theorem userBody_no_push (use : Use) (c : Class) (sample : Sample) :
    .pushes c sample ∉ (userBody s use input).2.1 := by
  fun_cases userBody s use input <;> simp

end Sections

/-! ## Whole steps -/

/-- The book of a run, and where its threads stand. -/
structure Kept (h : List (Nat × Note)) (s : Threads.State Shared Point) : Prop where
  tidy : Tidy s
  booked : Booked h s.shared
  held : ∀ p stage, s.pc p = .port p stage → Held h s.shared p stage

section Steps

variable {h : List (Nat × Note)} {s : Threads.State Shared Point} {i : Nat} {input : Input}

theorem announced_le {p q c n} {stage stage' : Stage} (hi : s.pc i = .port p stage)
    (hq : s.pc q = .port q stage') (hqi : q ≠ i) (hlt : q < numPorts)
    (hover : ¬Overtakes s (i, input)) (hhand : stage'.inHand = some (c, n)) (r m : Nat)
    (hm : Note.announces c r m ∈ (portBody s.shared p stage input).2.1) : m ≤ n := by
  obtain ⟨-, -, hannounced⟩ := announced_of_note hm
  by_contra hgt
  refine hover ⟨q, hlt, hqi, ?_⟩
  rw [hi, hannounced, hq, Point.inHand, hhand]
  exact ⟨rfl, Nat.not_le.mp hgt⟩

theorem Kept.made (h' : Kept h s) {p : Nat} {stage : Stage} (hp : s.pc p = .port p stage)
    (c : Class) (n : Nat) (sentinel : Sample) (hstage : stage = .announcing c n sentinel) :
    (p, .binds c p n) ∈ h := by
  have hheld := h'.held p stage hp
  subst hstage
  exact hheld.1.bound

/-- **One section.** -/
theorem Kept.step (h' : Kept h s) (hover : ¬Overtakes s (i, input)) :
    Kept (h ++ threads.notes s i input) (threads.step s i input) := by
  refine ⟨h'.tidy.step i input, ?_, fun q stage' hq => ?_⟩
  · cases hpc : s.pc i with
    | port p stage =>
      obtain ⟨rfl, -⟩ := h'.tidy.own i p stage hpc
      obtain ⟨hstep, hnotes⟩ := (@step_port _ _ input) hpc
      rw [hstep, hnotes]
      exact h'.booked.step (h'.made hpc) input
    | user use =>
      obtain ⟨hstep, hnotes⟩ := (@step_user _ _ input) hpc
      rw [hstep, hnotes]
      exact h'.booked.quiet (userBody_quiet use) (userBody_binding use)
  · cases hpc : s.pc i with
    | port p stage =>
      obtain ⟨rfl, -⟩ := h'.tidy.own i p stage hpc
      obtain ⟨hstep, hnotes⟩ := (@step_port _ _ input) hpc
      rw [hnotes]
      rw [hstep] at hq ⊢
      by_cases hqi : q = i
      · subst hqi
        have hself := (Function.update_self q _ s.pc).symm.trans hq
        cases hself
        exact (h'.held q stage hpc).step h'.booked input
      · have hother : s.pc q = .port q stage' := (Function.update_of_ne hqi _ s.pc).symm.trans hq
        have hlt := (h'.tidy.own q q stage' hother).2
        exact (h'.held q stage' hother).other h'.booked hqi (h'.made hpc)
          fun c n hhand => announced_le hpc hother hqi hlt hover hhand
    | user use =>
      obtain ⟨hstep, hnotes⟩ := (@step_user _ _ input) hpc
      rw [hnotes]
      rw [hstep] at hq ⊢
      have hqi : q ≠ i := by
        rintro rfl
        cases (Function.update_self q _ s.pc).symm.trans hq
      have hother : s.pc q = .port q stage' := (Function.update_of_ne hqi _ s.pc).symm.trans hq
      exact (h'.held q stage' hother).quiet (userBody_quiet use)
        fun c => congrArg (·.2.2) (userBody_binding use c)

theorem first_of_push {notes l r : List Note} {c d : Class} {x sample : Sample}
    (hnotes : .pushes d x :: notes = l ++ .pushes c sample :: r)
    (hrest : ∀ c sample, Note.pushes c sample ∉ notes) : l = [] ∧ c = d ∧ sample = x := by
  cases l with
  | nil =>
    cases hnotes
    exact ⟨rfl, rfl, rfl⟩
  | cons note l =>
    obtain ⟨-, htail⟩ := cons_eq_cons.mp hnotes
    exact absurd (htail ▸ by simp) (hrest c sample)

theorem Held.clear {s : Shared} {p : Nat} {stage : Stage} (hh : Held h s p stage)
    (hb : Booked h s) {c : Class} {sample : Sample} {l r : List Note}
    (hnotes : (portBody s p stage input).2.1 = l ++ .pushes c sample :: r) :
    l = [] ∧ Clear h c sample.port := by
  have hnone : ∀ note, (∀ c sample, note ≠ .pushes c sample) →
      ¬(([] : List Note) = l ++ .pushes c sample :: r ∨ [note] = l ++ .pushes c sample :: r) := by
    rintro note hnote (hnil | hone)
    · simp at hnil
    · have hmem : Note.pushes c sample ∈ [note] := hone ▸ by simp
      exact hnote c sample (mem_singleton.mp hmem).symm
  revert hnotes
  fun_cases portBody s p stage input with
  | case7 d n disc =>
    intro hnotes
    obtain ⟨hl, rfl, rfl⟩ := first_of_push hnotes (by simp)
    exact ⟨hl, hh.2.clear hb⟩
  | case9 d n sentinel =>
    intro hnotes
    obtain ⟨hl, rfl, rfl⟩ := first_of_push hnotes (by simp)
    refine ⟨hl, ?_⟩
    rw [hh.2]
    exact hh.1.seen.clear hb
  | case14 d n sentinel mode len | case16 d n sentinel | case19 d n sentinel =>
    intro hnotes
    obtain ⟨hl, rfl, rfl⟩ := first_of_push hnotes (by simp)
    refine ⟨hl, ?_⟩
    rw [hh.2]
    exact hh.1.clear hb
  | case3 | case4 => exact fun hnotes => absurd (.inr hnotes) (hnone _ (by simp))
  | _ => exact fun hnotes => absurd (.inl hnotes) (hnone (.returns 0 0) (by simp))

theorem kept_boot : Kept [] boot where
  tidy := tidy_boot
  booked := ⟨nofun, nofun, nofun, nofun⟩
  held p stage hp := by
    rw [boot] at hp
    dsimp only at hp
    split at hp <;> cases hp
    trivial

theorem kept_run {events : List (Nat × Input)}
    (h : threads.machine.Throughout (fun s e => ¬Overtakes s e) boot events) :
    Kept (threads.history boot events) (threads.machine.run boot events) := by
  have hrun := Threads.history_invariant_of (m := threads)
    (fun _ _ _ _ hk hover => Kept.step hk hover) kept_boot events h
  rwa [nil_append] at hrun

/-- **Sensor class binding.** In every run a port is bound to one class at most, and gains or keeps
it only where no port with a lower number is bound to it. In a run in which the last event of a new
binding never overtakes an event that another port has in hand from before that binding, every event
belongs on the topic it is pushed on. -/
theorem binding_exclusive (events : List (Nat × Input)) :
    threads.machine.Throughout
        (fun s e => OneClass s.shared ∧ OneClass (threads.step s e.1 e.2).shared ∧ LowestFirst s e)
        boot events ∧
      (threads.machine.Throughout (fun s e => ¬Overtakes s e) boot events →
        ClearThroughout (threads.history boot events)) := by
  constructor
  · refine @Machine.throughout_of_invariant _ _ _ threads.machine Tidy (fun _ _ => True) _
      (fun s e hs _ => ?_) _ _ tidy_boot
      (threads.machine.throughout_of_forall (fun _ _ _ => trivial) _)
    exact ⟨⟨hs.one, (hs.step e.1 e.2).one, lowestFirst s e⟩, hs.step e.1 e.2⟩
  · intro h pre i c sample post hpost
    obtain ⟨before, e, after, l, r, rfl, hnotes, rfl, -⟩ := Threads.exists_step_of_history hpost
    have hk := kept_run (threads.machine.throughout_append.mp h).1
    cases hpc : (threads.machine.run boot before).pc e.1 with
    | port p stage =>
      obtain ⟨rfl, -⟩ := hk.tidy.own e.1 p stage hpc
      rw [(step_port hpc).2] at hnotes
      obtain ⟨l', rest, hl, hsplit, hrest⟩ := map_eq_append_iff.mp hnotes
      obtain ⟨note, r', rfl, hnote, -⟩ := map_eq_cons_iff.mp hrest
      obtain ⟨-, rfl⟩ := Prod.mk.inj hnote
      obtain ⟨rfl, hclear⟩ := (hk.held e.1 stage hpc).clear hk.booked hl
      subst hsplit
      rwa [map_nil, append_nil]
    | user use =>
      rw [(step_user hpc).2] at hnotes
      have hmem : (i, Note.pushes c sample) ∈ (userBody _ use e.2).2.1.map (Prod.mk e.1) :=
        hnotes ▸ mem_append_right l mem_cons_self
      obtain ⟨note, hmem, hnote⟩ := mem_map.mp hmem
      obtain ⟨-, rfl⟩ := Prod.mk.inj hnote
      exact absurd hmem (userBody_no_push use c sample)

end Steps

def plug (port : Nat) : List (Nat × Input) :=
  [(port, .sync { typeId := 48, modes := [⟨1, 0⟩] }), (port, .go none false 0),
    (port, .go none false 0),
    (port, .go none false 0)]

/-- A motor displaces one whose port has a higher number. -/
def displace (port : Nat) : List (Nat × Input) :=
  plug port ++ [(port, .go none false 0), (port, .go none false 0)]

/-- A port reports between two motors. -/
theorem binding_exclusive_displaced :
    ClearThroughout (threads.history boot
      (plug 2 ++ [(2, .data 0 4), (2, .go none false 0), (2, .go none false 0),
         (2, .go none false 0)]
        ++ displace 0)) :=
  (binding_exclusive _).2 (by decide +kernel)

/-- A sample of the port with the higher number is reported behind the motor that displaced it. -/
theorem not_binding_exclusive :
    ¬∀ events, threads.machine.Throughout
        (fun s e => OneClass s.shared ∧ OneClass (threads.step s e.1 e.2).shared ∧ LowestFirst s e)
        boot events ∧
      ClearThroughout (threads.history boot events) := by
  intro h
  let run := plug 2 ++ [(2, .data 0 4), (2, .go none false 0)] ++ displace 0 ++
    [(2, .go none false 0), (2, .go none false 0)]
  have hlate : threads.history boot run =
      (threads.history boot run).take 7 ++
        (2, .pushes .motorR
          { seq := 3, generation := 2, port := 2, typeId := 48, numValues := 1, len := 4 })
        :: [] := by decide +kernel
  have hannounced : (0, .announces .motorR 0 2) ∈ (threads.history boot run).take 7 := by
    decide +kernel
  obtain ⟨j, m, hm, hbound⟩ := (h run).2 _ _ _ _ _ hlate 0 0 2 (by decide) hannounced
  have honce : ∀ x ∈ (threads.history boot run).take 7, ∀ k ∈ [x.2].filterMap
      (fun | .binds .motorR 2 k => some k | _ => none), k ≤ 2 := by decide +kernel
  exact absurd (honce _ hbound m (by simp)) (by omega)

end Brickwright.Legosensor
