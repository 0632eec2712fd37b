import Brickwright.Bluetooth.Settings.Basic

/-!
# What the files say of the settings

The abstract store is a value for each key; a call that has been made with result 0 puts one in or
takes it out (`Call.apply`, `settings`). The files say the same (`view`) at every moment, except
that the last system call of a call is ahead of its return (`Inv`).
-/

namespace Brickwright.Bluetooth.Settings

open Files Decimal
open List

abbrev Values := Key → Option Bytes

def Call.apply : Call → Values → Values
  | .save key value, m => Function.update m key (some value)
  | .delete key, m => Function.update m key none

def Note.apply (m : Values) : Note → Values
  | .returned c result => if result = 0 then c.apply m else m
  | .called _ => m

/-- The settings after the calls that have returned. -/
def settings (m : Values) (h : List Note) : Values := h.foldl Note.apply m

/-- The call whose last system call has been made. -/
def Point.apply (m : Values) : Point → Values
  | .returning c result => if result = 0 then c.apply m else m
  | _ => m

def valueOf : Option Node → Option Bytes
  | some (.file bytes) => some bytes
  | _ => none

def view (t : Tree) : Values :=
  fun key => if validKey key then valueOf (t.lookup (path key)) else none

/-- Below the root there are settings, their directories and temporary files. -/
structure Stored (t : Tree) : Prop where
  root : ∀ bytes, t.lookup SETTINGS_ROOT ≠ some (.file bytes)
  named : ∀ rel node, t.lookup (path rel) = some node →
    validKey rel = true ∨
      ∃ key bytes, validKey key = true ∧ rel = key ++ text ".tmp" ∧ node = .file bytes

variable {t t' : Tree} {m : Values} {s : State} {h : List Note}

variable {o : Option Node}

theorem view_of_update {p : Path} (ht : t'.lookup = Function.update t.lookup p o)
    (hp : ∀ key, validKey key = true → path key ≠ p) : view t' = view t := by
  funext key
  rw [view, view]
  split
  · next hvalid => rw [ht, Function.update_of_ne (hp key hvalid)]
  · rfl

variable {key : Key}

theorem view_update (hkey : validKey key = true)
    (ht : t'.lookup = Function.update t.lookup (path key) o) :
    view t' = Function.update (view t) key (valueOf o) := by
  funext key'
  rw [view]
  by_cases hk : key' = key
  · subst hk
    rw [Function.update_self, if_pos hkey, ht, Function.update_self]
  · rw [Function.update_of_ne hk, view]
    split
    · rw [ht, Function.update_of_ne fun h => hk (path_inj.mp h)]
    · rfl

theorem stored_update {p : Path} (hs : Stored t) (ht : t'.lookup = Function.update t.lookup p o)
    (hroot : p = SETTINGS_ROOT → ∀ bytes, o ≠ some (.file bytes))
    (hnamed : ∀ rel node, p = path rel → o = some node → validKey rel = true ∨
      ∃ key bytes, validKey key = true ∧ rel = key ++ text ".tmp" ∧ node = .file bytes) :
    Stored t' := by
  constructor
  · intro bytes
    rw [ht, Function.update_apply]
    split
    · next hp => exact hroot hp.symm bytes
    · exact hs.root bytes
  · intro rel node
    rw [ht, Function.update_apply]
    split
    · next hp => exact hnamed rel node hp.symm
    · exact hs.named rel node

/-! ## The system calls -/

theorem stored_mkdir {d r : Path} (hs : Stored t) (hkey : validKey key = true)
    (hd : path key = child d r) (hmkdir : t.mkdir d = .ok t') : Stored t' ∧ view t' = view t := by
  obtain ⟨hnone, ht⟩ := Tree.mkdir_ok hmkdir
  refine ⟨stored_update hs ht (fun _ => nofun) fun rel node hrel _ => .inl ?_, ?_⟩
  · subst hrel
    exact validKey_above hkey hd
  · funext key'
    rw [view, view]
    split
    · rw [ht, Function.update_apply]
      split
      · next hp =>
        rw [hp, hnone]
        rfl
      · rfl
    · rfl

theorem temporary_ne_root (key : Key) : temporary key ≠ SETTINGS_ROOT := by
  exact path_ne_root _

theorem stored_temporary (hs : Stored t) (hkey : validKey key = true)
    (ht : t'.lookup = Function.update t.lookup (temporary key) o)
    (ho : ∀ node, o = some node → ∃ bytes, node = .file bytes) :
    Stored t' ∧ view t' = view t := by
  refine ⟨stored_update hs ht (fun h => absurd h (temporary_ne_root key))
    fun rel node hrel hnode => .inr ?_, view_of_update ht fun key' hkey' => ?_⟩
  · obtain ⟨bytes, rfl⟩ := ho node hnode
    rw [temporary_eq, path_inj] at hrel
    exact ⟨key, bytes, hkey, hrel.symm, rfl⟩
  · exact (temporary_ne_path hkey').symm

theorem stored_rename {value : Bytes} (hs : Stored t) (hkey : validKey key = true)
    (hfile : t.lookup (temporary key) = some (.file value))
    (hrename : t.rename (temporary key) (path key) = .ok t') :
    Stored t' ∧ view t' = Function.update (view t) key (some value) := by
  obtain ⟨bytes, hbytes, ht⟩ := Tree.rename_ok hrename
  obtain rfl : bytes = value := by simpa [hfile] using hbytes.symm
  have hnotDir : t.lookup (temporary key) ≠ some .dir := by
    rw [hfile]
    rintro ⟨⟩
  -- the temporary file goes, then the setting is there
  obtain ⟨hs', hview⟩ := stored_temporary hs hkey (Tree.lookup_remove hnotDir)
    (by rintro _ ⟨⟩)
  rw [← Tree.lookup_remove hnotDir] at ht
  refine ⟨stored_update hs' ht (fun h => absurd h (path_ne_root key))
    fun rel node hrel _ => .inl ?_, ?_⟩
  · rwa [← path_inj.mp hrel]
  · rw [view_update hkey ht, hview]
    rfl

theorem stored_unlink (hs : Stored t) (hkey : validKey key = true)
    (hunlink : t.unlink (path key) = .ok t') :
    Stored t' ∧ view t' = Function.update (view t) key none := by
  have ht := Tree.unlink_ok hunlink
  exact ⟨stored_update hs ht (fun h => absurd h (path_ne_root key)) fun _ _ _ => nofun,
    view_update hkey ht⟩

/-! ## The calls -/

/-- What a call keeps while it is under way. -/
def Point.Kept (t : Tree) : Point → Prop
  | .idle => True
  | .making key _ rest => validKey key = true ∧ ∀ d ∈ rest, ∃ r, path key = child d r
  | .opening key _ => validKey key = true
  | .writing key value rest => validKey key = true ∧
      ∃ done, done ++ rest = value ∧ t.lookup (temporary key) = some (.file done)
  | .syncing key value => validKey key = true ∧ t.lookup (temporary key) = some (.file value)
  | .closing key value result => validKey key = true ∧
      (result = 0 → t.lookup (temporary key) = some (.file value))
  | .replacing key value => validKey key = true ∧ t.lookup (temporary key) = some (.file value)
  | .unlinking key _ result => validKey key = true ∧ result ≠ 0
  | .removing key => validKey key = true
  | .returning _ _ => True

/-- The files say what the calls that have returned have put in and taken out, or are ahead by the
call that is to return. -/
structure Inv (m : Values) (h : List Note) (s : State) : Prop where
  stored : Stored s.tree
  view : view s.tree = s.point.apply (settings m h)
  kept : s.point.Kept s.tree

theorem Point.apply_returning {c : Call} {result : Int} (h : result ≠ 0) :
    (Point.returning c result).apply m = m := if_neg h

theorem Fault.neg_ne_zero (e : Fault) : -e.1 ≠ 0 := by
  have hpos := e.2.1
  omega

theorem neg_errno_ne_zero (e : Tree.Refusal) : -errno e ≠ 0 := by
  cases e <;> decide

theorem neg_EINTR_ne_zero : -EINTR ≠ 0 := by decide

theorem inv_loop {value done rest : Bytes} (hs : Stored t)
    (hview : Settings.view t = settings m h) (hkey : validKey key = true)
    (hvalue : done ++ rest = value) (hfile : t.lookup (temporary key) = some (.file done)) :
    Inv m h ⟨t, loop key value rest⟩ := by
  rw [loop]
  split
  · next hrest =>
    rw [hrest, append_nil] at hvalue
    exact ⟨hs, hview, hkey, hvalue ▸ hfile⟩
  · exact ⟨hs, hview, hkey, done, hvalue, hfile⟩

theorem inv_makeNext {value : Bytes} {rest : List Path} (hs : Stored t)
    (hview : Settings.view t = settings m h) (hkey : validKey key = true)
    (hrest : ∀ d ∈ rest, ∃ r, path key = child d r) : Inv m h ⟨t, makeNext key value rest⟩ := by
  cases rest with
  | nil => exact ⟨hs, hview, hkey⟩
  | cons d rest => exact ⟨hs, hview, hkey, hrest⟩

theorem inv_failed {c : Call} {result : Int} (hs : Stored t)
    (hview : Settings.view t = settings m h) (hresult : result ≠ 0) :
    Inv m h ⟨t, .returning c result⟩ :=
  ⟨hs, by rw [Point.apply_returning hresult, hview], trivial⟩

theorem inv_begin (hs : Stored t) (hview : Settings.view t = settings m h) (c : Call) :
    Inv m h ⟨t, begin c⟩ := by
  cases c with
  | save key value =>
    rw [begin]
    split
    · exact inv_failed hs hview (by decide)
    · next hkey =>
      repeat' split
      · exact inv_failed hs hview (by decide)
      · exact inv_failed hs hview (by decide)
      · exact inv_makeNext hs hview (by simpa using hkey) fun d hd => mem_ancestors hd
  | delete key =>
    rw [begin]
    split
    · exact inv_failed hs hview (by decide)
    · next hkey =>
      split
      · exact inv_failed hs hview (by decide)
      · have hkey : validKey key = true := by simpa using hkey
        exact ⟨hs, hview, hkey⟩

section Steps

variable {key : Key} {value : Bytes} {v : Verdict} (hs : Stored t)
  (hview : Settings.view t = settings m h) (hkey : validKey key = true)
include hs hview hkey

theorem inv_makeStep {d : Path} {rest : List Path}
    (hrest : ∀ d' ∈ d :: rest, ∃ r, path key = child d' r) :
    Inv m h (makeStep t key value d rest v) := by
  obtain ⟨r, hd⟩ := hrest d mem_cons_self
  have hlater (d' : Path) (hd' : d' ∈ rest) := hrest d' (mem_cons_of_mem d hd')
  cases v with
  | fault e => exact inv_failed hs hview e.neg_ne_zero
  | interrupted => exact inv_failed hs hview neg_EINTR_ne_zero
  | done count =>
    rw [makeStep]
    split
    · next hmkdir =>
      obtain ⟨hs', hview'⟩ := stored_mkdir hs hkey hd hmkdir
      exact inv_makeNext hs' (hview'.trans hview) hkey hlater
    · exact inv_makeNext hs hview hkey hlater
    · exact inv_failed hs hview (neg_errno_ne_zero _)

theorem inv_openStep : Inv m h (openStep t key value v) := by
  cases v with
  | fault e => exact inv_failed hs hview e.neg_ne_zero
  | interrupted => exact inv_failed hs hview neg_EINTR_ne_zero
  | done count =>
    rw [openStep]
    split
    · next hcreate =>
      have ht := (Tree.create_ok hcreate).2
      obtain ⟨hs', hview'⟩ := stored_temporary hs hkey ht fun node hnode =>
        ⟨[], (Option.some.inj hnode).symm⟩
      exact inv_loop hs' (hview'.trans hview) hkey (nil_append _)
        (by rw [ht, Function.update_self])
    · exact inv_failed hs hview (neg_errno_ne_zero _)

theorem inv_writeStep {done rest : Bytes} (hvalue : done ++ rest = value)
    (hfile : t.lookup (temporary key) = some (.file done)) :
    Inv m h (writeStep t key value rest v) := by
  cases v with
  | interrupted => exact ⟨hs, hview, hkey, done, hvalue, hfile⟩
  | fault e => exact ⟨hs, hview, hkey, fun h => absurd h e.neg_ne_zero⟩
  | done count =>
    rw [writeStep]
    split
    · exact ⟨hs, hview, hkey, fun h => absurd h (by decide)⟩
    · have ht := Tree.lookup_append hfile (rest.take count)
      obtain ⟨hs', hview'⟩ := stored_temporary hs hkey ht fun node hnode =>
        ⟨_, (Option.some.inj hnode).symm⟩
      refine inv_loop hs' (hview'.trans hview) hkey ?_ (by rw [ht, Function.update_self])
      rw [append_assoc, take_append_drop, hvalue]

theorem inv_syncStep (hfile : t.lookup (temporary key) = some (.file value)) :
    Inv m h (syncStep t key value v) := by
  cases v with
  | fault e => exact ⟨hs, hview, hkey, fun h => absurd h e.neg_ne_zero⟩
  | interrupted => exact ⟨hs, hview, hkey, fun h => absurd h neg_EINTR_ne_zero⟩
  | done count => exact ⟨hs, hview, hkey, fun _ => hfile⟩

theorem inv_closed {result : Int}
    (hfile : result = 0 → t.lookup (temporary key) = some (.file value)) :
    Inv m h ⟨t, closed key value result⟩ := by
  rw [closed]
  split
  · next hresult => exact ⟨hs, hview, hkey, hfile hresult⟩
  · next hresult => exact ⟨hs, hview, hkey, hresult⟩

theorem inv_closeStep {result : Int}
    (hfile : result = 0 → t.lookup (temporary key) = some (.file value)) :
    Inv m h (closeStep t key value result v) := by
  cases v with
  | fault e =>
    refine inv_closed hs hview hkey fun h => ?_
    split at h
    · exact absurd h e.neg_ne_zero
    · next hresult => exact absurd h hresult
  | interrupted =>
    refine inv_closed hs hview hkey fun h => ?_
    split at h
    · exact absurd h neg_EINTR_ne_zero
    · next hresult => exact absurd h hresult
  | done count => exact inv_closed hs hview hkey hfile

theorem inv_renameStep (hfile : t.lookup (temporary key) = some (.file value)) :
    Inv m h (renameStep t key value v) := by
  cases v with
  | fault e => exact ⟨hs, hview, hkey, e.neg_ne_zero⟩
  | interrupted => exact ⟨hs, hview, hkey, neg_EINTR_ne_zero⟩
  | done count =>
    rw [renameStep]
    split
    · next hrename =>
      obtain ⟨hs', hview'⟩ := stored_rename hs hkey hfile hrename
      refine ⟨hs', ?_, trivial⟩
      rw [hview', hview]
      rfl
    · exact ⟨hs, hview, hkey, neg_errno_ne_zero _⟩

theorem inv_unlinkStep {result : Int} (hresult : result ≠ 0) :
    Inv m h (unlinkStep t key value result v) := by
  cases v with
  | fault e => exact inv_failed hs hview hresult
  | interrupted => exact inv_failed hs hview hresult
  | done count =>
    rw [unlinkStep]
    split
    · next hunlink =>
      obtain ⟨hs', hview'⟩ := stored_temporary hs hkey (Tree.unlink_ok hunlink) nofun
      exact inv_failed hs' (hview'.trans hview) hresult
    · exact inv_failed hs hview hresult

theorem inv_removeStep : Inv m h (removeStep t key v) := by
  cases v with
  | fault e => exact inv_failed hs hview e.neg_ne_zero
  | interrupted => exact inv_failed hs hview neg_EINTR_ne_zero
  | done count =>
    rw [removeStep]
    split
    · next hunlink =>
      obtain ⟨hs', hview'⟩ := stored_unlink hs hkey hunlink
      refine ⟨hs', ?_, trivial⟩
      rw [hview', hview]
      rfl
    · next hunlink =>
      refine ⟨hs, ?_, trivial⟩
      -- there was no such setting
      have hnone : Settings.view t key = none := by
        rw [view, if_pos hkey, Tree.unlink_missing hunlink]
        rfl
      calc Settings.view t = Function.update (Settings.view t) key none := by
            rw [← hnone, Function.update_eq_self]
        _ = _ := by rw [hview]; rfl
    · exact inv_failed hs hview (neg_errno_ne_zero _)

end Steps

theorem inv_silent {input : Input} (hnotes : (store.step s input).2 = [])
    (hinv : Inv m h (store.step s input).1) :
    Inv m (h ++ (store.step s input).2) (store.step s input).1 := by
  rwa [hnotes, append_nil]

/-- **The step lemma of the store.** -/
theorem inv_step (hinv : Inv m h s) (input : Input) :
    Inv m (h ++ (store.step s input).2) (store.step s input).1 := by
  obtain ⟨t, point⟩ := s
  obtain ⟨hs, hview, hkept⟩ := hinv
  cases input with
  | call c =>
    cases point with
    | idle =>
      have hbegin := inv_begin hs hview c
      refine ⟨hbegin.stored, hbegin.view.trans ?_, hbegin.kept⟩
      rw [settings, settings, foldl_append]
      rfl
    | _ => exact inv_silent rfl ⟨hs, hview, hkept⟩
  | go v =>
    cases point with
    | idle => exact inv_silent rfl ⟨hs, hview, hkept⟩
    | making key value rest =>
      cases rest with
      | nil => exact inv_silent rfl ⟨hs, hview, hkept.1⟩
      | cons d rest => exact inv_silent rfl (inv_makeStep hs hview hkept.1 hkept.2)
    | opening key value => exact inv_silent rfl (inv_openStep hs hview hkept)
    | writing key value rest =>
      obtain ⟨hkey, done, hvalue, hfile⟩ := hkept
      exact inv_silent rfl (inv_writeStep hs hview hkey hvalue hfile)
    | syncing key value => exact inv_silent rfl (inv_syncStep hs hview hkept.1 hkept.2)
    | closing key value result => exact inv_silent rfl (inv_closeStep hs hview hkept.1 hkept.2)
    | replacing key value => exact inv_silent rfl (inv_renameStep hs hview hkept.1 hkept.2)
    | unlinking key value result => exact inv_silent rfl (inv_unlinkStep hs hview hkept.1 hkept.2)
    | removing key => exact inv_silent rfl (inv_removeStep hs hview hkept)
    | returning c result =>
      refine ⟨hs, hview.trans ?_, trivial⟩
      rw [settings, settings, foldl_append]
      rfl

/-- **Saving and deleting do what they say**, whenever the power is lost. -/
theorem inv_run (hs : Stored t) (inputs : List Input) :
    Inv (view t) (store.history ⟨t, .idle⟩ inputs) (store.run ⟨t, .idle⟩ inputs) := by
  have hstep (h : List Note) (s : State) (input : Input) (hinv : Inv (Settings.view t) h s) :
      Inv (Settings.view t) (h ++ (store.step s input).2) (store.step s input).1 :=
    inv_step hinv input
  have hbegin : Inv (Settings.view t) [] ⟨t, .idle⟩ := ⟨hs, rfl, trivial⟩
  exact Machine.history_invariant hstep hbegin inputs

end Brickwright.Bluetooth.Settings
