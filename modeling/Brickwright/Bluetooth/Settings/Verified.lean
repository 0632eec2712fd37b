import Brickwright.Bluetooth.Settings.Loaded

/-!
# Saving, losing power and loading

* `tidy_run` — a temporary file is left only by a power loss while a save has it open, or if it
  could not be unlinked.
* `load_after_power_loss` — `settings_load` dispatches the settings, each once, and fails by a
  handler only, exactly if no temporary file is left.
-/

namespace Brickwright.Bluetooth.Settings

open Files Decimal
open List

variable {σ : Type*} {t t' : Tree} {s : State}

/-! ## Temporary files -/

/-- The save has the temporary file of the key. -/
def Point.Has (point : Point) (key : Key) : Prop :=
  match point with
  | .writing key' _ _ => key' = key
  | .syncing key' _ => key' = key
  | .closing key' _ _ => key' = key
  | .replacing key' _ => key' = key
  | .unlinking key' _ _ => key' = key
  | _ => False

/-- Every temporary file belongs to the save under way. -/
def Owned (s : State) : Prop :=
  ∀ key, validKey key = true → s.tree.lookup (temporary key) ≠ none → s.point.Has key

/-- The section is no `unlink` of a temporary file that fails. -/
def Unlinks (s : State) (input : Input) : Prop :=
  ∀ key value result, s.point = .unlinking key value result → ∀ v, input = .go v →
    ∃ count, v = .done count

variable {point point' : Point} {key : Key}

theorem owned_of_update {o : Option Node} (h : Owned ⟨t, point⟩)
    (ht : t'.lookup = Function.update t.lookup (temporary key) o)
    (hpoint : ∀ key', point.Has key' → key' = key) (hpoint' : o ≠ none → point'.Has key) :
    Owned ⟨t', point'⟩ := by
  intro key' hkey' hlookup
  rw [ht, Function.update_apply] at hlookup
  split at hlookup
  · next heq =>
    obtain rfl := temporary_inj.mp heq
    exact hpoint' hlookup
  · next hne =>
    exact absurd (congrArg temporary (hpoint key' (h key' hkey' hlookup))) hne

theorem owned_of_paths {p : Path} {o : Option Node} (h : Owned ⟨t, point⟩)
    (ht : t'.lookup = Function.update t.lookup p o)
    (hp : ∀ key, validKey key = true → temporary key ≠ p)
    (hpoint : ∀ key, point.Has key → point'.Has key) : Owned ⟨t', point'⟩ := by
  intro key hkey hlookup
  rw [ht, Function.update_of_ne (hp key hkey)] at hlookup
  exact hpoint key (h key hkey hlookup)

theorem owned_of_same (h : Owned ⟨t, point⟩)
    (hpoint : ∀ key, point.Has key → point'.Has key) : Owned ⟨t, point'⟩ :=
  fun key hkey hlookup => hpoint key (h key hkey hlookup)

theorem has_loop (key : Key) (value rest : Bytes) : (loop key value rest).Has key := by
  rw [loop]
  split <;> rfl

theorem has_closed (key : Key) (value : Bytes) (result : Int) :
    (closed key value result).Has key := by
  rw [closed]
  split <;> rfl

theorem temporary_ne_above {key key' : Key} {d r : Path} (hkey : validKey key = true)
    (hd : path key = child d r) : temporary key' ≠ d := by
  rintro rfl
  exact not_validKey_temporary key' (validKey_above hkey hd)

theorem unlink_refused {e : Tree.Refusal} (hs : Stored t)
    (h : t.unlink (temporary key) = .error e) : t.lookup (temporary key) = none := by
  rcases Tree.unlink_error h with hnone | hdir
  · exact hnone
  · rcases hs.named _ _ hdir with hvalid | ⟨_, bytes, -, -, hfile⟩
    · exact absurd hvalid (not_validKey_temporary key)
    · cases hfile

/-- A temporary file belongs to the save that has it open, after each step. -/
theorem owned_step {m : Values} {h : List Note} (hinv : Inv m h s) (howned : Owned s)
    {input : Input} (hallowed : Unlinks s input) : Owned (store.step s input).1 := by
  obtain ⟨t, point⟩ := s
  have hkept := hinv.kept
  cases input with
  | call c =>
    cases point with
    | idle => exact owned_of_same howned fun _ => False.elim
    | _ => exact howned
  | go v =>
    cases point with
    | idle => exact howned
    | making key value rest =>
      cases rest with
      | nil => exact owned_of_same howned fun _ => False.elim
      | cons d rest =>
        change Owned (makeStep t key value d rest v)
        obtain ⟨r, hd⟩ := hkept.2 d mem_cons_self
        cases v with
        | done count =>
          rw [makeStep]
          split
          · next hmkdir =>
            exact owned_of_paths howned (Tree.mkdir_ok hmkdir).2
              (fun key' _ => temporary_ne_above hkept.1 hd) fun _ => False.elim
          · exact owned_of_same howned fun _ => False.elim
          · exact owned_of_same howned fun _ => False.elim
        | _ => exact owned_of_same howned fun _ => False.elim
    | opening key value =>
      change Owned (openStep t key value v)
      cases v with
      | done count =>
        rw [openStep]
        split
        · next hcreate =>
          exact owned_of_update howned (Tree.create_ok hcreate).2 (fun _ => False.elim)
            fun _ => has_loop key value value
        · exact owned_of_same howned fun _ => False.elim
      | _ => exact owned_of_same howned fun _ => False.elim
    | writing key value rest =>
      obtain ⟨hkey, done, hvalue, hfile⟩ := hkept
      change Owned (writeStep t key value rest v)
      cases v with
      | done count =>
        rw [writeStep]
        split
        · exact owned_of_same howned fun _ => id
        · exact owned_of_update howned (Tree.lookup_append hfile _) (fun _ => Eq.symm)
            fun _ => has_loop key value _
      | _ => exact owned_of_same howned fun _ => id
    | syncing key value =>
      cases v <;> exact owned_of_same howned fun _ => id
    | closing key value result =>
      have hnext (result : Int) : Owned ⟨t, closed key value result⟩ := by
        refine owned_of_same howned fun key' hkey' => ?_
        rw [← (show key = key' from hkey')]
        exact has_closed key value result
      cases v <;> exact hnext _
    | replacing key value =>
      change Owned (renameStep t key value v)
      cases v with
      | done count =>
        rw [renameStep]
        split
        · next hrename =>
          obtain ⟨bytes, hbytes, ht⟩ := Tree.rename_ok hrename
          -- the rename takes the temporary file of this key away, and there is no other
          intro key' hkey' hlookup
          rw [ht, Function.update_of_ne (temporary_ne_path hkept.1), Function.update_apply]
            at hlookup
          split at hlookup
          · exact absurd rfl hlookup
          · next hne => exact absurd (congrArg temporary (howned key' hkey' hlookup).symm) hne
        · exact owned_of_same howned fun _ => id
      | _ => exact owned_of_same howned fun _ => id
    | unlinking key value result =>
      obtain ⟨count, rfl⟩ := hallowed key value result rfl v rfl
      change Owned (unlinkStep t key value result (.done count))
      rw [unlinkStep]
      split
      · next hunlink =>
        exact owned_of_update howned (Tree.unlink_ok hunlink) (fun _ => Eq.symm)
          fun h => absurd rfl h
      · next hunlink =>
        intro key' hkey' hlookup
        obtain rfl : key = key' := howned key' hkey' hlookup
        exact absurd (unlink_refused hinv.stored hunlink) hlookup
    | removing key =>
      change Owned (removeStep t key v)
      cases v with
      | done count =>
        rw [removeStep]
        split
        · next hunlink =>
          exact owned_of_paths howned (Tree.unlink_ok hunlink)
            (fun key' _ => temporary_ne_path hkept) fun _ => False.elim
        · exact owned_of_same howned fun _ => False.elim
        · exact owned_of_same howned fun _ => False.elim
      | _ => exact owned_of_same howned fun _ => False.elim
    | returning c result => exact owned_of_same howned fun _ => False.elim

/-- **When a temporary file is left**: only while a save has it open, if none fails to be
unlinked. -/
theorem tidy_run {fs : Tree} (hs : Stored fs) (htidy : Tidy fs) {inputs : List Input}
    (hallowed : store.Throughout Unlinks ⟨fs, .idle⟩ inputs)
    (hpoint : ∀ key, ¬ (store.run ⟨fs, .idle⟩ inputs).point.Has key) :
    Tidy (store.run ⟨fs, .idle⟩ inputs).tree := by
  have hstep (h : List Note) (s : State) (input : Input)
      (hinv : Inv (view fs) h s ∧ Owned s) (hinput : Unlinks s input) :
      Inv (view fs) (h ++ (store.step s input).2) (store.step s input).1 ∧
        Owned (store.step s input).1 :=
    ⟨inv_step hinv.1 input, owned_step hinv.1 hinv.2 hinput⟩
  have hbegin : Inv (view fs) [] ⟨fs, .idle⟩ ∧ Owned ⟨fs, .idle⟩ :=
    ⟨⟨hs, rfl, trivial⟩, fun key hkey hlookup => absurd (htidy key hkey) hlookup⟩
  obtain ⟨-, howned⟩ := Machine.history_invariant_of hstep hbegin inputs hallowed
  intro key hkey
  by_contra hlookup
  exact hpoint key (howned key hkey hlookup)

/-! ## Loading -/

/-- A handler's `h_set` has answered with an error. -/
def Refuses (handlers : List (Handler σ)) (result : Int) : Prop :=
  result ≠ 0 ∧ ∃ handler ∈ handlers, ∃ set, handler.set = some set ∧
    ∃ relative value c, (set relative value c).1 = result

/-- A handler's `h_commit` has. -/
def CommitFails (handlers : List (Handler σ)) (result : Int) : Prop :=
  result ≠ 0 ∧ ∃ handler ∈ handlers, ∃ commit, handler.commit = some commit ∧
    ∃ c, (commit c).1 = result

/-- What a load is to do: it dispatches each setting once, with its value, and fails by a handler
only; it dispatches all of them unless a handler refuses one. -/
structure Dispatches (values : Values) (handlers : List (Handler σ)) (v : Visit σ) : Prop where
  once : (v.visits.map Prod.fst).Nodup
  sound : ∀ x ∈ v.visits, values x.1 = some x.2
  complete : Refuses handlers v.result ∨
    ∀ key value, values key = some value → (key, value) ∈ v.visits
  answered : v.result = 0 ∨ Refuses handlers v.result ∨ CommitFails handlers v.result

theorem refuses_of_dispatch {handlers : List (Handler σ)} {value : Bytes} {c : σ}
    {result : Int} (hresult : result ≠ 0)
    (h : (dispatchSetting handlers key value c).1 = result) : Refuses handlers result := by
  induction handlers with
  | nil => exact absurd h.symm hresult
  | cons handler handlers ih =>
    rw [dispatchSetting] at h
    split at h
    · next set relative hset hname =>
      exact ⟨hresult, handler, mem_cons_self, set, hset, relative, value, c, h⟩
    · obtain ⟨-, handler', hmem, hrest⟩ := ih h
      exact ⟨hresult, handler', mem_cons_of_mem _ hmem, hrest⟩

theorem commitFails_of_commitAll {handlers : List (Handler σ)} {c : σ}
    (h : (commitAll handlers c).1 ≠ 0) : CommitFails handlers (commitAll handlers c).1 := by
  induction handlers generalizing c with
  | nil => exact absurd rfl h
  | cons handler handlers ih =>
    have hlater {result : Int} (h : CommitFails handlers result) :
        CommitFails (handler :: handlers) result :=
      ⟨h.1, h.2.imp fun _ h => ⟨mem_cons_of_mem _ h.1, h.2⟩⟩
    rw [commitAll] at h ⊢
    split at h
    · exact hlater (ih h)
    · next commit hcommit =>
      dsimp only at h ⊢
      split at h
      · next hfailed =>
        rw [if_pos hfailed]
        exact ⟨h, handler, mem_cons_self, commit, hcommit, c, rfl⟩
      · next hzero =>
        rw [if_neg hzero]
        exact hlater (ih h)

theorem view_eq_some {value : Bytes} :
    view t key = some value ↔ validKey key = true ∧ t.lookup (path key) = some (.file value) := by
  rw [view]
  split
  · next hkey =>
    rw [and_iff_right hkey]
    cases t.lookup (path key) with
    | none => exact ⟨by rintro ⟨⟩, by rintro ⟨⟩⟩
    | some node =>
      cases node with
      | dir => exact ⟨by rintro ⟨⟩, by rintro ⟨⟩⟩
      | file bytes =>
        rw [valueOf, Option.some.injEq, Option.some.injEq, Node.file.injEq]
  · next hkey => exact ⟨by rintro ⟨⟩, fun h => absurd h.1 hkey⟩

section Load

variable {readdir : Path → List Path} {handlers : List (Handler σ)} {c : σ}

theorem settingsLoad_visits : (settingsLoad t readdir handlers c).visits =
    (visitDirectory t readdir [] (dispatchSetting handlers) depth [] c).visits := by
  rw [settingsLoad]
  split <;> rfl

theorem load_complete (hs : Stored t) (hlists : Lists t readdir)
    (hresult : (visitDirectory t readdir [] (dispatchSetting handlers) depth [] c).result = 0)
    {key : Key} {value : Bytes} (hfile : t.lookup (path key) = some (.file value)) :
    (key, value) ∈ (settingsLoad t readdir handlers c).visits := by
  rw [settingsLoad_visits]
  exact visit_complete hs hlists hresult hfile (.inl rfl)

/-- **Loading a store without temporary files.** -/
theorem dispatches_of_tidy (hs : Stored t) (htidy : Tidy t) (hlists : Lists t readdir) :
    Dispatches (view t) handlers (settingsLoad t readdir handlers c) := by
  have hrefused (hresult :
      (visitDirectory t readdir [] (dispatchSetting handlers) depth [] c).result ≠ 0) :
      Refuses handlers
        (visitDirectory t readdir [] (dispatchSetting handlers) depth [] c).result := by
    obtain ⟨key, value, c', h⟩ := visit_refused hs htidy hlists (.inl rfl) (Nat.le_refl 128) hresult
    exact refuses_of_dispatch hresult h
  constructor
  case once =>
    rw [settingsLoad_visits]
    exact (visit_nodup hs hlists c).1
  case sound =>
    intro x hx
    rw [settingsLoad_visits] at hx
    have hfile := visit_sound hx
    exact view_eq_some.mpr
      ⟨validKey_of_tidy hs htidy (hfile ▸ Option.some_ne_none _), hfile⟩
  case complete =>
    by_cases hresult :
        (visitDirectory t readdir [] (dispatchSetting handlers) depth [] c).result = 0
    · exact .inr fun key value hvalue =>
        load_complete hs hlists hresult (view_eq_some.mp hvalue).2
    · refine .inl ?_
      rw [settingsLoad]
      rw [if_pos hresult]
      exact hrefused hresult
  case answered =>
    rw [settingsLoad]
    split
    · next hresult => exact .inr (.inl (hrefused hresult))
    · by_cases hcommit : (commitAll handlers (visitDirectory t readdir []
          (dispatchSetting handlers) depth [] c).context).1 = 0
      · exact .inl hcommit
      · exact .inr (.inr (commitFails_of_commitAll hcommit))

end Load

/-- A temporary file is dispatched, or the load fails because of it. -/
theorem tidy_of_dispatches (hs : Stored t) {readdir : Path → List Path} (hlists : Lists t readdir)
    (h : Dispatches (view t) [] (settingsLoad t readdir ([] : List (Handler Unit)) ())) :
    Tidy t := by
  have hzero : (settingsLoad t readdir ([] : List (Handler Unit)) ()).result = 0 := by
    rcases h.answered with hzero | ⟨-, handler, hmem, -⟩ | ⟨-, handler, hmem, -⟩
    · exact hzero
    · cases hmem
    · cases hmem
  have hresult : (visitDirectory t readdir [] (dispatchSetting ([] : List (Handler Unit))) depth []
      ()).result = 0 := by
    by_contra hresult
    rw [settingsLoad] at hzero
    rw [if_pos hresult] at hzero
    exact hresult hzero
  intro key hkey
  by_contra hlookup
  obtain ⟨node, hnode⟩ := Option.ne_none_iff_exists'.mp hlookup
  rcases hs.named _ _ hnode with hvalid | ⟨_, bytes, -, -, rfl⟩
  · exact not_validKey_temporary key hvalid
  · have hvalue := h.sound _ (load_complete hs hlists hresult hnode)
    exact not_validKey_temporary key (view_eq_some.mp hvalue).1

/-- **Settings and power loss.** Whenever a run of saves and deletes from a store is cut off, the
files hold the settings that the calls which have returned have made, or those and the one of the
call that is to return. A later load dispatches these, each once, whatever the handlers do, exactly
if no temporary file is left. Distinct keys never share a file or a temporary file. -/
theorem load_after_power_loss (fs : Tree) (hfs : Stored fs) (inputs : List Input) :
    (view (store.run ⟨fs, .idle⟩ inputs).tree =
        settings (view fs) (store.history ⟨fs, .idle⟩ inputs) ∨
      ∃ c, (store.run ⟨fs, .idle⟩ inputs).point = .returning c 0 ∧
        view (store.run ⟨fs, .idle⟩ inputs).tree =
          c.apply (settings (view fs) (store.history ⟨fs, .idle⟩ inputs))) ∧
    (Tidy (store.run ⟨fs, .idle⟩ inputs).tree ↔
      ∀ (σ : Type) (readdir : Path → List Path) (handlers : List (Handler σ)) (c : σ),
        Lists (store.run ⟨fs, .idle⟩ inputs).tree readdir →
        Dispatches (view (store.run ⟨fs, .idle⟩ inputs).tree) handlers
          (settingsLoad (store.run ⟨fs, .idle⟩ inputs).tree readdir handlers c)) ∧
    ∀ key key', validKey key = true → validKey key' = true → key ≠ key' →
      path key ≠ path key' ∧ temporary key ≠ temporary key' ∧ temporary key ≠ path key' := by
  have hinv := inv_run hfs inputs
  refine ⟨?_, ⟨fun htidy σ readdir handlers c hlists =>
    dispatches_of_tidy hinv.stored htidy hlists, fun h => ?_⟩, fun key key' _ hkey' hne => ?_⟩
  · rw [hinv.view]
    cases (store.run ⟨fs, .idle⟩ inputs).point with
    | returning c result =>
      rw [Point.apply]
      split
      · next hresult => exact .inr ⟨c, by rw [hresult], rfl⟩
      · exact .inl rfl
    | _ => exact .inl rfl
  · have hlists : Lists (store.run ⟨fs, .idle⟩ inputs).tree fun d =>
        text "." :: text ".." :: (store.run ⟨fs, .idle⟩ inputs).tree.names d :=
      fun _ => List.Perm.refl _
    exact tidy_of_dispatches hinv.stored hlists (h Unit _ [] () hlists)
  · exact ⟨fun h => hne (path_inj.mp h), fun h => hne (temporary_inj.mp h),
      temporary_ne_path hkey'⟩

/-- The flash is mounted, and nothing has been saved. -/
def mounted : Tree where
  entries := (AList.insert (text "/mnt/flash") Node.dir
    (AList.insert (text "/mnt") Node.dir ∅) : AList fun _ : Path => Node)
  closed p node h := by
    by_cases hflash : p = text "/mnt/flash"
    · subst hflash
      exact .inr (by decide)
    · rw [AList.lookup_insert_ne hflash] at h
      by_cases hmnt : p = text "/mnt"
      · subst hmnt
        exact .inl (by decide)
      · rw [AList.lookup_insert_ne hmnt] at h
        cases h

theorem lookup_mounted {p : Path} (h : 31 ≤ p.length) : mounted.lookup p = none := by
  have hflash : p ≠ text "/mnt/flash" := by
    rintro rfl
    revert h
    decide
  have hmnt : p ≠ text "/mnt" := by
    rintro rfl
    revert h
    decide
  exact (AList.lookup_insert_ne hflash).trans (AList.lookup_insert_ne hmnt)

theorem stored_mounted : Stored mounted := by
  refine ⟨fun bytes => ?_, fun rel node h => ?_⟩
  · exact nofun
  · cases h

theorem view_mounted : view mounted = fun _ => none := by
  funext key
  exact ite_self _

theorem tidy_mounted : Tidy mounted := by
  intro key _
  refine lookup_mounted ?_
  rw [temporary_eq, length_path]
  omega

/-- The directories in the order of the tree. -/
def listing (t : Tree) (d : Path) : List Path := text "." :: text ".." :: t.names d

/-- A save as a whole, which writes all at once. -/
def saveWhole : List Input :=
  .call (.save (text "a") [1, 2, 3]) :: List.replicate 9 (.go (.done 3))

theorem tidy_saveWhole : Tidy (store.run ⟨mounted, .idle⟩ saveWhole).tree := by
  have hall : store.Throughout Unlinks ⟨mounted, .idle⟩ saveWhole := by
    refine Machine.throughout_of_forall _ (fun input hmem s => ?_) _
    rcases mem_cons.mp hmem with rfl | hmem
    · exact fun _ _ _ _ v h => nomatch h
    · intro _ _ _ _ v hv
      rw [eq_of_mem_replicate hmem] at hv
      cases hv
      exact ⟨3, rfl⟩
  exact tidy_run stored_mounted tidy_mounted hall fun _ => id

theorem load_after_save : Dispatches (view (store.run ⟨mounted, .idle⟩ saveWhole).tree)
    ([] : List (Handler Unit)) (settingsLoad (store.run ⟨mounted, .idle⟩ saveWhole).tree
      (listing (store.run ⟨mounted, .idle⟩ saveWhole).tree) [] ()) :=
  (load_after_power_loss mounted stored_mounted saveWhole).2.1.mp tidy_saveWhole Unit _ [] ()
    fun _ => List.Perm.refl _

/-- A save that loses its power in the `write`, when it has taken one byte of three. -/
def saveCut (key : Key) : List Input :=
  .call (.save key [1, 2, 3]) :: List.replicate 5 (.go (.done 1))

/-- Nothing has been saved, and the load dispatches a value; or, of a key that is long enough, it
fails with no handler there to refuse one. -/
theorem temporary_file_loaded :
    settings (view mounted) (store.history ⟨mounted, .idle⟩ (saveCut (text "a"))) =
        (fun _ => none) ∧
      (settingsLoad (store.run ⟨mounted, .idle⟩ (saveCut (text "a"))).tree
        (listing (store.run ⟨mounted, .idle⟩ (saveCut (text "a"))).tree)
        ([] : List (Handler Unit)) ()).visits = [(text "a.tmp", [1])] ∧
      (settingsLoad (store.run ⟨mounted, .idle⟩ (saveCut (List.replicate 124 97))).tree
        (listing (store.run ⟨mounted, .idle⟩ (saveCut (List.replicate 124 97))).tree)
        ([] : List (Handler Unit)) ()).result = -ENAMETOOLONG := by
  refine ⟨?_, by decide, by decide +kernel⟩
  rw [view_mounted]
  rfl

end Brickwright.Bluetooth.Settings
