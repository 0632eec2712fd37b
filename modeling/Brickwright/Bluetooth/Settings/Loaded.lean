import Brickwright.Bluetooth.Settings.Saved
import Mathlib.Data.List.TakeWhile

/-!
# What the loader visits

`visit_directory` visits files only, each once (`visit_sound`, `visit_nodup`); if its result is 0 it
has visited every file below the directory (`visit_complete`); and below the root of a store without
temporary files its result is that of a visitor (`visit_refused`).
-/

namespace Brickwright.Bluetooth.Settings

open Files Decimal
open List

variable {σ : Type*} {t : Tree} {readdir : Path → List Path} {subtree : Key} {visitor : Visitor σ}

/-- The directories are listed, in any order. -/
def Lists (t : Tree) (readdir : Path → List Path) : Prop :=
  ∀ d, (readdir d).Perm (text "." :: text ".." :: t.names d)

/-! ## Paths -/

theorem path_join (relative name : Path) :
    path (join relative name) = child (directory relative) name := by
  rw [join, directory]
  split
  · rfl
  · exact child_child SETTINGS_ROOT relative name

theorem join_append {relative name r : Path} (h : join relative name ≠ []) :
    join relative (name ++ slash :: r) = join (join relative name) r := by
  rw [join, join, join]
  by_cases hrelative : relative = []
  · rw [if_pos hrelative, if_pos hrelative]
    rw [join, if_pos hrelative] at h
    rw [if_neg h, child]
  · rw [if_neg hrelative, if_neg hrelative]
    rw [join, if_neg hrelative] at h
    rw [if_neg h, child_child]

theorem join_inj {relative name name' : Path} :
    join relative name = join relative name' ↔ name = name' := by
  rw [join, join]
  split
  · exact Iff.rfl
  · exact child_inj

theorem length_lt_join {relative name : Path} (h : join relative name ≠ []) :
    relative.length < (join relative name).length := by
  rw [join] at h ⊢
  split
  · next hrelative =>
    rw [if_pos hrelative] at h
    rw [hrelative]
    exact length_pos_iff.mpr h
  · rw [child, length_append, length_cons]
    omega

theorem directory_ne_nil (relative : Path) : directory relative ≠ [] := by
  rw [directory]
  split
  · decide
  · simp [child]

def Under (relative key : Path) : Prop := ∃ r, key = join relative r

/-- It is the one of an entry, or below it. -/
def Has (relative name : Path) (key : Key) : Prop :=
  key = join relative name ∨ ∃ r, key = join relative (name ++ slash :: r)

theorem name_unique {relative name name' key : Path} (hname : slash ∉ name)
    (hname' : slash ∉ name') (h : Has relative name key) (h' : Has relative name' key) :
    name = name' := by
  have htake (n r : Path) (hn : slash ∉ n) : (n ++ slash :: r).takeWhile (· ≠ slash) = n := by
    rw [takeWhile_append_of_pos, takeWhile_cons_of_neg (by simp), append_nil]
    intro b hb
    have hne : b ≠ slash := by
      rintro rfl
      exact hn hb
    simpa using hne
  have hself (n : Path) (hn : slash ∉ n) : n.takeWhile (· ≠ slash) = n := by
    rw [takeWhile_eq_self_iff]
    intro b hb
    have hne : b ≠ slash := by
      rintro rfl
      exact hn hb
    simpa using hne
  rcases h with rfl | ⟨r, rfl⟩ <;> rcases h' with h' | ⟨r', h'⟩ <;>
    have h' := congrArg (List.takeWhile (· ≠ slash)) (join_inj.mp h')
  · rwa [hself name hname, hself name' hname'] at h'
  · rwa [hself name hname, htake name' r' hname'] at h'
  · rwa [htake name r hname, hself name' hname'] at h'
  · rwa [htake name r hname, htake name' r' hname'] at h'

/-! ## The loop over a directory -/

variable {one : Path → σ → Visit σ} {names : List Path}

variable {c : σ} {x : Key × Bytes}

theorem mem_visitAll (h : x ∈ (visitAll one names c).visits) :
    ∃ name ∈ names, ∃ c', x ∈ (one name c').visits := by
  induction names generalizing c with
  | nil => cases h
  | cons name names ih =>
    rw [visitAll] at h
    split at h
    · exact ⟨name, mem_cons_self, c, h⟩
    · rcases mem_append.mp h with h | h
      · exact ⟨name, mem_cons_self, c, h⟩
      · obtain ⟨name', hname', c', h⟩ := ih h
        exact ⟨name', mem_cons_of_mem _ hname', c', h⟩

theorem visitAll_complete (h : (visitAll one names c).result = 0) {name : Path}
    (hname : name ∈ names) : ∃ c', (one name c').result = 0 ∧
      (one name c').visits ⊆ (visitAll one names c).visits := by
  induction names generalizing c with
  | nil => cases hname
  | cons name' names ih =>
    rw [visitAll] at h ⊢
    split at h
    · next hfailed => exact absurd h hfailed
    · next hzero =>
      rw [if_neg hzero]
      rcases mem_cons.mp hname with rfl | hname
      · exact ⟨c, not_not.mp hzero, subset_append_left ..⟩
      · obtain ⟨c', hresult, hsub⟩ := ih h hname
        exact ⟨c', hresult, List.Subset.trans hsub (subset_append_right ..)⟩

theorem visitAll_failed (h : (visitAll one names c).result ≠ 0) :
    ∃ name ∈ names, ∃ c', (one name c').result = (visitAll one names c).result := by
  induction names generalizing c with
  | nil => exact absurd rfl h
  | cons name names ih =>
    rw [visitAll] at h ⊢
    split at h
    · next hfailed =>
      rw [if_pos hfailed]
      exact ⟨name, mem_cons_self, c, rfl⟩
    · next hzero =>
      rw [if_neg hzero]
      obtain ⟨name', hname', c', hresult⟩ := ih h
      exact ⟨name', mem_cons_of_mem _ hname', c', hresult⟩

theorem nodup_visitAll {relative : Path} (hnames : names.Nodup)
    (hone : ∀ name ∈ names, ∀ c, ((one name c).visits.map Prod.fst).Nodup)
    (hhas : ∀ name ∈ names, ∀ c, ∀ x ∈ (one name c).visits, Has relative name x.1)
    (hslash : ∀ name ∈ names, slash ∉ name) :
    ((visitAll one names c).visits.map Prod.fst).Nodup := by
  induction names generalizing c with
  | nil => exact nodup_nil
  | cons name names ih =>
    rw [visitAll]
    split
    · exact hone name mem_cons_self c
    · rw [map_append, nodup_append']
      refine ⟨hone name mem_cons_self c, ?_, ?_⟩
      · exact ih (nodup_cons.mp hnames).2
          (fun n hn => hone n (mem_cons_of_mem _ hn))
          (fun n hn => hhas n (mem_cons_of_mem _ hn))
          fun n hn => hslash n (mem_cons_of_mem _ hn)
      · intro key hkey hkey'
        obtain ⟨x, hx, rfl⟩ := mem_map.mp hkey
        obtain ⟨x', hx', heq⟩ := mem_map.mp hkey'
        obtain ⟨name', hname', c', hx'⟩ := mem_visitAll hx'
        have hhas' := hhas name' (mem_cons_of_mem _ hname') c' x' hx'
        rw [heq] at hhas'
        have hsame := name_unique (hslash name mem_cons_self)
          (hslash name' (mem_cons_of_mem _ hname')) (hhas name mem_cons_self c x hx) hhas'
        exact (nodup_cons.mp hnames).1 (hsame ▸ hname')

/-! ## One entry -/

variable {below : Path → σ → Visit σ} {relative name : Path}

inductive Entry (t : Tree) (subtree : Key) (visitor : Visitor σ) (below : Path → σ → Visit σ)
    (relative name : Path) (c : σ) : Visit σ → Prop
  | skipped (hdots : name = text "." ∨ name = text "..") :
      Entry t subtree visitor below relative name c ⟨[], 0, c⟩
  | tooLong (hname : ¬ (name = text "." ∨ name = text ".."))
      (hlong : (join relative name).length ≥ 128 ∨
        (path (join relative name)).length ≥ SETTINGS_PATH_MAX) :
      Entry t subtree visitor below relative name c ⟨[], -ENAMETOOLONG, c⟩
  | missing (hname : ¬ (name = text "." ∨ name = text ".."))
      (hnone : t.lookup (path (join relative name)) = none) :
      Entry t subtree visitor below relative name c ⟨[], -ENOENT, c⟩
  | directory (hdir : t.lookup (path (join relative name)) = some .dir) :
      Entry t subtree visitor below relative name c (below (join relative name) c)
  | other (value : Bytes) (hfile : t.lookup (path (join relative name)) = some (.file value))
      (hsubtree : ¬ inSubtree subtree (join relative name)) :
      Entry t subtree visitor below relative name c ⟨[], 0, c⟩
  | setting (value : Bytes) (hfile : t.lookup (path (join relative name)) = some (.file value)) :
      Entry t subtree visitor below relative name c ⟨[(join relative name, value)],
        (visitor (join relative name) value c).1, (visitor (join relative name) value c).2⟩

theorem entry (t : Tree) (subtree : Key) (visitor : Visitor σ) (below : Path → σ → Visit σ)
    (relative name : Path) (c : σ) : Entry t subtree visitor below relative name c
      (visitEntry t subtree visitor below relative name c) := by
  rw [visitEntry]
  split
  · next hdots => exact .skipped hdots
  · next hname =>
    dsimp only
    split
    · next hlong => exact .tooLong hname (.inl hlong)
    · split
      · next hlong => exact .tooLong hname (.inr hlong)
      · split
        · next hnone => exact .missing hname hnone
        · next hdir => exact .directory hdir
        · next value hfile =>
          split
          · next hsubtree => exact .other value hfile hsubtree
          · exact .setting value hfile

/-! ## What is visited -/

theorem neg_ENAMETOOLONG_ne_zero : -ENAMETOOLONG ≠ 0 := by decide

theorem neg_ENOENT_ne_zero : -ENOENT ≠ 0 := by decide

variable {depth : Nat}

theorem visitDirectory_dir (hroot : (directory relative).length < SETTINGS_PATH_MAX)
    (hdir : t.lookup (directory relative) = some .dir) :
    visitDirectory t readdir subtree visitor (depth + 1) relative c =
      visitAll (visitEntry t subtree visitor
        (visitDirectory t readdir subtree visitor depth) relative)
        (readdir (directory relative)) c := by
  rw [visitDirectory, if_neg (Nat.not_le.mpr hroot), hdir]

theorem mem_visitDirectory
    (h : x ∈ (visitDirectory t readdir subtree visitor (depth + 1) relative c).visits) :
    ∃ name ∈ readdir (directory relative), ∃ c', x ∈ (visitEntry t subtree visitor
      (visitDirectory t readdir subtree visitor depth) relative name c').visits := by
  rw [visitDirectory] at h
  split at h
  · cases h
  · split at h
    · cases h
    · cases h
    · exact mem_visitAll h

/-- **Files only are visited**, with their values. -/
theorem visit_sound (h : x ∈ (visitDirectory t readdir subtree visitor depth relative c).visits) :
    t.lookup (path x.1) = some (.file x.2) := by
  induction depth generalizing relative c with
  | zero => cases h
  | succ depth ih =>
    obtain ⟨name, -, c', h⟩ := mem_visitDirectory h
    have hentry := entry t subtree visitor (visitDirectory t readdir subtree visitor depth)
      relative name c'
    generalize visitEntry t subtree visitor _ relative name c' = v at h hentry
    cases hentry with
    | skipped => cases h
    | tooLong => cases h
    | missing => cases h
    | directory => exact ih h
    | other => cases h
    | setting value hfile =>
      cases mem_singleton.mp h
      exact hfile

/-! ## Below the root -/

section Root

variable (hs : Stored t) (hlists : Lists t readdir)
include hs

/-- There is no entry with the name of a directory itself or of the one above it. -/
theorem not_dots (hlookup : t.lookup (path (join relative name)) ≠ none) :
    name ≠ text "." ∧ name ≠ text ".." := by
  obtain ⟨node, hnode⟩ := Option.ne_none_iff_exists'.mp hlookup
  have hlast : ∀ name', name = name' → (46 : UInt8) ∈ name' → name'.getLast? = some 46 → False := by
    rintro _ rfl hmem hdot
    have hjoin : (join relative name).getLast? = some 46 ∧ (46 : UInt8) ∈ join relative name := by
      rw [join]
      split
      · exact ⟨hdot, hmem⟩
      · rw [child, List.getLast?_append, List.getLast?_cons, hdot]
        exact ⟨rfl, mem_append_right _ (mem_cons_of_mem _ hmem)⟩
    rcases hs.named _ node hnode with hvalid | ⟨key, bytes, -, hrel, -⟩
    · exact dot_not_mem hvalid hjoin.2
    · rw [hrel, List.getLast?_append, show (text ".tmp").getLast? = some 112 by decide] at hjoin
      exact absurd hjoin.1 (by simp)
  exact ⟨fun h => hlast _ h (by decide) (by decide), fun h => hlast _ h (by decide) (by decide)⟩

theorem join_ne_nil (hlookup : t.lookup (path (join relative name)) ≠ none) :
    join relative name ≠ [] := by
  obtain ⟨node, hnode⟩ := Option.ne_none_iff_exists'.mp hlookup
  intro hnil
  rw [hnil] at hnode
  rcases hs.named _ node hnode with hvalid | ⟨key, bytes, -, hrel, -⟩
  · cases hvalid
  · exact absurd hrel.symm (by simp [text])

omit hs in
include hlists in
theorem mem_readdir : name ∈ readdir (directory relative) ↔
    name = text "." ∨ name = text ".." ∨
      slash ∉ name ∧ t.lookup (path (join relative name)) ≠ none := by
  rw [(hlists _).mem_iff, mem_cons, mem_cons, Tree.mem_names, path_join]

include hlists

theorem nodup_readdir : (readdir (directory relative)).Nodup := by
  rw [(hlists _).nodup_iff, nodup_cons, nodup_cons, mem_cons]
  have hnot (name : Path) (hname : name = text "." ∨ name = text "..") :
      name ∉ t.names (directory relative) := by
    intro hmem
    have hlookup := (Tree.mem_names.mp hmem).2
    rw [← path_join] at hlookup
    exact hname.elim (not_dots hs hlookup).1 (not_dots hs hlookup).2
  refine ⟨?_, hnot _ (.inr rfl), Tree.nodup_names⟩
  rintro (h | h)
  · exact absurd h (by decide)
  · exact hnot _ (.inl rfl) h

/-- **Every key once.** -/
theorem visit_nodup (c : σ) :
    ((visitDirectory t readdir subtree visitor depth relative c).visits.map Prod.fst).Nodup ∧
      ∀ x ∈ (visitDirectory t readdir subtree visitor depth relative c).visits,
        Under relative x.1 := by
  induction depth generalizing relative c with
  | zero => exact ⟨nodup_nil, fun _ hx => nomatch hx⟩
  | succ depth ih =>
    have hone (name : Path) (c : σ) : ((visitEntry t subtree visitor
          (visitDirectory t readdir subtree visitor depth) relative name c).visits.map
            Prod.fst).Nodup ∧
        ∀ x ∈ (visitEntry t subtree visitor (visitDirectory t readdir subtree visitor depth)
          relative name c).visits, Has relative name x.1 := by
      have hentry := entry t subtree visitor (visitDirectory t readdir subtree visitor depth)
        relative name c
      generalize visitEntry t subtree visitor _ relative name c = v at hentry
      cases hentry with
      | skipped => exact ⟨nodup_nil, fun _ hx => nomatch hx⟩
      | tooLong => exact ⟨nodup_nil, fun _ hx => nomatch hx⟩
      | missing => exact ⟨nodup_nil, fun _ hx => nomatch hx⟩
      | directory hdir =>
        refine ⟨(ih c).1, fun x hx => .inr ?_⟩
        obtain ⟨r, hr⟩ := (ih c).2 x hx
        have hne := join_ne_nil hs (hdir ▸ Option.some_ne_none _)
        exact ⟨r, by rw [hr, join_append hne]⟩
      | other => exact ⟨nodup_nil, fun _ hx => nomatch hx⟩
      | setting value hfile =>
        refine ⟨nodup_singleton _, fun x hx => ?_⟩
        cases mem_singleton.mp hx
        exact .inl rfl
    constructor
    · rw [visitDirectory]
      split
      · exact nodup_nil
      · split
        · exact nodup_nil
        · exact nodup_nil
        · refine nodup_visitAll (nodup_readdir hs hlists) (fun name _ c => (hone name c).1)
            (fun name _ c => (hone name c).2) fun name hname => ?_
          rcases (mem_readdir hlists).mp hname with rfl | rfl | ⟨hslash, -⟩
          · decide
          · decide
          · exact hslash
    · intro x hx
      obtain ⟨name, -, c', hx⟩ := mem_visitDirectory hx
      rcases (hone name c').2 x hx with hx | ⟨r, hx⟩
      · exact ⟨name, hx⟩
      · exact ⟨_, hx⟩

/-- **A visit that succeeds has visited every file.** -/
theorem visit_complete {c : σ}
    (hresult : (visitDirectory t readdir subtree visitor depth relative c).result = 0)
    {r : Path} {value : Bytes} (hfile : t.lookup (path (join relative r)) = some (.file value))
    (hsubtree : inSubtree subtree (join relative r)) :
    (join relative r, value) ∈
      (visitDirectory t readdir subtree visitor depth relative c).visits := by
  induction depth generalizing relative r c with
  | zero => exact absurd hresult neg_ENAMETOOLONG_ne_zero
  | succ depth ih =>
    have hsome : t.lookup (path (join relative r)) ≠ none := hfile ▸ Option.some_ne_none _
    have hdir : t.lookup (directory relative) = some .dir := by
      have habove : t.IsDir (directory relative) := by
        rw [path_join] at hsome
        exact Tree.isDir_of_below hsome
      exact habove.resolve_left (directory_ne_nil relative)
    have hlong : (directory relative).length < SETTINGS_PATH_MAX := by
      rw [visitDirectory] at hresult
      split at hresult
      · exact absurd hresult neg_ENAMETOOLONG_ne_zero
      · next hlong => exact Nat.not_le.mp hlong
    rw [visitDirectory_dir hlong hdir] at hresult ⊢
    -- the first name of the rest is an entry of the directory
    obtain ⟨name, hslash, hr⟩ := first_name r
    have hr : r = name ∨ ∃ r', r = name ++ slash :: r' ∧
        t.lookup (path (join relative name)) = some .dir := by
      refine hr.imp id fun ⟨r', hr⟩ => ⟨r', hr, ?_⟩
      rw [hr, path_join, child_child, ← path_join] at hsome
      exact (Tree.isDir_of_below hsome).resolve_left (by simp [path, child])
    have hname : t.lookup (path (join relative name)) ≠ none := by
      rcases hr with rfl | ⟨r', -, hdir⟩
      · exact hsome
      · exact hdir ▸ Option.some_ne_none _
    obtain ⟨c', hzero, hsub⟩ := visitAll_complete hresult
      ((mem_readdir hlists).mpr (.inr (.inr ⟨hslash, hname⟩)))
    refine hsub ?_
    have hentry := entry t subtree visitor (visitDirectory t readdir subtree visitor depth)
      relative name c'
    generalize visitEntry t subtree visitor _ relative name c' = v at hentry hzero ⊢
    cases hentry with
    | skipped hdots => exact absurd hdots (not_or.mpr (not_dots hs hname))
    | tooLong => exact absurd hzero neg_ENAMETOOLONG_ne_zero
    | missing => exact absurd hzero neg_ENOENT_ne_zero
    | directory hdir =>
      rcases hr with rfl | ⟨r', rfl, -⟩
      · rw [hdir] at hfile
        cases hfile
      · rw [join_append (join_ne_nil hs hname)] at hfile hsubtree ⊢
        exact ih hzero hfile hsubtree
    | other value' hfile' hother =>
      rcases hr with rfl | ⟨r', rfl, hdir⟩
      · exact absurd hsubtree hother
      · rw [hfile'] at hdir
        cases hdir
    | setting value' hfile' =>
      rcases hr with rfl | ⟨r', rfl, hdir⟩
      · rw [hfile] at hfile'
        cases hfile'
        exact mem_singleton_self _
      · rw [hfile'] at hdir
        cases hdir

end Root

def Tidy (t : Tree) : Prop := ∀ key, validKey key = true → t.lookup (temporary key) = none

theorem validKey_of_tidy (hs : Stored t) (htidy : Tidy t) {rel : Path}
    (hlookup : t.lookup (path rel) ≠ none) : validKey rel = true := by
  obtain ⟨node, hnode⟩ := Option.ne_none_iff_exists'.mp hlookup
  rcases hs.named rel node hnode with hvalid | ⟨key, bytes, hkey, rfl, -⟩
  · exact hvalid
  · rw [← temporary_eq, htidy key hkey] at hnode
    cases hnode

/-- **Without temporary files a visit fails by a visitor only.** -/
theorem visit_refused (hs : Stored t) (htidy : Tidy t) (hlists : Lists t readdir)
    (hrelative : relative = [] ∨
      validKey relative = true ∧ t.lookup (path relative) = some .dir)
    (hdepth : 128 ≤ relative.length + depth)
    (hresult : (visitDirectory t readdir subtree visitor depth relative c).result ≠ 0) :
    ∃ key value c', (visitor key value c').1 =
      (visitDirectory t readdir subtree visitor depth relative c).result := by
  induction depth generalizing relative c with
  | zero =>
    rcases hrelative with rfl | ⟨hvalid, -⟩
    · exact absurd hdepth (by decide)
    · have hlength := (validKey_iff.mp hvalid).2.1
      omega
  | succ depth ih =>
    have hdir : t.lookup (directory relative) = none ∨
        t.lookup (directory relative) = some .dir := by
      rcases hrelative with rfl | ⟨hvalid, hdir⟩
      · cases hroot : t.lookup (directory []) with
        | none => exact .inl rfl
        | some node =>
          cases node with
          | dir => exact .inr rfl
          | file bytes => exact absurd hroot (hs.root bytes)
      · have hne := (validKey_iff.mp hvalid).1
        rw [directory, if_neg hne]
        exact .inr hdir
    have hlength : relative.length < 128 := by
      rcases hrelative with rfl | ⟨hvalid, -⟩
      · decide
      · exact (validKey_iff.mp hvalid).2.1
    have hlong : (directory relative).length < SETTINGS_PATH_MAX := by
      rw [directory]
      split
      · decide
      · change (path relative).length < _
        rw [length_path, SETTINGS_PATH_MAX]
        omega
    rcases hdir with hnone | hdir
    · rw [visitDirectory, if_neg (Nat.not_le.mpr hlong), hnone] at hresult
      exact absurd rfl hresult
    · rw [visitDirectory_dir hlong hdir] at hresult ⊢
      obtain ⟨name, hname, c', heq⟩ := visitAll_failed hresult
      rw [← heq] at hresult ⊢
      have hentry := entry t subtree visitor (visitDirectory t readdir subtree visitor depth)
        relative name c'
      generalize visitEntry t subtree visitor _ relative name c' = v at hentry hresult ⊢
      -- what is listed and is no dot is there, so its key is valid
      have hthere (hdots : ¬ (name = text "." ∨ name = text "..")) :
          t.lookup (path (join relative name)) ≠ none := by
        rcases (mem_readdir hlists).mp hname with h | h | ⟨-, hlookup⟩
        · exact absurd (.inl h) hdots
        · exact absurd (.inr h) hdots
        · exact hlookup
      cases hentry with
      | skipped => exact absurd rfl hresult
      | tooLong hdots hlong =>
        have hlength := (validKey_iff.mp (validKey_of_tidy hs htidy (hthere hdots))).2.1
        rw [length_path, SETTINGS_PATH_MAX] at hlong
        omega
      | missing hdots hnone => exact absurd hnone (hthere hdots)
      | directory hdir =>
        have hlookup : t.lookup (path (join relative name)) ≠ none :=
          hdir ▸ Option.some_ne_none _
        have hlonger := length_lt_join (join_ne_nil hs hlookup)
        exact ih (.inr ⟨validKey_of_tidy hs htidy hlookup, hdir⟩) (by omega) hresult
      | other => exact absurd rfl hresult
      | setting value hfile => exact ⟨_, value, c', rfl⟩

end Brickwright.Bluetooth.Settings
