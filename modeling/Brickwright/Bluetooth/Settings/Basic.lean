import Brickwright.Bluetooth.Errno
import Brickwright.Files.Tree
import Brickwright.Machine.History
import Brickwright.Text.Decimal

/-!
# The settings store (`zephyr_compat/src/settings.c`)

A setting is a file under `SETTINGS_ROOT`, its key the path below it. A call goes through the file
system one system call at a time, so a power loss is the end of the run between two of them, or in a
`write` that has taken some of the bytes. An input lets the system call under way happen: the number
of bytes a `write` is to take, an interruption, or an error of the device.

Null pointers are left out. The loader walks the tree as it is, with the directories listed in any
order; a system call of the loader does not fail by itself.
-/

namespace Brickwright.Bluetooth.Settings

open Files Decimal

abbrev Key := List UInt8
abbrev Bytes := List UInt8

def ENOENT : Int := 2
def EEXIST : Int := 17
def ENOTDIR : Int := 20
def EISDIR : Int := 21
def ENAMETOOLONG : Int := 36

def SETTINGS_ROOT : Path := text "/mnt/flash/brickwright-settings"
def SETTINGS_PATH_MAX : Nat := 192

def errno : Tree.Refusal → Int
  | .present => EEXIST
  | .missing => ENOENT
  | .notDir => ENOTDIR
  | .isDir => EISDIR

/-- `isalnum`, and the two other characters of a name. -/
def nameByte (b : UInt8) : Bool :=
  (48 ≤ b && b ≤ 57) || (65 ≤ b && b ≤ 90) || (97 ≤ b && b ≤ 122) || b = 45 || b = 95

/-- The loop of `valid_key`, with whether the segment has a character. -/
def validFrom (segment : Bool) : Key → Bool
  | [] => segment
  | b :: rest =>
    if b = slash then segment && validFrom false rest else nameByte b && validFrom true rest

def validKey (key : Key) : Bool := key ≠ [] && key.length < 128 && validFrom false key

def path (key : Key) : Path := child SETTINGS_ROOT key

def temporary (key : Key) : Path := path key ++ text ".tmp"

/-! ## Saving and deleting -/

inductive Call where
  | save (key : Key) (value : Bytes)
  | delete (key : Key)
  deriving DecidableEq, Repr

/-- An error of the device: no answer about a name, and no interruption. -/
def Fault : Type := { e : Int // 0 < e ∧ e ≠ ENOENT ∧ e ≠ EEXIST ∧ e ≠ EINTR }

inductive Verdict where
  | done (count : Nat)
  | interrupted
  | fault (e : Fault)

inductive Input where
  | call (c : Call)
  | go (v : Verdict)

/-- Where a call is: before which system call. -/
inductive Point where
  | idle
  /-- In `make_parents`, with the directories left to make. -/
  | making (key : Key) (value : Bytes) (rest : List Path)
  | opening (key : Key) (value : Bytes)
  | writing (key : Key) (value rest : Bytes)
  | syncing (key : Key) (value : Bytes)
  | closing (key : Key) (value : Bytes) (result : Int)
  | replacing (key : Key) (value : Bytes)
  | unlinking (key : Key) (value : Bytes) (result : Int)
  | removing (key : Key)
  | returning (c : Call) (result : Int)

structure State where
  tree : Tree
  point : Point

inductive Note where
  | called (c : Call)
  | returned (c : Call) (result : Int)
  deriving DecidableEq, Repr

/-- The `while (remaining)` loop and what follows it. -/
def loop (key : Key) (value rest : Bytes) : Point :=
  if rest = [] then .syncing key value else .writing key value rest

/-- The end of `make_parents`. -/
def makeNext (key : Key) (value : Bytes) : List Path → Point
  | [] => .opening key value
  | d :: rest => .making key value (d :: rest)

/-- What follows `close`. -/
def closed (key : Key) (value : Bytes) (result : Int) : Point :=
  if result = 0 then .replacing key value else .unlinking key value result

/-- `settings_save_one` and `settings_delete` up to the first system call. -/
def begin : Call → Point
  | .save key value =>
    if !validKey key then .returning (.save key value) (-EINVAL)
    else if (path key).length ≥ SETTINGS_PATH_MAX then .returning (.save key value) (-ENAMETOOLONG)
    else if (temporary key).length ≥ SETTINGS_PATH_MAX then
      .returning (.save key value) (-ENAMETOOLONG)
    else makeNext key value (ancestors (path key))
  | .delete key =>
    if !validKey key then .returning (.delete key) (-EINVAL)
    else if (path key).length ≥ SETTINGS_PATH_MAX then .returning (.delete key) (-ENAMETOOLONG)
    else .removing key

/-- `mkdir`, and whether `make_parents` goes on. -/
def makeStep (t : Tree) (key : Key) (value : Bytes) (d : Path) (rest : List Path) :
    Verdict → State
  | .fault e => ⟨t, .returning (.save key value) (-e.1)⟩
  | .interrupted => ⟨t, .returning (.save key value) (-EINTR)⟩
  | .done _ =>
    match t.mkdir d with
    | .ok t => ⟨t, makeNext key value rest⟩
    | .error .present => ⟨t, makeNext key value rest⟩
    | .error e => ⟨t, .returning (.save key value) (-errno e)⟩

def openStep (t : Tree) (key : Key) (value : Bytes) : Verdict → State
  | .fault e => ⟨t, .returning (.save key value) (-e.1)⟩
  | .interrupted => ⟨t, .returning (.save key value) (-EINTR)⟩
  | .done _ =>
    match t.create (temporary key) with
    | .ok t => ⟨t, loop key value value⟩
    | .error e => ⟨t, .returning (.save key value) (-errno e)⟩

def writeStep (t : Tree) (key : Key) (value rest : Bytes) : Verdict → State
  | .interrupted => ⟨t, .writing key value rest⟩
  | .fault e => ⟨t, .closing key value (-e.1)⟩
  | .done count =>
    if count = 0 then ⟨t, .closing key value (- EIO)⟩
    else ⟨t.append (temporary key) (rest.take count), loop key value (rest.drop count)⟩

def syncStep (t : Tree) (key : Key) (value : Bytes) : Verdict → State
  | .fault e => ⟨t, .closing key value (-e.1)⟩
  | .interrupted => ⟨t, .closing key value (-EINTR)⟩
  | .done _ => ⟨t, .closing key value 0⟩

def closeStep (t : Tree) (key : Key) (value : Bytes) (result : Int) : Verdict → State
  | .fault e => ⟨t, closed key value (if result = 0 then -e.1 else result)⟩
  | .interrupted => ⟨t, closed key value (if result = 0 then -EINTR else result)⟩
  | .done _ => ⟨t, closed key value result⟩

def renameStep (t : Tree) (key : Key) (value : Bytes) : Verdict → State
  | .fault e => ⟨t, .unlinking key value (-e.1)⟩
  | .interrupted => ⟨t, .unlinking key value (-EINTR)⟩
  | .done _ =>
    match t.rename (temporary key) (path key) with
    | .ok t => ⟨t, .returning (.save key value) 0⟩
    | .error e => ⟨t, .unlinking key value (-errno e)⟩

def unlinkStep (t : Tree) (key : Key) (value : Bytes) (result : Int) : Verdict → State
  | .done _ =>
    match t.unlink (temporary key) with
    | .ok t => ⟨t, .returning (.save key value) result⟩
    | .error _ => ⟨t, .returning (.save key value) result⟩
  | _ => ⟨t, .returning (.save key value) result⟩

/-- `brickwright_settings_remove`. -/
def removeStep (t : Tree) (key : Key) : Verdict → State
  | .fault e => ⟨t, .returning (.delete key) (-e.1)⟩
  | .interrupted => ⟨t, .returning (.delete key) (-EINTR)⟩
  | .done _ =>
    match t.unlink (path key) with
    | .ok t => ⟨t, .returning (.delete key) 0⟩
    | .error .missing => ⟨t, .returning (.delete key) 0⟩
    | .error e => ⟨t, .returning (.delete key) (-errno e)⟩

def step (s : State) : Input → State × List Note
  | .call c =>
    match s.point with
    | .idle => (⟨s.tree, begin c⟩, [.called c])
    | _ => (s, [])
  | .go v =>
    match s.point with
    | .idle => (s, [])
    | .making key value [] => (⟨s.tree, .opening key value⟩, [])
    | .making key value (d :: rest) => (makeStep s.tree key value d rest v, [])
    | .opening key value => (openStep s.tree key value v, [])
    | .writing key value rest => (writeStep s.tree key value rest v, [])
    | .syncing key value => (syncStep s.tree key value v, [])
    | .closing key value result => (closeStep s.tree key value result v, [])
    | .replacing key value => (renameStep s.tree key value v, [])
    | .unlinking key value result => (unlinkStep s.tree key value result v, [])
    | .removing key => (removeStep s.tree key v, [])
    | .returning c result => (⟨s.tree, .idle⟩, [.returned c result])

/-- The store, called by one caller after the other. -/
def store : Machine State Input (List Note) where
  step := step

/-! ## Loading -/

/-- A visitor is given a key and its value, and has a context. -/
abbrev Visitor (σ : Type*) := Key → Bytes → σ → Int × σ

/-- The visits made, the result, and the context left. -/
structure Visit (σ : Type*) where
  visits : List (Key × Bytes)
  result : Int
  context : σ

variable {σ : Type*}

/-- The loop over the entries of a directory: the first result that is not 0 ends it. -/
def visitAll (one : Path → σ → Visit σ) : List Path → σ → Visit σ
  | [], c => ⟨[], 0, c⟩
  | name :: names, c =>
    let first := one name c
    if first.result ≠ 0 then first
    else
      let rest := visitAll one names first.context
      ⟨first.visits ++ rest.visits, rest.result, rest.context⟩

def inSubtree (subtree key : Key) : Prop :=
  subtree = [] ∨ subtree <+: key ∧ (key.length = subtree.length ∨ key[subtree.length]? = some slash)

instance (subtree key : Key) : Decidable (inSubtree subtree key) :=
  inferInstanceAs (Decidable (_ ∨ _))

/-- A relative path and a name below it. -/
def join (relative name : Path) : Path := if relative = [] then name else child relative name

def directory (relative : Path) : Path :=
  if relative = [] then SETTINGS_ROOT else child SETTINGS_ROOT relative

/-- One entry in `visit_directory`; `below` is the visit of a directory. -/
def visitEntry (t : Tree) (subtree : Key) (visitor : Visitor σ) (below : Path → σ → Visit σ)
    (relative name : Path) (c : σ) : Visit σ :=
  if name = text "." ∨ name = text ".." then ⟨[], 0, c⟩
  else
    let key := join relative name
    if key.length ≥ 128 then ⟨[], -ENAMETOOLONG, c⟩
    else if (path key).length ≥ SETTINGS_PATH_MAX then ⟨[], -ENAMETOOLONG, c⟩
    else
      match t.lookup (path key) with
      | none => ⟨[], -ENOENT, c⟩
      | some .dir => below key c
      | some (.file value) =>
        if ¬ inSubtree subtree key then ⟨[], 0, c⟩
        else
          let answer := visitor key value c
          ⟨[(key, value)], answer.1, answer.2⟩

/-- `visit_directory`, `depth` directories deep at most. -/
def visitDirectory (t : Tree) (readdir : Path → List Path) (subtree : Key) (visitor : Visitor σ) :
    Nat → Path → σ → Visit σ
  | 0, _, c => ⟨[], -ENAMETOOLONG, c⟩
  | depth + 1, relative, c =>
    if (directory relative).length ≥ SETTINGS_PATH_MAX then ⟨[], -ENAMETOOLONG, c⟩
    else
      match t.lookup (directory relative) with
      | none => ⟨[], 0, c⟩
      | some (.file _) => ⟨[], -ENOTDIR, c⟩
      | some .dir =>
        visitAll (visitEntry t subtree visitor
          (visitDirectory t readdir subtree visitor depth) relative)
          (readdir (directory relative)) c

/-- `struct settings_handler`: its name, `h_set` and `h_commit`. -/
structure Handler (σ : Type*) where
  name : Key
  set : Option (Option Key → Bytes → σ → Int × σ)
  commit : Option (σ → Int × σ)

/-- `settings_name_steq`: does the name belong to the key, and what follows it? -/
def nameSteq (name key : Key) : Option (Option Key) :=
  if key <+: name then
    match name.drop key.length with
    | [] => some none
    | b :: rest => if b = slash then some (some rest) else none
  else none

/-- `dispatch_setting`, with the handlers in the order of their priorities. -/
def dispatchSetting : List (Handler σ) → Visitor σ
  | [], _, _, c => (0, c)
  | handler :: handlers, key, value, c =>
    match handler.set, nameSteq key handler.name with
    | some set, some relative => set relative value c
    | _, _ => dispatchSetting handlers key value c

/-- The `h_commit` loop. -/
def commitAll : List (Handler σ) → σ → Int × σ
  | [], c => (0, c)
  | handler :: handlers, c =>
    match handler.commit with
    | none => commitAll handlers c
    | some commit =>
      let answer := commit c
      if answer.1 ≠ 0 then answer else commitAll handlers answer.2

/-- A key is shorter than 128, and a directory makes it longer by 2. -/
def depth : Nat := 128

/-- `settings_load`: what it dispatches, and its result. -/
def settingsLoad (t : Tree) (readdir : Path → List Path) (handlers : List (Handler σ)) (c : σ) :
    Visit σ :=
  let visit := visitDirectory t readdir [] (dispatchSetting handlers) depth [] c
  if visit.result ≠ 0 then visit
  else
    let commit := commitAll handlers visit.context
    ⟨visit.visits, commit.1, commit.2⟩

/-!
## Keys and their files

A valid key is names between slashes. The key of a directory above a setting is valid too, and no
file of a key is one of another key, nor a temporary file.
-/

open List

theorem validKey_iff {key : Key} :
    validKey key = true ↔ key ≠ [] ∧ key.length < 128 ∧ validFrom false key = true := by
  simp [validKey, and_assoc]

theorem byte_of_validFrom {segment : Bool} {key : Key} (h : validFrom segment key = true) :
    ∀ b ∈ key, b = slash ∨ nameByte b = true := by
  induction key generalizing segment with
  | nil => exact fun _ hb => nomatch hb
  | cons c key ih =>
    rw [validFrom] at h
    intro b hb
    split at h
    · next hc =>
      rcases mem_cons.mp hb with rfl | hb
      · exact .inl hc
      · exact ih (Bool.and_eq_true_iff.mp h).2 b hb
    · obtain ⟨hname, hrest⟩ := Bool.and_eq_true_iff.mp h
      rcases mem_cons.mp hb with rfl | hb
      · exact .inr hname
      · exact ih hrest b hb

theorem dot_not_mem {key : Key} (h : validKey key = true) : (46 : UInt8) ∉ key := by
  intro hmem
  rcases byte_of_validFrom (validKey_iff.mp h).2.2 46 hmem with h | h <;> revert h <;> decide

theorem validFrom_append {segment : Bool} {key rest : Key}
    (h : validFrom segment (key ++ slash :: rest) = true) : validFrom segment key = true := by
  induction key generalizing segment with
  | nil =>
    exact (Bool.and_eq_true_iff.mp h).1
  | cons b key ih =>
    rw [cons_append, validFrom] at h
    rw [validFrom]
    split at h
    · next hb =>
      obtain ⟨hsegment, hrest⟩ := Bool.and_eq_true_iff.mp h
      rw [if_pos hb, hsegment, ih hrest, Bool.and_self]
    · next hb =>
      obtain ⟨hname, hrest⟩ := Bool.and_eq_true_iff.mp h
      rw [if_neg hb, hname, ih hrest, Bool.and_self]

theorem validKey_append {key rest : Key} (h : validKey (key ++ slash :: rest) = true) :
    validKey key = true := by
  obtain ⟨-, hlength, hvalid⟩ := validKey_iff.mp h
  have hkey := validFrom_append hvalid
  refine validKey_iff.mpr ⟨?_, ?_, hkey⟩
  · rintro rfl
    cases hkey
  · rw [length_append, length_cons] at hlength
    omega

/-! ### Files -/

theorem path_inj {key key' : Key} : path key = path key' ↔ key = key' := child_inj

theorem temporary_eq (key : Key) : temporary key = path (key ++ text ".tmp") := by
  rw [temporary, path, path, child, child, append_assoc, cons_append]

theorem temporary_inj {key key' : Key} : temporary key = temporary key' ↔ key = key' := by
  rw [temporary, temporary, append_cancel_right_eq, path_inj]

theorem not_validKey_temporary (key : Key) : validKey (key ++ text ".tmp") ≠ true :=
  fun h => dot_not_mem h (mem_append_right _ (by decide))

theorem temporary_ne_path {key key' : Key} (h : validKey key' = true) :
    temporary key ≠ path key' := by
  intro heq
  rw [← path_inj.mp heq] at h
  exact not_validKey_temporary key h

theorem length_path (key : Key) : (path key).length = key.length + 32 := by
  rw [path, child, length_append, length_cons,
    show SETTINGS_ROOT.length = 31 by decide]
  omega

/-- A directory above a setting that stands below the root has a valid key itself. -/
theorem validKey_above {key rel r : Key} (h : validKey key = true)
    (habove : path key = child (path rel) r) : validKey rel = true := by
  rw [child_inj.mp habove] at h
  exact validKey_append h

theorem path_ne_root (key : Key) : path key ≠ SETTINGS_ROOT := by
  intro h
  have hlength := congrArg List.length h
  rw [length_path, show SETTINGS_ROOT.length = 31 by decide] at hlength
  omega

end Brickwright.Bluetooth.Settings
