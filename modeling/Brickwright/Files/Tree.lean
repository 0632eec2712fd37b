import Mathlib.Data.List.AList
import Mathlib.Data.List.Infix

/-!
# Trees of files

Directories and files under slash-separated paths, with the calls that make, fill, rename and remove
them. What stands in a tree stands in a directory (`Tree.closed`), so that no call can orphan a
file. A call that is refused says why and leaves the tree alone.

* `Tree.isDir_of_below` — everything above an entry is a directory.
* `Tree.mkdir_ok` and the like — what a call that is not refused does.
* `Tree.mem_names` — what a directory lists.
-/

namespace Files

open List

abbrev Path := List UInt8

def slash : UInt8 := 47

def child (d n : Path) : Path := d ++ slash :: n

/-- The directory of an entry: what stands before the last slash. -/
def parent (p : Path) : Path := ((p.reverse.dropWhile (· ≠ slash)).drop 1).reverse

theorem parent_child (d : Path) {n : Path} (h : slash ∉ n) : parent (child d n) = d := by
  have hdrop : (n.reverse ++ slash :: d.reverse).dropWhile (· ≠ slash) = slash :: d.reverse := by
    rw [dropWhile_append_of_pos, dropWhile_cons_of_neg (by simp)]
    intro b hb
    have hne : b ≠ slash := by
      rintro rfl
      exact h (mem_reverse.mp hb)
    simpa using hne
  rw [parent, child, reverse_append, reverse_cons, append_assoc]
  simp only [singleton_append]
  rw [hdrop, drop_one, tail_cons, reverse_reverse]

theorem child_inj {d n n' : Path} : child d n = child d n' ↔ n = n' := by
  rw [child, child, append_cancel_left_eq, List.cons.injEq, and_iff_right rfl]

theorem child_child (d n r : Path) : child d (n ++ slash :: r) = child (child d n) r := by
  rw [child, child, child, append_assoc, cons_append]

/-- A path has a first name, and a rest if it is longer. -/
theorem first_name (r : Path) :
    ∃ n, slash ∉ n ∧ (r = n ∨ ∃ r', r = n ++ slash :: r') := by
  induction r with
  | nil => exact ⟨[], not_mem_nil, .inl rfl⟩
  | cons b r ih =>
    by_cases hb : b = slash
    · subst hb
      exact ⟨[], not_mem_nil, .inr ⟨r, rfl⟩⟩
    · obtain ⟨n, hn, hr⟩ := ih
      refine ⟨b :: n, not_mem_cons_of_ne_of_not_mem (Ne.symm hb) hn, ?_⟩
      rcases hr with rfl | ⟨r', rfl⟩
      · exact .inl rfl
      · exact .inr ⟨r', rfl⟩

theorem last_name (r : Path) :
    ∃ n, slash ∉ n ∧ (r = n ∨ ∃ r', r = r' ++ slash :: n) := by
  induction r with
  | nil => exact ⟨[], not_mem_nil, .inl rfl⟩
  | cons b r ih =>
    obtain ⟨n, hn, hr⟩ := ih
    rcases hr with rfl | ⟨r', rfl⟩
    · by_cases hb : b = slash
      · subst hb
        exact ⟨r, hn, .inr ⟨[], rfl⟩⟩
      · exact ⟨b :: r, not_mem_cons_of_ne_of_not_mem (Ne.symm hb) hn, .inl rfl⟩
    · exact ⟨n, hn, .inr ⟨b :: r', rfl⟩⟩

/-- The paths above a path that begins with its first byte, from the top. -/
def ancestorsFrom (done : Path) : Path → List Path
  | [] => []
  | b :: rest => (if b = slash then [done] else []) ++ ancestorsFrom (done ++ [b]) rest

def ancestors : Path → List Path
  | [] => []
  | b :: rest => ancestorsFrom [b] rest

theorem mem_ancestorsFrom {done rest d : Path} (h : d ∈ ancestorsFrom done rest) :
    ∃ r, done ++ rest = child d r := by
  induction rest generalizing done with
  | nil => cases h
  | cons b rest ih =>
    rcases mem_append.mp h with h | h
    · split at h
      · next hb =>
        obtain rfl := mem_singleton.mp h
        exact ⟨rest, by rw [child, hb]⟩
      · cases h
    · obtain ⟨r, hr⟩ := ih h
      exact ⟨r, by rw [← hr, append_assoc, singleton_append]⟩

theorem mem_ancestors {p d : Path} (h : d ∈ ancestors p) : ∃ r, p = child d r := by
  cases p with
  | nil => cases h
  | cons b rest => exact mem_ancestorsFrom h

/-! ## Trees -/

inductive Node where
  | dir
  | file (bytes : List UInt8)
  deriving DecidableEq, Repr

/-- What stands there is a directory; the empty path is the root. -/
def IsDirIn (entries : AList fun _ : Path => Node) (p : Path) : Prop :=
  p = [] ∨ entries.lookup p = some .dir

structure Tree where
  entries : AList fun _ : Path => Node
  closed : ∀ p node, entries.lookup p = some node → IsDirIn entries (parent p)

namespace Tree

variable (t : Tree) {p q d : Path}

def lookup (p : Path) : Option Node := t.entries.lookup p

def IsDir (p : Path) : Prop := IsDirIn t.entries p

instance : Decidable (t.IsDir p) :=
  inferInstanceAs (Decidable (p = [] ∨ t.entries.lookup p = some .dir))

/-- The tree with a node: no directory becomes a file. -/
def put (p : Path) (node : Node) (hparent : t.IsDir (parent p))
    (hdir : t.lookup p = some .dir → node = .dir) : Tree where
  entries := t.entries.insert p node
  closed q node' hq := by
    have hkept (d : Path) (hd : t.IsDir d) : IsDirIn (t.entries.insert p node) d := by
      rcases hd with rfl | hd
      · exact .inl rfl
      · refine .inr ?_
        by_cases h : d = p
        · subst h
          rw [AList.lookup_insert, hdir hd]
        · rwa [AList.lookup_insert_ne h]
    by_cases h : q = p
    · subst h
      exact hkept _ hparent
    · rw [AList.lookup_insert_ne h] at hq
      exact hkept _ (t.closed q node' hq)

def remove (p : Path) (hfile : t.lookup p ≠ some .dir) : Tree where
  entries := t.entries.erase p
  closed q node hq := by
    by_cases h : q = p
    · subst h
      rw [AList.lookup_erase] at hq
      cases hq
    · rw [AList.lookup_erase_ne h] at hq
      rcases t.closed q node hq with hroot | hd
      · exact .inl hroot
      · refine .inr ?_
        have hne : parent q ≠ p := fun hp => hfile (hp ▸ hd)
        rwa [AList.lookup_erase_ne hne]

variable {t}

@[simp] theorem lookup_put_self {node : Node} (hparent : t.IsDir (parent p))
    (hdir : t.lookup p = some .dir → node = .dir) :
    (t.put p node hparent hdir).lookup p = some node :=
  AList.lookup_insert _

theorem lookup_put_of_ne {node : Node} (h : q ≠ p) (hparent : t.IsDir (parent p))
    (hdir : t.lookup p = some .dir → node = .dir) :
    (t.put p node hparent hdir).lookup q = t.lookup q :=
  AList.lookup_insert_ne h

@[simp] theorem lookup_remove_self (hfile : t.lookup p ≠ some .dir) :
    (t.remove p hfile).lookup p = none :=
  AList.lookup_erase ..

theorem lookup_remove_of_ne (h : q ≠ p) (hfile : t.lookup p ≠ some .dir) :
    (t.remove p hfile).lookup q = t.lookup q :=
  AList.lookup_erase_ne h

theorem isDir_remove (hd : t.IsDir d) (hfile : t.lookup p ≠ some .dir) :
    (t.remove p hfile).IsDir d := by
  rcases hd with rfl | hd
  · exact .inl rfl
  · have hne : d ≠ p := fun h => hfile (h ▸ hd)
    exact .inr ((lookup_remove_of_ne hne hfile).trans hd)

/-- **Everything above an entry is a directory.** -/
theorem isDir_of_below {r : Path} (h : t.lookup (child d r) ≠ none) : t.IsDir d := by
  induction hlen : r.length using Nat.strong_induction_on generalizing r with
  | _ len ih =>
    obtain ⟨node, hnode⟩ := Option.ne_none_iff_exists'.mp h
    obtain ⟨n, hn, rfl | ⟨r', rfl⟩⟩ := last_name r
    · have hparent := t.closed _ _ hnode
      rwa [parent_child d hn] at hparent
    · rw [child_child] at hnode
      have hparent := t.closed _ _ hnode
      rw [parent_child _ hn] at hparent
      have habove : t.lookup (child d r') ≠ none := by
        rcases hparent with hroot | hdir
        · simp [child] at hroot
        · rw [lookup, hdir]
          exact Option.some_ne_none _
      refine ih r'.length ?_ habove rfl
      rw [← hlen, length_append, length_cons]
      omega

/-! ## Calls -/

inductive Refusal where
  | present
  | missing
  | notDir
  | isDir
  deriving DecidableEq, Repr

variable (t)

def absent (p : Path) : Refusal :=
  if ∃ d ∈ ancestors p, t.lookup d ≠ none ∧ t.lookup d ≠ some .dir then .notDir else .missing

def mkdir (p : Path) : Except Refusal Tree :=
  if h : t.lookup p = none ∧ t.IsDir (parent p) then
    .ok (t.put p .dir h.2 fun _ => rfl)
  else .error (if t.lookup p = none then t.absent p else .present)

/-- Opening for writing, created if it is not there and cut to nothing if it is. -/
def create (p : Path) : Except Refusal Tree :=
  if h : t.lookup p ≠ some .dir ∧ t.IsDir (parent p) then
    .ok (t.put p (.file []) h.2 fun hdir => absurd hdir h.1)
  else .error (if t.lookup p = some .dir then .isDir else t.absent p)

/-- Writing at the end of a file that is open. -/
def append (p : Path) (bytes : List UInt8) : Tree :=
  match h : t.lookup p with
  | some (.file done) =>
    t.put p (.file (done ++ bytes)) (t.closed p _ h) fun hdir => by
      rw [h] at hdir
      cases hdir
  | _ => t

def rename (p q : Path) : Except Refusal Tree :=
  match h : t.lookup p with
  | some (.file bytes) =>
    have hfile : t.lookup p ≠ some .dir := by
      rw [h]
      exact nofun
    if hq : (t.remove p hfile).lookup q ≠ some .dir ∧ t.IsDir (parent q) then
      .ok ((t.remove p hfile).put q (.file bytes) (isDir_remove hq.2 hfile)
        fun hdir => absurd hdir hq.1)
    else .error (if t.lookup q = some .dir then .isDir else t.absent q)
  | some .dir => .error .isDir
  | none => .error (t.absent p)

def unlink (p : Path) : Except Refusal Tree :=
  if t.lookup p = none then .error (t.absent p)
  else if hdir : t.lookup p = some .dir then .error .isDir
  else .ok (t.remove p hdir)

/-! ## What the calls do -/

variable {t} {t' : Tree}

theorem lookup_put {node : Node} (hparent : t.IsDir (parent p))
    (hdir : t.lookup p = some .dir → node = .dir) :
    (t.put p node hparent hdir).lookup = Function.update t.lookup p (some node) := by
  funext q
  by_cases h : q = p
  · subst h
    rw [lookup_put_self, Function.update_self]
  · rw [lookup_put_of_ne h, Function.update_of_ne h]

theorem lookup_remove (hfile : t.lookup p ≠ some .dir) :
    (t.remove p hfile).lookup = Function.update t.lookup p none := by
  funext q
  by_cases h : q = p
  · subst h
    rw [lookup_remove_self, Function.update_self]
  · rw [lookup_remove_of_ne h, Function.update_of_ne h]

theorem mkdir_ok (h : t.mkdir p = .ok t') :
    t.lookup p = none ∧ t'.lookup = Function.update t.lookup p (some .dir) := by
  rw [mkdir] at h
  split at h
  · next hp =>
    cases h
    exact ⟨hp.1, lookup_put ..⟩
  · cases h

theorem create_ok (h : t.create p = .ok t') :
    t.lookup p ≠ some .dir ∧ t'.lookup = Function.update t.lookup p (some (.file [])) := by
  rw [create] at h
  split at h
  · next hp =>
    cases h
    exact ⟨hp.1, lookup_put ..⟩
  · cases h

theorem lookup_append {done : List UInt8} (h : t.lookup p = some (.file done))
    (bytes : List UInt8) :
    (t.append p bytes).lookup = Function.update t.lookup p (some (.file (done ++ bytes))) := by
  rw [append]
  split
  · next done' h' =>
    obtain rfl : done = done' := by simpa [h] using h'
    exact lookup_put ..
  · next h' => exact absurd h (h' done)

theorem rename_ok (h : t.rename p q = .ok t') : ∃ bytes, t.lookup p = some (.file bytes) ∧
    t'.lookup = Function.update (Function.update t.lookup p none) q (some (.file bytes)) := by
  rw [rename] at h
  split at h
  · next bytes hp =>
    dsimp only at h
    split at h
    · next hq =>
      cases h
      exact ⟨bytes, hp, by rw [lookup_put, lookup_remove]⟩
    · cases h
  · cases h
  · cases h

theorem unlink_ok (h : t.unlink p = .ok t') : t'.lookup = Function.update t.lookup p none := by
  rw [unlink] at h
  split at h
  · cases h
  · split at h
    · cases h
    · cases h
      exact lookup_remove _

theorem unlink_error {e : Refusal} (h : t.unlink p = .error e) :
    t.lookup p = none ∨ t.lookup p = some .dir := by
  rw [unlink] at h
  split at h
  · next hp => exact .inl hp
  · split at h
    · next hdir => exact .inr hdir
    · cases h

theorem unlink_missing (h : t.unlink p = .error .missing) : t.lookup p = none := by
  rw [unlink] at h
  split at h
  · next hp => exact hp
  · split at h <;> cases h

/-! ## What a directory lists -/

/-- The name of an entry of the directory. -/
def nameIn (d p : Path) : Option Path :=
  if d ++ [slash] <+: p ∧ slash ∉ p.drop (d.length + 1) then some (p.drop (d.length + 1)) else none

theorem nameIn_eq_some {d p n : Path} : nameIn d p = some n ↔ p = child d n ∧ slash ∉ n := by
  rw [nameIn]
  constructor
  · intro h
    split at h
    · next hp =>
      obtain ⟨⟨r, rfl⟩, hn⟩ := hp
      have hdrop : (d ++ [slash] ++ r).drop (d.length + 1) = r := by
        rw [drop_append_of_le_length (by simp), drop_of_length_le (by simp),
          nil_append]
      rw [hdrop] at h hn
      cases h
      exact ⟨by rw [child, append_assoc, singleton_append], hn⟩
    · cases h
  · rintro ⟨rfl, hn⟩
    have hdrop : (child d n).drop (d.length + 1) = n := by
      rw [child, drop_append, drop_of_length_le (Nat.le_succ _)]
      simp
    rw [hdrop, if_pos ⟨⟨n, by rw [child, append_assoc, singleton_append]⟩, hn⟩]

variable (t)

def names (d : Path) : List Path := t.entries.keys.filterMap (nameIn d)

variable {t} {n : Path}

theorem mem_names : n ∈ t.names d ↔ slash ∉ n ∧ t.lookup (child d n) ≠ none := by
  have hlookup (p : Path) : p ∈ t.entries.keys ↔ t.lookup p ≠ none := by
    rw [← AList.mem_keys, lookup, ne_eq, AList.lookup_eq_none, not_not]
  rw [names, mem_filterMap]
  constructor
  · rintro ⟨p, hp, hname⟩
    obtain ⟨rfl, hn⟩ := nameIn_eq_some.mp hname
    exact ⟨hn, (hlookup _).mp hp⟩
  · rintro ⟨hn, hp⟩
    exact ⟨child d n, (hlookup _).mpr hp, nameIn_eq_some.mpr ⟨rfl, hn⟩⟩

theorem nodup_names : (t.names d).Nodup := by
  refine List.Nodup.filterMap (fun p p' n hp hp' => ?_) t.entries.keys_nodup
  rw [(nameIn_eq_some.mp hp).1, (nameIn_eq_some.mp hp').1]

end Tree

end Files
