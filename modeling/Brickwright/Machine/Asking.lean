import Mathlib.Data.List.Basic

/-!
# Computations that ask the outside world

A system call's result is not up to the program. An `Asking` computation takes the answers the world
will give, in order, works on a state of its own and either still waits for an answer, or ends with
a value or an error and leaves the answers it did not ask for.

Two things are said of such a computation and composed along `bind`:

* `Attentive` — the answers decide: more of them do not change how it ends, and if it waits and is
  then told of a failure, it ends with the error of that failure.
* `Within n` — it ends before it has been given `n` answers that count. An answer that does not
  count is one that makes it ask again, such as an interrupted call.
-/

universe u

/-- The answers to come and a state, to a wait (`none`) or an end. -/
def Asking (ρ σ ε α : Type u) := List ρ → σ → Option (Except ε (α × List ρ × σ))

namespace Asking

variable {ρ σ ε α β : Type u}

def ret (a : α) : Asking ρ σ ε α := fun rs s => some (.ok (a, rs, s))

def fail (e : ε) : Asking ρ σ ε α := fun _ _ => some (.error e)

/-- First `x`, then `f` of its value. -/
def andThen (x : Asking ρ σ ε α) (f : α → Asking ρ σ ε β) : Asking ρ σ ε β := fun rs s =>
  match x rs s with
  | none => none
  | some (.error e) => some (.error e)
  | some (.ok (a, rs, s)) => f a rs s

instance : Monad (Asking ρ σ ε) where
  pure := ret
  bind := andThen

variable {x : Asking ρ σ ε α} {f : α → Asking ρ σ ε β} {rs : List ρ} {s : σ}

/-- **Inversion**: a computation that ended well did so in both parts. -/
theorem bind_ok {r : β × List ρ × σ} (h : (x >>= f) rs s = some (.ok r)) :
    ∃ a rs' s', x rs s = some (.ok (a, rs', s')) ∧ f a rs' s' = some (.ok r) := by
  change andThen x f rs s = _ at h
  rw [andThen] at h
  split at h
  · cases h
  · cases h
  · exact ⟨_, _, _, ‹_›, h⟩

theorem bind_of_ok {a : α} {rs' : List ρ} {s' : σ} (h : x rs s = some (.ok (a, rs', s'))) :
    (x >>= f) rs s = f a rs' s' := by
  show andThen x f rs s = _
  rw [andThen, h]

theorem bind_of_error {e : ε} (h : x rs s = some (.error e)) :
    (x >>= f) rs s = some (.error e) := by
  show andThen x f rs s = _
  rw [andThen, h]

theorem bind_waits (h : (x >>= f) rs s = none) :
    x rs s = none ∨ ∃ a rs' s', x rs s = some (.ok (a, rs', s')) ∧ f a rs' s' = none := by
  change andThen x f rs s = _ at h
  rw [andThen] at h
  split at h
  · exact .inl ‹_›
  · cases h
  · exact .inr ⟨_, _, _, ‹_›, h⟩

theorem bind_error {e : ε} (h : (x >>= f) rs s = some (.error e)) : x rs s = some (.error e) ∨
    ∃ a rs' s', x rs s = some (.ok (a, rs', s')) ∧ f a rs' s' = some (.error e) := by
  change andThen x f rs s = _ at h
  rw [andThen] at h
  split at h
  · cases h
  · next heq =>
    cases h
    exact .inl heq
  · exact .inr ⟨_, _, _, ‹_›, h⟩

/-- Every error the computation ends with satisfies `P`. -/
def ErrorsIn (P : ε → Prop) (x : Asking ρ σ ε α) : Prop :=
  ∀ rs s e, x rs s = some (.error e) → P e

theorem ErrorsIn.ret {P : ε → Prop} (a : α) : ErrorsIn P (pure a : Asking ρ σ ε α) := by
  intro rs s e h
  cases h

theorem ErrorsIn.fail {P : ε → Prop} {e : ε} (h : P e) :
    ErrorsIn P (Asking.fail e : Asking ρ σ ε α) := by
  intro rs s e' he
  cases he
  exact h

theorem ErrorsIn.bind {P : ε → Prop} (hx : ErrorsIn P x) (hf : ∀ a, ErrorsIn P (f a)) :
    ErrorsIn P (x >>= f) := by
  intro rs s e h
  rcases bind_error h with h | ⟨a, rs', s', -, h⟩
  · exact hx rs s e h
  · exact hf a rs' s' e h

/-! ## Answers decide -/

/-- More answers do not change how the computation ends, and `fatal` answers end it with their
error. -/
structure Attentive (fatal : ρ → Option ε) (x : Asking ρ σ ε α) : Prop where
  more_ok : ∀ {rs s a rs' s'}, x rs s = some (.ok (a, rs', s')) →
    ∀ more, x (rs ++ more) s = some (.ok (a, rs' ++ more, s'))
  more_error : ∀ {rs s e}, x rs s = some (.error e) → ∀ more, x (rs ++ more) s = some (.error e)
  told : ∀ {rs s r e}, x rs s = none → fatal r = some e →
    ∀ more, x (rs ++ r :: more) s = some (.error e)

namespace Attentive

variable {fatal : ρ → Option ε}

theorem ret (a : α) : Attentive fatal (pure a : Asking ρ σ ε α) where
  more_ok h _ := by cases h; rfl
  more_error h _ := by cases h
  told h := by cases h

theorem fail (e : ε) : Attentive fatal (Asking.fail e : Asking ρ σ ε α) where
  more_ok h _ := by cases h
  more_error h _ := h
  told h := by cases h

theorem bind (hx : Attentive fatal x) (hf : ∀ a, Attentive fatal (f a)) :
    Attentive fatal (x >>= f) where
  more_ok h more := by
    obtain ⟨a, rs', s', h₁, h₂⟩ := bind_ok h
    rw [bind_of_ok (hx.more_ok h₁ more)]
    exact (hf a).more_ok h₂ more
  more_error h more := by
    rcases bind_error h with h₁ | ⟨a, rs', s', h₁, h₂⟩
    · exact bind_of_error (hx.more_error h₁ more)
    · rw [bind_of_ok (hx.more_ok h₁ more)]
      exact (hf a).more_error h₂ more
  told h hr more := by
    rcases bind_waits h with h₁ | ⟨a, rs', s', h₁, h₂⟩
    · exact bind_of_error (hx.told h₁ hr more)
    · rw [bind_of_ok (hx.more_ok h₁ _)]
      exact (hf a).told h₂ hr more

end Attentive

/-! ## How much is asked -/

/-- The computation ends within `n` answers that count. -/
structure Within (counts : ρ → Bool) (n : Nat) (x : Asking ρ σ ε α) : Prop where
  waits : ∀ {rs s}, x rs s = none → rs.countP counts < n
  ends : ∀ {rs s a rs' s'}, x rs s = some (.ok (a, rs', s')) →
    rs.countP counts ≤ rs'.countP counts + n

namespace Within

variable {counts : ρ → Bool} {m n : Nat}

theorem mono (h : Within counts m x) (hle : m ≤ n) : Within counts n x where
  waits hx := Nat.lt_of_lt_of_le (h.waits hx) hle
  ends hx := Nat.le_trans (h.ends hx) (Nat.add_le_add_left hle _)

theorem ret (a : α) : Within counts n (pure a : Asking ρ σ ε α) where
  waits h := by cases h
  ends h := by cases h; exact Nat.le_add_right _ _

theorem fail (e : ε) : Within counts n (Asking.fail e : Asking ρ σ ε α) where
  waits h := by cases h
  ends h := by cases h

theorem bind (hx : Within counts m x) (hf : ∀ a, Within counts n (f a)) :
    Within counts (m + n) (x >>= f) where
  waits h := by
    rcases bind_waits h with h₁ | ⟨a, rs', s', h₁, h₂⟩
    · have := hx.waits h₁
      omega
    · have := hx.ends h₁
      have := (hf a).waits h₂
      omega
  ends h := by
    obtain ⟨a, rs', s', h₁, h₂⟩ := bind_ok h
    have := hx.ends h₁
    have := (hf a).ends h₂
    omega

end Within

end Asking
