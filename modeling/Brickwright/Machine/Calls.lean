import Brickwright.Machine.Basic

/-!
# Programs that call out

A callback, an injected operation or a system call is not up to the program that makes it. A `Calls`
program is done with a value, or makes a call and goes on with its answer; who answers is left open.

* `exec` — with an environment that answers, the value, the calls made with their answers, and what
  the environment is left as. `calls_bind_ret`: what is made of the value makes no call.
* `Ensures` — what holds of the value and the calls whatever the answers are. `ensures_bind` takes a
  program apart.
* `serving` — the machine that handles one request after another. `serving_invariant` is the
  induction over its runs.
-/

universe u v w

/-- A program that calls `κ` and is answered with `ρ`. -/
inductive Calls (κ : Type u) (ρ : Type v) (α : Type w) where
  | ret (a : α)
  | call (c : κ) (k : ρ → Calls κ ρ α)

namespace Calls

variable {κ : Type u} {ρ : Type v} {α β : Type w}

/-- First `x`, then `f` of its value. -/
def andThen : Calls κ ρ α → (α → Calls κ ρ β) → Calls κ ρ β
  | ret a, f => f a
  | call c k, f => call c fun r => (k r).andThen f

instance : Monad (Calls κ ρ) where
  pure := ret
  bind := andThen

def perform (c : κ) : Calls κ ρ ρ := call c ret

@[simp] theorem pure_eq (a : α) : (pure a : Calls κ ρ α) = ret a := rfl

@[simp] theorem ret_bind (a : α) (f : α → Calls κ ρ β) : (ret a >>= f) = f a := rfl

@[simp] theorem call_bind (c : κ) (k : ρ → Calls κ ρ α) (f : α → Calls κ ρ β) :
    (call c k >>= f) = call c fun r => k r >>= f := rfl

@[simp] theorem perform_bind {ρ : Type w} (c : κ) (f : ρ → Calls κ ρ β) :
    (perform c >>= f) = call c f := rfl

theorem bind_assoc {γ : Type w} (x : Calls κ ρ α) (f : α → Calls κ ρ β) (g : β → Calls κ ρ γ) :
    x >>= f >>= g = x >>= fun a => f a >>= g := by
  induction x with
  | ret a => rfl
  | call c k ih =>
    rw [call_bind, call_bind, call_bind]
    congr 1
    funext r
    exact ih r

/-! ## Execution -/

structure Outcome (κ ρ σ α : Type*) where
  value : α
  calls : List (κ × ρ)
  context : σ

variable {σ : Type*} (env : κ → σ → ρ × σ)

/-- The program in an environment that answers its calls. -/
def exec : Calls κ ρ α → σ → Outcome κ ρ σ α
  | ret a, s => ⟨a, [], s⟩
  | call c k, s =>
    let rest := exec (k (env c s).1) (env c s).2
    ⟨rest.value, (c, (env c s).1) :: rest.calls, rest.context⟩

@[simp] theorem exec_ret (a : α) (s : σ) : exec env (ret a : Calls κ ρ α) s = ⟨a, [], s⟩ := rfl

@[simp] theorem exec_call (c : κ) (k : ρ → Calls κ ρ α) (s : σ) :
    exec env (call c k) s =
      ⟨(exec env (k (env c s).1) (env c s).2).value,
        (c, (env c s).1) :: (exec env (k (env c s).1) (env c s).2).calls,
        (exec env (k (env c s).1) (env c s).2).context⟩ := rfl

theorem calls_bind_ret (x : Calls κ ρ α) (f : α → β) (s : σ) :
    (exec env (x >>= fun a => ret (f a)) s).calls = (exec env x s).calls := by
  induction x generalizing s with
  | ret a => rfl
  | call c k ih =>
    rw [call_bind, exec_call, exec_call, ih]

theorem forall_calls_exec {P : κ × ρ → Prop} (h : ∀ c s, P (c, (env c s).1)) (x : Calls κ ρ α)
    (s : σ) : ∀ c ∈ (x.exec env s).calls, P c := by
  induction x generalizing s with
  | ret a => exact fun _ hmem => nomatch hmem
  | call c k ih => exact List.forall_mem_cons.mpr ⟨h c s, ih _ _⟩

/-- A property of the value and the calls made, whatever the answers. -/
def Ensures (P : α → List (κ × ρ) → Prop) : Calls κ ρ α → Prop
  | ret a => P a []
  | call c k => ∀ r, (k r).Ensures fun a calls => P a ((c, r) :: calls)

variable {P Q : α → List (κ × ρ) → Prop} {x : Calls κ ρ α}

@[simp] theorem ensures_ret {a : α} : (ret a : Calls κ ρ α).Ensures P ↔ P a [] := Iff.rfl

@[simp] theorem ensures_call {c : κ} {k : ρ → Calls κ ρ α} :
    (call c k).Ensures P ↔ ∀ r, (k r).Ensures fun a calls => P a ((c, r) :: calls) := Iff.rfl

theorem Ensures.exec (h : x.Ensures P) (env : κ → σ → ρ × σ) (s : σ) :
    P (x.exec env s).value (x.exec env s).calls := by
  induction x generalizing s P with
  | ret a => exact h
  | call c k ih => exact ih _ (h _) _

theorem Ensures.mono (h : x.Ensures P) (hPQ : ∀ a calls, P a calls → Q a calls) :
    x.Ensures Q := by
  induction x generalizing P Q with
  | ret a => exact hPQ _ _ h
  | call c k ih => exact fun r => ih r (h r) fun a calls => hPQ a _

theorem Ensures.and (h : x.Ensures P) (h' : x.Ensures Q) :
    x.Ensures fun a calls => P a calls ∧ Q a calls := by
  induction x generalizing P Q with
  | ret a => exact ⟨h, h'⟩
  | call c k ih => exact fun r => ih r (h r) (h' r)

theorem Ensures.of_forall (h : ∀ a calls, P a calls) : x.Ensures P := by
  induction x generalizing P with
  | ret a => exact h a []
  | call c k ih => exact fun r => ih r fun a calls => h a _

/-- **One program after another.** -/
theorem ensures_bind {R : β → List (κ × ρ) → Prop} {f : α → Calls κ ρ β} : (x >>= f).Ensures R ↔
    x.Ensures fun a calls => (f a).Ensures fun b calls' => R b (calls ++ calls') := by
  induction x generalizing R with
  | ret a => exact Iff.rfl
  | call c k ih => exact forall_congr' fun r => ih r

theorem Ensures.bind {R : β → List (κ × ρ) → Prop} {f : α → Calls κ ρ β} (h : x.Ensures P)
    (hf : ∀ a calls, P a calls → (f a).Ensures fun b calls' => R b (calls ++ calls')) :
    (x >>= f).Ensures R :=
  ensures_bind.mpr (h.mono hf)

/-- The program with its calls under other names. -/
def lift {κ' : Type u} (f : κ → κ') : Calls κ ρ α → Calls κ' ρ α
  | ret a => ret a
  | call c k => call (f c) fun r => (k r).lift f

theorem ensures_lift {κ' : Type u} {f : κ → κ'} {R : α → List (κ' × ρ) → Prop} :
    (x.lift f).Ensures R ↔ x.Ensures fun a calls => R a (calls.map (Prod.map f id)) := by
  induction x generalizing R with
  | ret a => exact Iff.rfl
  | call c k ih => exact forall_congr' fun r => ih r

/-! ## One request after another -/

variable {τ ι ο : Type*} (serve : τ → ι → Calls κ ρ (ο × τ)) (env : κ → σ → ρ × σ)

/-- Each request is served to its end; the answer comes with the calls made. -/
def serving : Machine (τ × σ) ι (ο × List (κ × ρ)) where
  step s i :=
    let o := (serve s.1 i).exec env s.2
    ((o.value.2, o.context), o.value.1, o.calls)

def made (h : List (ι × ο × List (κ × ρ))) : List (κ × ρ) := h.flatMap fun e => e.2.2

@[simp] theorem made_concat (h : List (ι × ο × List (κ × ρ))) (e : ι × ο × List (κ × ρ)) :
    made (h ++ [e]) = made h ++ e.2.2 := by
  simp [made]

variable {serve env}

/-- **The induction over runs**: what serving one request keeps, whatever the answers. -/
theorem serving_invariant {Inv : List (ι × ο × List (κ × ρ)) → τ → Prop} (hstep : ∀ h t i, Inv h t →
      (serve t i).Ensures fun r calls => Inv (h ++ [(i, r.1, calls)]) r.2)
    {t : τ} (h0 : Inv [] t) (s : σ) (is : List ι) :
    Inv ((serving serve env).trace (t, s) is) ((serving serve env).run (t, s) is).1 := by
  have hserve (h : List (ι × ο × List (κ × ρ))) (p : τ × σ) (i : ι) (hp : Inv h p.1) :
      Inv (h ++ [(i, ((serving serve env).step p i).2)]) ((serving serve env).step p i).1.1 :=
    (hstep h p.1 i hp).exec env p.2
  exact (serving serve env).trace_invariant hserve h0 is

end Calls
