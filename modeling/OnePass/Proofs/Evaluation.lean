import Mathlib.Logic.Function.Basic
import OnePass.Proofs.Syntax

/-!
What programs mean, without a machine: expressions have values and commands change an
environment.

Values, operations and inputs are left open. An operation may be undefined and the input may be at
its end; then there is no value and the command does not end normally.
-/

namespace OnePass

universe u

/-- An interpretation of the literals, operations, conditions and inputs. -/
structure Domain where
  Value : Type u
  Input : Type u
  constant : Int → Value
  operate : Operator → Value → Value → Option Value
  truthy : Value → Bool
  /-- The next value of an input and the input after it. -/
  next : Input → Option (Value × Input)

/-- The values of the variables in `ν`, what is still to be read and what has been written. -/
@[ext] structure Env (D : Domain.{u}) (ν : Type) where
  store : ν → D.Value
  input : D.Input
  output : List D.Value

variable {D : Domain.{u}} {ν μ : Type}

namespace Env

variable [DecidableEq ν]

def assign (s : Env D ν) (x : ν) (v : D.Value) : Env D ν :=
  { s with store := Function.update s.store x v }

def read (s : Env D ν) : Option (D.Value × Env D ν) :=
  (D.next s.input).map fun r => (r.1, { s with input := r.2 })

def write (s : Env D ν) (v : D.Value) : Env D ν := { s with output := s.output ++ [v] }

end Env

/-- The value of an expression, if all its operations are defined. -/
def Expr.eval (σ : ν → D.Value) : Expr ν → Option D.Value
  | name x => some (σ x)
  | literal n => some (D.constant n)
  | operate op l r => do D.operate op (← l.eval σ) (← r.eval σ)

/-- `Exec c s s'`: the command `c`, begun in `s`, ends normally in `s'`. -/
inductive Exec [DecidableEq ν] : Command ν → Env D ν → Env D ν → Prop
  | empty {s} : Exec .empty s s
  | assign {s x e v} (he : e.eval s.store = some v) : Exec (.assign x e) s (s.assign x v)
  | read {s s' x v} (hr : s.read = some (v, s')) : Exec (.read x) s (s'.assign x v)
  | write {s e v} (he : e.eval s.store = some v) : Exec (.write e) s (s.write v)
  | seq {s s₁ s₂ c c'} (hc : Exec c s s₁) (hc' : Exec c' s₁ s₂) : Exec (.seq c c') s s₂
  | done {s e c v} (he : e.eval s.store = some v) (hv : D.truthy v = false) :
      Exec (.loop e c) s s
  | again {s s₁ s₂ e c v} (he : e.eval s.store = some v) (hv : D.truthy v = true)
      (hc : Exec c s s₁) (hl : Exec (.loop e c) s₁ s₂) : Exec (.loop e c) s s₂

/-! ### Other names for the variables -/

/-- The environment in which the variable `x` has the value of `f x`. -/
def Env.along (f : ν → μ) (s : Env D μ) : Env D ν := ⟨s.store ∘ f, s.input, s.output⟩

lemma Env.along_read (f : ν → μ) (s : Env D μ) :
    (s.along f).read = s.read.map fun r => (r.1, r.2.along f) := by
  simp [read, along, Function.comp_def]

lemma Expr.eval_map (f : ν → μ) (σ : μ → D.Value) (e : Expr ν) :
    (e.map f).eval σ = e.eval (σ ∘ f) := by
  induction e with
  | name x => rfl
  | literal n => rfl
  | operate op l r ihl ihr => simp only [map, eval, ihl, ihr]

/-- `f x` stands for no other variable than `x`. -/
def Single (f : ν → μ) (x : ν) : Prop := ∀ y, f y = f x → y = x

variable [DecidableEq ν] [DecidableEq μ] {f : ν → μ} {p : ν → Prop}

lemma Env.along_assign {x : ν} (hx : Single f x) (s : Env D μ) (v : D.Value) :
    (s.assign (f x) v).along f = (s.along f).assign x v := by
  have hs : Function.update s.store (f x) v ∘ f = Function.update (s.store ∘ f) x v := by
    funext y
    by_cases hy : y = x
    · simp [hy]
    · have hf : f y ≠ f x := fun h => hy (hx y h)
      simp [hy, hf]
  simp [along, assign, hs]

/-- Renaming the variables of a command renames those of its environments, and leaves variables
that it does not have alone. -/
lemma Exec.of_map {c : Command ν} {s s' : Env D μ} (hp : ∀ x, p x → Single f x) (hc : c.All p)
    (h : Exec (c.map f) s s') :
    Exec c (s.along f) (s'.along f) ∧ ∀ a, (∀ x, p x → f x ≠ a) → s'.store a = s.store a := by
  -- The induction is on the execution and not on the command: a loop comes again as itself.
  generalize hm : c.map f = m at h
  induction h generalizing c with
  | empty =>
    cases c <;> cases hm
    exact ⟨.empty, fun a ha => rfl⟩
  | assign he =>
    cases c <;> cases hm
    rw [Env.along_assign (hp _ hc.1)]
    rw [Expr.eval_map] at he
    exact ⟨.assign he, fun a ha => Function.update_of_ne (ha _ hc.1).symm _ _⟩
  | @read s s₁ _ v hr =>
    cases c <;> cases hm
    have hr' : (s.along f).read = some (v, s₁.along f) := by rw [Env.along_read, hr]; rfl
    rw [Env.along_assign (hp _ hc)]
    refine ⟨.read hr', fun a ha => (Function.update_of_ne (ha _ hc).symm _ _).trans ?_⟩
    obtain ⟨r, -, he⟩ := Option.map_eq_some_iff.1 hr
    cases he
    rfl
  | write he =>
    cases c <;> cases hm
    rw [Expr.eval_map] at he
    exact ⟨.write he, fun a ha => rfl⟩
  | seq h₁ h₂ ih₁ ih₂ =>
    cases c <;> cases hm
    obtain ⟨e₁, s₁⟩ := ih₁ hc.1 rfl
    obtain ⟨e₂, s₂⟩ := ih₂ hc.2 rfl
    exact ⟨.seq e₁ e₂, fun a ha => (s₂ a ha).trans (s₁ a ha)⟩
  | done he hv =>
    cases c <;> cases hm
    rw [Expr.eval_map] at he
    exact ⟨.done he hv, fun a ha => rfl⟩
  | again he hv h₁ h₂ ih₁ ih₂ =>
    cases c <;> cases hm
    rw [Expr.eval_map] at he
    obtain ⟨e₁, s₁⟩ := ih₁ hc.2 rfl
    obtain ⟨e₂, s₂⟩ := ih₂ hc rfl
    exact ⟨.again he hv e₁ e₂, fun a ha => (s₂ a ha).trans (s₁ a ha)⟩

lemma Exec.map {c : Command ν} {s : Env D μ} {t t' : Env D ν} (hp : ∀ x, p x → Single f x)
    (hc : c.All p) (ht : s.along f = t) (h : Exec c t t') :
    ∃ s' : Env D μ, s'.along f = t' ∧ Exec (c.map f) s s' := by
  induction h generalizing s with
  | empty => exact ⟨s, ht, .empty⟩
  | assign he =>
    subst ht
    exact ⟨_, Env.along_assign (hp _ hc.1) s _, .assign (by rwa [Expr.eval_map])⟩
  | read hr =>
    subst ht
    rw [Env.along_read] at hr
    obtain ⟨⟨v, s₁⟩, hs, he⟩ := Option.map_eq_some_iff.1 hr
    cases he
    exact ⟨_, Env.along_assign (hp _ hc) s₁ v, .read hs⟩
  | write he =>
    subst ht
    exact ⟨_, rfl, .write (by rwa [Expr.eval_map])⟩
  | seq hc₁ hc₂ ih₁ ih₂ =>
    obtain ⟨s₁, h₁, e₁⟩ := ih₁ hc.1 ht
    obtain ⟨s₂, h₂, e₂⟩ := ih₂ hc.2 h₁
    exact ⟨s₂, h₂, .seq e₁ e₂⟩
  | done he hv =>
    subst ht
    exact ⟨s, rfl, .done (by rwa [Expr.eval_map]) hv⟩
  | again he hv hb hl ih₁ ih₂ =>
    subst ht
    obtain ⟨s₁, h₁, e₁⟩ := ih₁ hc.2 rfl
    obtain ⟨s₂, h₂, e₂⟩ := ih₂ hc h₁
    exact ⟨s₂, h₂, .again (by rwa [Expr.eval_map]) hv e₁ e₂⟩

end OnePass
