import Mathlib.Tactic.Lemma

/-!
Computations that may stop with an error: how they unfold, and what a result says about the steps
that led to it.
-/

namespace OnePass

variable {ε ε' α β γ δ : Type}

@[simp] lemma pure_eq_ok (a : α) : (pure a : Except ε α) = .ok a := rfl

@[simp] lemma ok_bind (a : α) (f : α → Except ε β) : (Except.ok a >>= f) = f a := rfl

@[simp] lemma error_bind (e : ε) (f : α → Except ε β) : (Except.error e >>= f) = .error e := rfl

lemma bind_eq_ok {x : Except ε α} {f : α → Except ε β} {b : β} :
    x >>= f = .ok b ↔ ∃ a, x = .ok a ∧ f a = .ok b := by
  cases x <;> simp

lemma bind_eq_error {x : Except ε α} {f : α → Except ε β} {e : ε} :
    x >>= f = .error e ↔ x = .error e ∨ ∃ a, x = .ok a ∧ f a = .error e := by
  cases x <;> simp

lemma map_eq_ok {x : Except ε α} {f : α → β} {b : β} :
    x.map f = .ok b ↔ ∃ a, x = .ok a ∧ f a = b := by
  cases x <;> simp [Except.map]

lemma map_eq_error {x : Except ε α} {f : α → β} {e : ε} :
    x.map f = .error e ↔ x = .error e := by
  cases x <;> simp [Except.map]

/-- Changes what a computation ends with, be it a result or an error. -/
def mapBoth (onError : ε → ε') (onOk : α → β) : Except ε α → Except ε' β
  | .ok a => .ok (onOk a)
  | .error e => .error (onError e)

@[simp] lemma mapBoth_ok (g : ε → ε') (f : α → β) (a : α) :
    mapBoth g f (.ok a) = .ok (f a) := rfl

@[simp] lemma mapBoth_error (g : ε → ε') (f : α → β) (e : ε) :
    mapBoth g f (.error e) = .error (g e) := rfl

/-- Two computations whose first steps differ by a change, and whose later steps carry it on. -/
lemma bind_mapBoth {g : ε → ε'} {f : α → β} {f' : γ → δ} {x : Except ε α} {h : α → Except ε γ}
    {h' : β → Except ε' δ} (hh : ∀ a, h' (f a) = mapBoth g f' (h a)) :
    mapBoth g f x >>= h' = mapBoth g f' (x >>= h) := by
  cases x with
  | ok a => exact hh a
  | error e => rfl

end OnePass
