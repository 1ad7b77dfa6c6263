/-
  PatternCatalog.Proofs.Except — computations that may fail.

  A chain of steps that succeeds is taken apart step by step (`Except.bind_ok`), and two chains are
  compared step by step (`Except.bind_congr`). One on concrete data is found by evaluating it
  (`Except.exists_ok`).
-/

namespace PatternCatalog

theorem Except.bind_ok {ε α β : Type} {x : Except ε α} {f : α → Except ε β} {b : β} (h : (x >>= f) = .ok b) :
    ∃ a, x = .ok a ∧ f a = .ok b := by
  cases x with
  | error e => cases h
  | ok a => exact ⟨a, rfl, h⟩

/-- Chains with the same first step are the same when they go on in the same way. -/
theorem Except.bind_congr {ε α β : Type} {x : Except ε α} {f g : α → Except ε β} (h : ∀ a, x = .ok a → f a = g a) :
    (x >>= f) = (x >>= g) := by
  cases x with
  | error e => rfl
  | ok a => exact h a rfl

/-- A chain of which a beginning is a chain of its own. -/
theorem Except.bind_bind_congr {ε α β γ : Type} {x : Except ε α} {f : α → Except ε γ} {g : α → Except ε β}
    {k : β → Except ε γ} (h : ∀ a, x = .ok a → f a = (g a >>= k)) : (x >>= f) = ((x >>= g) >>= k) := by
  cases x with
  | error e => rfl
  | ok a => exact h a rfl

theorem Except.mapError_ok {ε ε' α : Type} {f : ε → ε'} {x : Except ε α} {a : α} (h : x.mapError f = .ok a) :
    x = .ok a := by
  cases x with
  | error e => cases h
  | ok b => exact congrArg Except.ok (Except.ok.inj h)

theorem Except.mapError_error {ε ε' α : Type} {f : ε → ε'} {x : Except ε α} {e' : ε'} (h : x.mapError f = .error e') :
    ∃ e, x = .error e ∧ e' = f e := by
  cases x with
  | error e => exact ⟨e, rfl, (Except.error.inj h).symm⟩
  | ok a => cases h

/-- A run with a decidable property is found by evaluating it. -/
theorem Except.exists_ok {ε α : Type} {p : α → Prop} [DecidablePred p] {x : Except ε α}
    (h : (x.toOption.any fun a => decide (p a)) = true) : ∃ a, x = .ok a ∧ p a := by
  cases x with
  | error e => cases h
  | ok a => exact ⟨a, rfl, of_decide_eq_true h⟩

end PatternCatalog
