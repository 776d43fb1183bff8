import Mathlib.Logic.Basic

/-!
# What a fallible computation ensures

`Ensures Allowed x P`: if `x` returns, its result satisfies `P`, and if it
fails, its error is one of `Allowed`. The rules follow the shape of a `do`
block in `Except`, so a function is treated statement by statement.
-/

namespace Checked

universe u v

variable {ε : Type u} {α β : Type v} {Allowed : ε → Prop} {x : Except ε α} {P Q : α → Prop}

/-- A result satisfies `P`, an error is `Allowed`. -/
def Ensures (Allowed : ε → Prop) (x : Except ε α) (P : α → Prop) : Prop :=
  match x with
  | .ok a => P a
  | .error e => Allowed e

@[simp] theorem ensures_ok {a : α} : Ensures Allowed (.ok a) P ↔ P a := Iff.rfl

@[simp] theorem ensures_pure {a : α} : Ensures Allowed (pure a) P ↔ P a := Iff.rfl

@[simp] theorem ensures_error {e : ε} : Ensures Allowed (.error e) P ↔ Allowed e := Iff.rfl

/-- The rule for sequencing. -/
@[simp] theorem ensures_bind {f : α → Except ε β} {R : β → Prop} :
    Ensures Allowed (x >>= f) R ↔ Ensures Allowed x fun a => Ensures Allowed (f a) R := by
  cases x <;> rfl

/-- The rule for a computation whose result is converted. -/
@[simp] theorem ensures_map {f : α → β} {R : β → Prop} :
    Ensures Allowed (f <$> x) R ↔ Ensures Allowed x fun a => R (f a) := by
  cases x <;> rfl

/-- The rule of consequence. -/
theorem Ensures.mono (h : Ensures Allowed x P) (hPQ : ∀ a, P a → Q a) : Ensures Allowed x Q := by
  cases x with
  | ok a => exact hPQ a h
  | error e => exact h

theorem Ensures.result {a : α} (h : Ensures Allowed x P) (hx : x = .ok a) : P a := by
  subst hx
  exact h

theorem Ensures.allowed {e : ε} (h : Ensures Allowed x P) (hx : x = .error e) : Allowed e := by
  subst hx
  exact h

/-- A result that is found as an option. -/
theorem ok_of_toOption {a : α} (h : x.toOption = some a) : x = .ok a := by
  cases x with
  | ok b => exact congrArg Except.ok (Option.some.inj h)
  | error e => cases h

end Checked
