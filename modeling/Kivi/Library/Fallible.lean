import Mathlib

/-!
# Computations that stop at the first error

When a computation made of checks succeeds, each of its checks did. `ensure` is the check of one
condition.
-/

namespace Kivi.Library.Fallible

universe u v

variable {ε : Type u} {α β : Type v}

/-- Go on if the condition holds. -/
def ensure (condition : Prop) [Decidable condition] (error : ε) : Except ε Unit :=
  if condition then .ok () else .error error

theorem ensure_eq_ok_iff {condition : Prop} [Decidable condition] {error : ε} {value : Unit} :
    ensure condition error = .ok value ↔ condition := by
  by_cases h : condition <;> simp [ensure, h]

theorem bind_eq_ok_iff {first : Except ε α} {next : α → Except ε β} {result : β} :
    first >>= next = .ok result ↔ ∃ value, first = .ok value ∧ next value = .ok result := by
  cases first with
  | error error => simp [bind, Except.bind]
  | ok value => simp [bind, Except.bind]

end Kivi.Library.Fallible
