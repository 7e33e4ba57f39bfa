import Mathlib

/-!
# Results of code that may panic

A call returns a value, returns an error, or does not return because it panicked. `Result`
keeps the three apart, so that "returns `Ok`" excludes both other cases.
-/

namespace Kivi.Library

universe u v

/-- What a fallible call that can also panic does. -/
inductive Result (ε : Type u) (α : Type v) where
  | ok (value : α)
  | err (error : ε)
  | panic
deriving DecidableEq

namespace Result

variable {ε : Type u} {α : Type v} {β : Type v}

/-- Run `next` on the value of a successful call. -/
def bind (x : Result ε α) (next : α → Result ε β) : Result ε β :=
  match x with
  | ok value => next value
  | err error => err error
  | panic => panic

instance : Monad (Result ε) where
  pure := ok
  bind := bind

@[simp] theorem bind_ok (value : α) (next : α → Result ε β) :
    (ok value : Result ε α) >>= next = next value := rfl

@[simp] theorem bind_err (error : ε) (next : α → Result ε β) :
    (err error : Result ε α) >>= next = err error := rfl

@[simp] theorem bind_panic (next : α → Result ε β) : (panic : Result ε α) >>= next = panic := rfl

@[simp] theorem pure_eq_ok (value : α) : (pure value : Result ε α) = ok value := rfl

/-- The value of a call that succeeds. -/
def toOption : Result ε α → Option α
  | ok value => some value
  | err _ => none
  | panic => none

/-- A call that panics where it has no value. -/
def orPanic : Option α → Result ε α
  | some value => ok value
  | none => panic

theorem bind_eq_ok_iff {x : Result ε α} {next : α → Result ε β} {result : β} :
    x >>= next = ok result ↔ ∃ value, x = ok value ∧ next value = ok result := by
  cases x with
  | ok value => simp
  | err error => simp
  | panic => simp

theorem ite_eq_ok_iff {p : Prop} [Decidable p] {value other : α} {error : ε} :
    (if p then ok value else err error) = ok other ↔ p ∧ value = other := by
  by_cases h : p
  · simp [h]
  · simp [h]

theorem toOption_eq_some_iff {x : Result ε α} {value : α} :
    x.toOption = some value ↔ x = ok value := by
  cases x with
  | ok other => simp [toOption]
  | err error => simp [toOption]
  | panic => simp [toOption]

theorem orPanic_eq_ok_iff {found : Option α} {value : α} :
    (orPanic found : Result ε α) = ok value ↔ found = some value := by
  cases found with
  | none => simp [orPanic]
  | some other => simp [orPanic]

end Result

end Kivi.Library
