import Mathlib

/-!
# Half-open intervals

Intervals `[start, stop)` over an ordered type, where a missing `stop` leaves the interval
unbounded. Two intervals that are not empty meet exactly when each starts before the other stops.
-/

namespace Kivi.Library.HalfOpen

universe u

variable {α : Type u} [Ord α]

/-- The order of the type as a test. -/
def precedes (first second : α) : Bool := compare first second == .lt

/-- A point lies before the end of an interval. -/
def below (point : α) (stop : Option α) : Bool := stop.all (precedes point)

/-- A point lies in the interval. -/
def inside (start : α) (stop : Option α) (point : α) : Bool :=
  !precedes point start && below point stop

theorem precedes_iff {first second : α} : precedes first second = true ↔
    compare first second = .lt := by
  simp [precedes]

theorem inside_iff {start point : α} {stop : Option α} : inside start stop point = true ↔
    precedes point start = false ∧ below point stop = true := by
  simp [inside]

variable [Std.TransOrd α]

theorem precedes_irrefl (point : α) : precedes point point = false := by
  simp [precedes, Std.ReflCmp.compare_self]

theorem precedes_trans {first middle last : α} (hfirst : precedes first middle = true)
    (hlast : precedes middle last = true) : precedes first last = true :=
  precedes_iff.mpr (Std.TransCmp.lt_trans (precedes_iff.mp hfirst) (precedes_iff.mp hlast))

/-- What is not before `first` and before `last` shows that `first` is before `last`. -/
theorem precedes_of_not_precedes {first middle last : α} (hfirst : precedes middle first = false)
    (hlast : precedes middle last = true) : precedes first last = true := by
  have hle : (compare first middle).isLE := by
    by_contra hnot
    rw [precedes_iff.mpr (Std.OrientedCmp.lt_of_not_isLE hnot)] at hfirst
    cases hfirst
  exact precedes_iff.mpr (Std.TransCmp.lt_of_isLE_of_lt hle (precedes_iff.mp hlast))

theorem precedes_asymm {first second : α} (h : precedes first second = true) :
    precedes second first = false := by
  by_contra hback
  have hloop := precedes_trans h (Bool.not_eq_false _ ▸ hback)
  rw [precedes_irrefl] at hloop
  cases hloop

theorem below_of_not_precedes {first point : α} {stop : Option α}
    (hfirst : precedes point first = false) (h : below point stop = true) :
    below first stop = true := by
  cases stop with
  | none => rfl
  | some bound => exact precedes_of_not_precedes hfirst h

theorem inside_start {start : α} {stop : Option α} (h : below start stop = true) :
    inside start stop start = true :=
  inside_iff.mpr ⟨precedes_irrefl start, h⟩

/-- Two intervals that are not empty share a point exactly if each starts before the other ends. -/
theorem exists_inside_iff {start start' : α} {stop stop' : Option α}
    (h : below start stop = true) (h' : below start' stop' = true) :
    (∃ point, inside start stop point = true ∧ inside start' stop' point = true) ↔
      below start stop' = true ∧ below start' stop = true := by
  constructor
  · rintro ⟨point, hpoint, hpoint'⟩
    rw [inside_iff] at hpoint hpoint'
    exact ⟨below_of_not_precedes hpoint.1 hpoint'.2, below_of_not_precedes hpoint'.1 hpoint.2⟩
  · rintro ⟨hcross, hcross'⟩
    -- the later of the two starts is the point
    by_cases horder : precedes start start' = true
    · exact ⟨start', inside_iff.mpr ⟨precedes_asymm horder, hcross'⟩, inside_start h'⟩
    · exact ⟨start, inside_start h, inside_iff.mpr ⟨Bool.not_eq_true _ ▸ horder, hcross⟩⟩

end Kivi.Library.HalfOpen
