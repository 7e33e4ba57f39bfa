import Mathlib

/-!
# Sorted lists

Lists whose elements follow each other in a relation. In such a list, what holds of an element
whenever it holds of a later one holds of an initial segment (`takeWhile_eq_filter`), and what
follows an element in the relation is what follows it in the list (`filter_after`).
-/

namespace Kivi.Library.SortedLists

universe u

variable {α : Type u} (before : α → α → Bool)

theorem takeWhile_eq_filter {keeps : α → Bool} {items : List α}
    (hsorted : items.Pairwise fun first second ↦ before first second = true)
    (hkeeps : ∀ first second, before first second = true → keeps second = true →
      keeps first = true) : items.takeWhile keeps = items.filter keeps := by
  induction items with
  | nil => rfl
  | cons first rest ih =>
    obtain ⟨hfirst, hrest⟩ := List.pairwise_cons.mp hsorted
    by_cases hkept : keeps first = true
    · rw [List.takeWhile_cons_of_pos hkept, List.filter_cons_of_pos hkept, ih hrest]
    · have hnone : ∀ later ∈ first :: rest, ¬ keeps later = true := by
        intro later hmem hlater
        rcases List.mem_cons.mp hmem with rfl | hmem
        · exact hkept hlater
        · exact hkept (hkeeps first later (hfirst later hmem) hlater)
      rw [List.takeWhile_cons_of_neg hkept, List.filter_eq_nil_iff.mpr hnone]

variable {before}

/-- What follows an element in the order is what follows it in the list. -/
theorem filter_after (hasymm : ∀ first second, before first second = true →
      before second first = false) {front back : List α} {item : α}
    (hsorted : (front ++ item :: back).Pairwise fun first second ↦ before first second = true) :
    (front ++ item :: back).filter (before item) = back := by
  obtain ⟨-, hitem, hfront⟩ := List.pairwise_append.mp hsorted
  obtain ⟨hback, -⟩ := List.pairwise_cons.mp hitem
  have hself : before item item = false := by
    by_cases h : before item item = true
    · exact hasymm item item h
    · simpa using h
  have hearlier : front.filter (before item) = [] := by
    refine List.filter_eq_nil_iff.mpr fun other hmem ↦ ?_
    rw [hasymm other item (hfront other hmem item List.mem_cons_self)]
    exact Bool.false_ne_true
  rw [List.filter_append, hearlier, List.nil_append,
    List.filter_cons_of_neg (by simp [hself]), List.filter_eq_self.mpr hback]

end Kivi.Library.SortedLists
