import Mathlib

/-!
# Terminated fields with an escaped terminator

A field over an ordered alphabet is written with its terminator `low`, the least letter, escaped as
`low mark`, and closed by one `low`. Whether this is faithful depends on what follows: in front of
anything that does not begin with `mark`, fields compare as their contents do and then by what
follows them (`compare_terminated`). In front of `mark` the terminator reads as an escaped letter
(`terminated_append_mark`), so the written field is the beginning of a longer one.

Even in front of harmless text, one written field may be the beginning of another: this happens
exactly for a field that goes on with `low` (`terminated_isPrefix_iff`).
-/

namespace Kivi.Library.EscapedFields

universe u

variable {α : Type u} [DecidableEq α]

/-- A field with its terminator, and the terminator escaped inside. -/
def terminated (low mark : α) : List α → List α
  | [] => [low]
  | letter :: rest =>
    if letter = low then low :: mark :: terminated low mark rest
    else letter :: terminated low mark rest

variable {low mark : α}

theorem terminated_low (rest : List α) :
    terminated low mark (low :: rest) = low :: mark :: terminated low mark rest := if_pos rfl

theorem terminated_of_ne {letter : α} (h : letter ≠ low) (rest : List α) :
    terminated low mark (letter :: rest) = letter :: terminated low mark rest := if_neg h

theorem terminated_ne_nil (field : List α) : terminated low mark field ≠ [] := by
  cases field with
  | nil => simp [terminated]
  | cons letter rest =>
    rw [terminated]
    split <;> simp

/-- In front of the mark, a terminator reads as an escaped letter. -/
theorem terminated_append_mark (field rest : List α) :
    terminated low mark field ++ mark :: terminated low mark rest =
      terminated low mark (field ++ low :: rest) := by
  induction field with
  | nil => simp [terminated]
  | cons letter field ih =>
    by_cases hletter : letter = low
    · subst hletter
      simp [terminated_low, ih]
    · simp [terminated_of_ne hletter, ih]

theorem head?_terminated (hmark : mark ≠ low) (field : List α) :
    (terminated low mark field).head? = some mark ↔ field.head? = some mark := by
  cases field with
  | nil => simp [terminated, hmark.symm]
  | cons letter field =>
    by_cases hletter : letter = low
    · subst hletter
      simp [terminated_low, hmark.symm]
    · simp [terminated_of_ne hletter]

/-- A written field is the beginning of another exactly if it is the same or the other goes on with
the terminator. -/
theorem terminated_isPrefix_iff {first second after : List α} (hafter : after.head? ≠ some mark) :
    terminated low mark first <+: terminated low mark second ++ after ↔
      first = second ∨ first ++ [low] <+: second := by
  induction first generalizing second with
  | nil =>
    cases second with
    | nil => simp [terminated]
    | cons letter rest =>
      by_cases hletter : letter = low
      · subst hletter
        simp [terminated]
      · simp [terminated, hletter, Ne.symm hletter]
  | cons letter others ih =>
    cases second with
    | nil =>
      by_cases hletter : letter = low
      · subst hletter
        have hmark : ¬mark :: terminated letter mark others <+: after := by
          rintro ⟨rest, rfl⟩
          exact hafter rfl
        simp [terminated, hmark]
      · simp [terminated, hletter]
    | cons other rest =>
      by_cases hletter : letter = low
      · subst hletter
        by_cases hother : other = letter
        · subst hother
          simpa [terminated_low] using ih
        · simp [terminated_low, terminated_of_ne hother, Ne.symm hother]
      · by_cases hother : other = low
        · subst hother
          simp [terminated_low, terminated_of_ne hletter, hletter]
        · by_cases hsame : letter = other
          · subst hsame
            simpa [terminated_of_ne hletter] using ih
          · simp [terminated_of_ne hletter, terminated_of_ne hother, hsame]

/-! ### Order -/

variable [Ord α]

omit [DecidableEq α] in
theorem compare_lt_of_head? (hmark : ∀ letter, letter ≠ mark → compare letter mark = .lt)
    {after : List α} (hafter : after.head? ≠ some mark) (rest : List α) :
    compare after (mark :: rest) = .lt := by
  cases after with
  | nil => rfl
  | cons letter others =>
    have hletter : letter ≠ mark := fun h ↦ hafter (by rw [h, List.head?_cons])
    rw [List.compare_cons_cons, hmark letter hletter]
    rfl

variable [Std.OrientedOrd α]

omit [DecidableEq α] in
theorem compare_append_left (front first second : List α) :
    compare (front ++ first) (front ++ second) = compare first second := by
  induction front with
  | nil => rfl
  | cons letter front ih => simp [List.compare_cons_cons, ih]

/-- Written fields compare by their contents first and then by what follows them. -/
theorem compare_terminated (hlow : ∀ letter, letter ≠ low → compare low letter = .lt)
    (hmark : ∀ letter, letter ≠ mark → compare letter mark = .lt)
    {first second after after' : List α} (hafter : after.head? ≠ some mark)
    (hafter' : after'.head? ≠ some mark) :
    compare (terminated low mark first ++ after) (terminated low mark second ++ after') =
      (compare first second).then (compare after after') := by
  have hgt (letter : α) (hletter : letter ≠ low) : compare letter low = .gt :=
    Std.OrientedCmp.gt_iff_lt.mpr (hlow letter hletter)
  induction first generalizing second with
  | nil =>
    cases second with
    | nil => simp [terminated, List.compare_cons_cons]
    | cons letter rest =>
      by_cases hletter : letter = low
      · subst hletter
        simp [terminated, List.compare_cons_cons, compare_lt_of_head? hmark hafter]
      · simp [terminated, hletter, List.compare_cons_cons, hlow letter hletter]
  | cons letter others ih =>
    cases second with
    | nil =>
      by_cases hletter : letter = low
      · subst hletter
        simp [terminated, List.compare_cons_cons, Std.OrientedCmp.gt_iff_lt,
          compare_lt_of_head? hmark hafter']
      · simp [terminated, hletter, List.compare_cons_cons, hgt letter hletter]
    | cons other rest =>
      by_cases hletter : letter = low
      · subst hletter
        by_cases hother : other = letter
        · subst hother
          simp [terminated_low, List.compare_cons_cons, ih]
        · simp [terminated_low, terminated_of_ne hother, List.compare_cons_cons,
            hlow other hother]
      · by_cases hother : other = low
        · subst hother
          simp [terminated_low, terminated_of_ne hletter, List.compare_cons_cons,
            hgt letter hletter]
        · simp [terminated_of_ne hletter, terminated_of_ne hother, List.compare_cons_cons, ih,
            Ordering.then_assoc]

end Kivi.Library.EscapedFields
