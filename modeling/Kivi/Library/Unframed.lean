import Mathlib

/-!
# Named records written without framing

A list of records, each under a name, written one after the other as the letters of the name and of
the record, with nothing that says where a name ends. Lists are told apart by what they are written
as only if they are very short: two or more records are also one record under a long name, so what
is written determines the list exactly if the list is empty, or is one record whose letters hold no
other record in the wrong place (`determined_iff`). Names ascend in the lists that are compared.
-/

namespace Kivi.Library.Unframed

universe u v

variable {α : Type u} {κ : Type v} (record : κ → List α) (before : List α → List α → Prop)

/-- What a list of named records is written as. -/
def stream (items : List (List α × κ)) : List α :=
  items.flatMap fun item ↦ item.1 ++ record item.2

/-- The names of a list ascend. -/
def Ascending (items : List (List α × κ)) : Prop :=
  items.Pairwise fun first second ↦ before first.1 second.1

/-- What one named record is written as ends with no other record, and its name holds none between
two parts that could be names. -/
structure Plain (name : List α) (kind : κ) : Prop where
  ending : ∀ front other, name ++ record kind = front ++ record other → front = name
  inner : ∀ front other back, name = front ++ record other ++ back → ¬before front back

variable {record before}

@[simp] theorem stream_nil : stream record [] = [] := rfl

@[simp] theorem stream_cons (item : List α × κ) (rest : List (List α × κ)) :
    stream record (item :: rest) = item.1 ++ record item.2 ++ stream record rest := rfl

@[simp] theorem stream_append (front back : List (List α × κ)) :
    stream record (front ++ back) = stream record front ++ stream record back :=
  List.flatMap_append

theorem ascending_singleton (item : List α × κ) : Ascending before [item] :=
  List.pairwise_singleton _ _

theorem eq_nil_of_stream (hne : ∀ kind, record kind ≠ []) {items : List (List α × κ)}
    (h : stream record items = []) : items = [] := by
  cases items with
  | nil => rfl
  | cons item rest =>
    rw [stream_cons, List.append_eq_nil_iff, List.append_eq_nil_iff] at h
    exact absurd h.1.2 (hne item.2)

section

variable (hinjective : Function.Injective record) (hne : ∀ kind, record kind ≠ [])
  (hextend : ∀ front name rest, before front name → before front (name ++ rest))
include hinjective hne hextend

/-- A plain record is written as no other list of ascending names. -/
theorem eq_of_plain {name : List α} {kind : κ} (hplain : Plain record before name kind)
    {items : List (List α × κ)} (hitems : Ascending before items)
    (h : stream record items = stream record [(name, kind)]) : items = [(name, kind)] := by
  rcases List.eq_nil_or_concat items with rfl | ⟨front, last, rfl⟩
  · exact absurd (eq_nil_of_stream hne h.symm) (List.cons_ne_nil _ _)
  · rw [List.concat_eq_append] at hitems h ⊢
    have hwritten : name ++ record kind = stream record front ++ last.1 ++ record last.2 := by
      simpa using h.symm
    have hname := hplain.ending _ _ hwritten
    rw [hname, List.append_cancel_left_eq] at hwritten
    have hkind := hinjective hwritten
    cases front with
    | nil =>
      rw [stream_nil, List.nil_append] at hname
      rw [List.nil_append, ← hname, hkind]
    | cons first middle =>
      rw [stream_cons, List.append_assoc] at hname
      -- The first name is before all that is written between its record and the last one.
      refine absurd ?_ (hplain.inner _ _ _ hname.symm)
      have hfirst := (List.pairwise_cons.mp hitems).1
      cases middle with
      | nil => exact hfirst last (by simp)
      | cons next middle =>
        rw [stream_cons, List.append_assoc, List.append_assoc]
        exact hextend _ _ _ (hfirst next (by simp))

/-- What a list of ascending names is written as determines the list exactly if the list is empty
or one plain record. -/
theorem determined_iff (items : List (List α × κ)) :
    (∀ other, Ascending before other → stream record other = stream record items →
        other = items) ↔
      items = [] ∨ ∃ name kind, items = [(name, kind)] ∧ Plain record before name kind := by
  constructor
  · intro hdetermined
    rcases List.eq_nil_or_concat items with rfl | ⟨front, ⟨name, kind⟩, rfl⟩
    · exact Or.inl rfl
    · rw [List.concat_eq_append] at hdetermined ⊢
      have hmerged := hdetermined [(stream record front ++ name, kind)] (ascending_singleton _)
        (by simp)
      have hfront : front = [] := by
        have hlength := congrArg List.length hmerged
        rw [List.length_append, List.length_singleton, List.length_singleton] at hlength
        exact List.eq_nil_of_length_eq_zero (by omega)
      subst hfront
      refine Or.inr ⟨name, kind, rfl, ?_, ?_⟩
      · intro front other hwritten
        have hsame := hdetermined [(front, other)] (ascending_singleton _) (by simp [hwritten])
        exact (Prod.mk.inj (List.cons.inj hsame).1).1
      · intro front other back hname hbefore
        have hsame := hdetermined [(front, other), (back, kind)]
          (List.pairwise_pair.mpr hbefore) (by simp [hname])
        exact absurd (List.cons.inj hsame).2 (List.cons_ne_nil _ _)
  · rintro (rfl | ⟨name, kind, rfl, hplain⟩) other hother hwritten
    · exact eq_nil_of_stream hne hwritten
    · exact eq_of_plain hinjective hne hextend hplain hother hwritten

end

end Kivi.Library.Unframed
