import Mathlib

/-!
# The entries of an ordered map in their order

Two lists in strict key order with the same members are the same list (`eq_of_ascending`). So the
entries of a map are any list in strict key order that has them. Entering a key above all others
adds its entry at the end (`toList_insert_above`), entering one that is there changes its entry in
place (`toList_insert_at`), and erasing the lowest takes the first entry off (`toList_erase_head`).
-/

namespace Kivi.Library.OrderedMaps

open Std (ExtTreeMap)

universe u v w

variable {κ : Type u} {α : Type v} {β : Type w} [Ord κ] [Std.TransOrd κ]

theorem nodup_of_ascending {key : α → κ} {items : List α}
    (h : items.Pairwise fun first second ↦ compare (key first) (key second) = .lt) :
    items.Nodup := by
  refine h.imp fun hlt heq ↦ ?_
  rw [heq, Std.compare_self] at hlt
  cases hlt

theorem eq_of_ascending {key : α → κ} {first second : List α}
    (hfirst : first.Pairwise fun a b ↦ compare (key a) (key b) = .lt)
    (hsecond : second.Pairwise fun a b ↦ compare (key a) (key b) = .lt)
    (hmem : ∀ item, item ∈ first ↔ item ∈ second) : first = second := by
  have hperm := (List.perm_ext_iff_of_nodup (nodup_of_ascending hfirst)
    (nodup_of_ascending hsecond)).mpr hmem
  refine hperm.eq_of_pairwise ?_ hfirst hsecond
  intro a b _ _ hlt hgt
  rw [Std.OrientedCmp.gt_iff_lt.mpr hlt] at hgt
  cases hgt

section InsertIfNew

variable {map : ExtTreeMap κ β} {k key : κ} {v found : β}

theorem getElem?_insertIfNew_of_some (h : map[key]? = some found) :
    (map.insertIfNew k v)[key]? = some found := by
  have hmem : key ∈ map := by
    rw [ExtTreeMap.mem_iff_isSome_getElem?, h]
    rfl
  rw [ExtTreeMap.getElem?_insertIfNew, if_neg, h]
  rintro ⟨heq, hnew⟩
  exact hnew ((ExtTreeMap.mem_congr heq).mpr hmem)

theorem getElem?_insertIfNew_self_of_agrees (h : ∀ found, map[k]? = some found → found = v) :
    (map.insertIfNew k v)[k]? = some v := by
  cases hget : map[k]? with
  | some found => rw [getElem?_insertIfNew_of_some hget, h found hget]
  | none =>
    have hnew : k ∉ map := by simp [ExtTreeMap.mem_iff_isSome_getElem?, hget]
    rw [ExtTreeMap.getElem?_insertIfNew, if_pos ⟨Std.ReflCmp.compare_self, hnew⟩]

theorem of_getElem?_insertIfNew (h : (map.insertIfNew k v)[key]? = some found) :
    compare k key = .eq ∧ v = found ∨ map[key]? = some found := by
  rw [ExtTreeMap.getElem?_insertIfNew] at h
  split_ifs at h with hcond
  · exact Or.inl ⟨hcond.1, Option.some_inj.mp h⟩
  · exact Or.inr h

end InsertIfNew

variable [Std.LawfulEqOrd κ] {map : ExtTreeMap κ β}

theorem toList_eq_of_ascending {items : List (κ × β)}
    (hitems : items.Pairwise fun first second ↦ compare first.1 second.1 = .lt)
    (hmem : ∀ k v, map[k]? = some v ↔ (k, v) ∈ items) : map.toList = items := by
  refine eq_of_ascending map.ordered_keys_toList hitems fun entry ↦ ?_
  obtain ⟨k, v⟩ := entry
  rw [ExtTreeMap.mem_toList_iff_getElem?_eq_some, hmem]

/-- A key above all others is added at the end. -/
theorem toList_insert_above {k : κ} (v : β) (h : ∀ entry ∈ map.toList, compare entry.1 k = .lt) :
    (map.insert k v).toList = map.toList ++ [(k, v)] := by
  refine toList_eq_of_ascending ?_ fun key value ↦ ?_
  · refine List.pairwise_append.mpr ⟨map.ordered_keys_toList, List.pairwise_singleton _ _,
      fun entry hmem other hother ↦ ?_⟩
    rw [List.mem_singleton.mp hother]
    exact h entry hmem
  · rw [ExtTreeMap.getElem?_insert, List.mem_append, List.mem_singleton]
    by_cases hkey : compare k key = .eq
    · obtain rfl := Std.compare_eq_iff_eq.mp hkey
      rw [if_pos hkey]
      constructor
      · intro heq
        cases heq
        exact Or.inr rfl
      · rintro (hmem | heq)
        · have hlt := h _ hmem
          rw [Std.compare_self] at hlt
          cases hlt
        · cases heq
          rfl
    · rw [if_neg hkey, ← ExtTreeMap.mem_toList_iff_getElem?_eq_some]
      refine (or_iff_left ?_).symm
      intro heq
      cases heq
      exact hkey Std.compare_self

/-- Entering a key that is there changes its entry in place. -/
theorem toList_insert_at {front back : List (κ × β)} {k : κ} {old : β} (v : β)
    (h : map.toList = front ++ (k, old) :: back) :
    (map.insert k v).toList = front ++ (k, v) :: back := by
  have hsorted := map.ordered_keys_toList
  rw [h] at hsorted
  obtain ⟨hfront, hrest, hacross⟩ := List.pairwise_append.mp hsorted
  obtain ⟨hafter, hback⟩ := List.pairwise_cons.mp hrest
  refine toList_eq_of_ascending ?_ fun key value ↦ ?_
  · refine List.pairwise_append.mpr ⟨hfront, List.pairwise_cons.mpr ⟨hafter, hback⟩, ?_⟩
    intro entry hmem other hother
    rcases List.mem_cons.mp hother with rfl | hother
    · exact hacross entry hmem (k, old) List.mem_cons_self
    · exact hacross entry hmem other (List.mem_cons_of_mem _ hother)
  · rw [ExtTreeMap.getElem?_insert]
    by_cases hkey : compare k key = .eq
    · obtain rfl := Std.compare_eq_iff_eq.mp hkey
      rw [if_pos hkey, List.mem_append, List.mem_cons]
      constructor
      · intro heq
        cases heq
        exact Or.inr (Or.inl rfl)
      · rintro (hmem | heq | hmem)
        · have hlt := hacross _ hmem _ List.mem_cons_self
          rw [Std.compare_self] at hlt
          cases hlt
        · cases heq
          rfl
        · have hlt := hafter _ hmem
          rw [Std.compare_self] at hlt
          cases hlt
    · have hother (entry : β) : (key, value) ≠ (k, entry) := by
        rintro heq
        cases heq
        exact hkey Std.compare_self
      rw [if_neg hkey, ← ExtTreeMap.mem_toList_iff_getElem?_eq_some, h, List.mem_append,
        List.mem_append, List.mem_cons, List.mem_cons, or_iff_right (hother old),
        or_iff_right (hother v)]

theorem toList_erase_head {k : κ} {v : β} {rest : List (κ × β)} (h : map.toList = (k, v) :: rest) :
    (map.erase k).toList = rest := by
  have hsorted := map.ordered_keys_toList
  rw [h] at hsorted
  obtain ⟨hafter, hrest⟩ := List.pairwise_cons.mp hsorted
  refine toList_eq_of_ascending hrest fun key value ↦ ?_
  rw [ExtTreeMap.getElem?_erase]
  by_cases hkey : compare k key = .eq
  · obtain rfl := Std.compare_eq_iff_eq.mp hkey
    rw [if_pos hkey]
    refine iff_of_false (fun hnone ↦ nomatch hnone) fun hmem ↦ ?_
    have hlt := hafter _ hmem
    rw [Std.compare_self] at hlt
    cases hlt
  · rw [if_neg hkey, ← ExtTreeMap.mem_toList_iff_getElem?_eq_some, h, List.mem_cons]
    refine or_iff_right fun heq ↦ ?_
    cases heq
    exact hkey Std.compare_self

end Kivi.Library.OrderedMaps
