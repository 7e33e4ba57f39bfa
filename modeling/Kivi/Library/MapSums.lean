import Mathlib

/-!
# Sums over finite maps

The sum of a weight over the values of a finite ordered map, with how it changes when a new key
is inserted (`mapSum_insert`) and when a key is erased (`mapSum_erase_le`).
-/

namespace Kivi.Library.MapSums

open Std (ExtTreeMap)

universe u v

variable {κ : Type u} {α : Type v} [Ord κ] [Std.TransOrd κ]

/-- The weights of all values, added up. -/
def mapSum (weight : α → Nat) (map : ExtTreeMap κ α) : Nat :=
  (map.toList.map fun item ↦ weight item.2).sum

variable [Std.LawfulEqOrd κ] {weight : α → Nat} {map : ExtTreeMap κ α}

theorem nodup_toList (map : ExtTreeMap κ α) : map.toList.Nodup := by
  refine ExtTreeMap.distinct_keys_toList.imp fun h heq ↦ h ?_
  rw [heq]
  exact Std.ReflCmp.compare_self

/-- Inserting a new key adds its item to the list of items, up to order. -/
theorem toList_insert_perm {key : κ} (value : α) (hnew : map[key]? = none) :
    (map.insert key value).toList.Perm ((key, value) :: map.toList) := by
  have hfresh : (key, value) ∉ map.toList := by
    rw [ExtTreeMap.mem_toList_iff_getElem?_eq_some, hnew]
    simp
  rw [List.perm_ext_iff_of_nodup (nodup_toList _) (List.nodup_cons.mpr ⟨hfresh, nodup_toList _⟩)]
  rintro ⟨other, item⟩
  rw [List.mem_cons, ExtTreeMap.mem_toList_iff_getElem?_eq_some,
    ExtTreeMap.mem_toList_iff_getElem?_eq_some, ExtTreeMap.getElem?_insert]
  by_cases hsame : key = other
  · subst hsame
    simp [hnew, eq_comm]
  · have hcompare : compare key other ≠ .eq := fun heq ↦
      hsame (Std.LawfulEqCmp.eq_of_compare heq)
    simp [hcompare, Ne.symm hsame]

theorem mapSum_insert {key : κ} (value : α) (hnew : map[key]? = none) :
    mapSum weight (map.insert key value) = weight value + mapSum weight map := by
  have hperm := (toList_insert_perm value hnew).map fun item ↦ weight item.2
  rw [mapSum, hperm.sum_eq]
  rfl

theorem insert_erase_self {key : κ} {value : α} (hheld : map[key]? = some value) :
    (map.erase key).insert key value = map := by
  refine ExtTreeMap.ext_getElem? fun other ↦ ?_
  rw [ExtTreeMap.getElem?_insert, ExtTreeMap.getElem?_erase]
  by_cases hsame : key = other
  · subst hsame
    simp [hheld]
  · have hcompare : compare key other ≠ .eq := fun heq ↦
      hsame (Std.LawfulEqCmp.eq_of_compare heq)
    simp [hcompare]

theorem mapSum_erase_le (key : κ) : mapSum weight (map.erase key) ≤ mapSum weight map := by
  cases hheld : map[key]? with
  | none =>
    have hsame : map.erase key = map := by
      refine ExtTreeMap.ext_getElem? fun other ↦ ?_
      rw [ExtTreeMap.getElem?_erase]
      split_ifs with heq
      · rw [← Std.LawfulEqCmp.eq_of_compare heq, hheld]
      · rfl
    rw [hsame]
  | some value =>
    have herased : (map.erase key)[key]? = none := by
      rw [ExtTreeMap.getElem?_erase]
      simp
    conv_rhs => rw [← insert_erase_self hheld, mapSum_insert value herased]
    omega

end Kivi.Library.MapSums
