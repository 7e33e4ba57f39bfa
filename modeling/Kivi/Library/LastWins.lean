import Kivi.Library.OrderedMaps

/-!
# Collapsing a list by key, the last item winning

`lastWins key items` is the ordered map that inserting the items one after the other leaves.
Each of its entries is an item under its own key (`mem_of_getElem?_lastWins`), and every item's
key has an entry (`getElem?_lastWins_isSome`). A map is what inserting its own entries leaves
(`foldl_insert_toList`).
-/

namespace Kivi.Library.LastWins

open Std (ExtTreeMap)

universe u v w

variable {κ : Type u} {α : Type v} {β : Type w} [Ord κ] [Std.TransOrd κ]

/-- The map from keys to the last item with that key. -/
def lastWins (key : α → κ) (items : List α) : ExtTreeMap κ α :=
  items.foldl (fun collapsed item ↦ collapsed.insert (key item) item) ∅

theorem size_foldl_insert_le (key : α → κ) (value : α → β) (items : List α)
    (start : ExtTreeMap κ β) :
    (items.foldl (fun collapsed item ↦ collapsed.insert (key item) (value item)) start).size ≤
      start.size + items.length := by
  induction items generalizing start with
  | nil => exact le_rfl
  | cons item rest ih =>
    have hinsert : (start.insert (key item) (value item)).size ≤ start.size + 1 :=
      ExtTreeMap.size_insert_le
    have hrest := ih (start.insert (key item) (value item))
    rw [List.length_cons]
    exact hrest.trans (by omega)

variable [Std.LawfulEqOrd κ] {key : α → κ}

theorem getElem?_foldl_insert_cases (key : α → κ) (value : α → β) (items : List α)
    (start : ExtTreeMap κ β) (k : κ) :
    (∃ item ∈ items, key item = k ∧
      (items.foldl (fun collapsed item ↦ collapsed.insert (key item) (value item)) start)[k]? =
        some (value item)) ∨
    ((∀ item ∈ items, key item ≠ k) ∧
      (items.foldl (fun collapsed item ↦ collapsed.insert (key item) (value item)) start)[k]? =
        start[k]?) := by
  induction items generalizing start with
  | nil => exact Or.inr ⟨by simp, rfl⟩
  | cons item rest ih =>
    rcases ih (start.insert (key item) (value item)) with ⟨other, hmem, hkey, hget⟩ | ⟨hnone, hget⟩
    · exact Or.inl ⟨other, List.mem_cons_of_mem _ hmem, hkey, hget⟩
    · by_cases hitem : key item = k
      · refine Or.inl ⟨item, List.mem_cons_self, hitem, ?_⟩
        rw [List.foldl_cons, hget, ← hitem, ExtTreeMap.getElem?_insert_self]
      · refine Or.inr ⟨?_, ?_⟩
        · intro other hmem
          rcases List.mem_cons.mp hmem with rfl | hmem
          · exact hitem
          · exact hnone other hmem
        · rw [List.foldl_cons, hget, ExtTreeMap.getElem?_insert]
          simp [hitem]

theorem getElem?_lastWins [DecidableEq κ] (key : α → κ) (items : List α) (k : κ) :
    (lastWins key items)[k]? = items.reverse.find? fun item ↦ key item = k := by
  induction items using List.reverseRecOn with
  | nil => simp [lastWins]
  | append_singleton items item ih =>
    have hlast : lastWins key (items ++ [item]) = (lastWins key items).insert (key item) item := by
      simp [lastWins]
    rw [hlast, ExtTreeMap.getElem?_insert, ih]
    by_cases hkey : key item = k <;> simp [hkey]

theorem mem_of_getElem?_lastWins {items : List α} {k : κ} {item : α}
    (h : (lastWins key items)[k]? = some item) : item ∈ items ∧ key item = k := by
  classical
  rw [getElem?_lastWins] at h
  exact ⟨List.mem_reverse.mp (List.mem_of_find?_eq_some h), by simpa using List.find?_some h⟩

theorem getElem?_lastWins_isSome {items : List α} {item : α} (h : item ∈ items) :
    ∃ other, (lastWins key items)[key item]? = some other := by
  classical
  rw [getElem?_lastWins, ← Option.isSome_iff_exists, List.find?_isSome]
  exact ⟨item, List.mem_reverse.mpr h, decide_eq_true rfl⟩

/-- Items in strict key order are all kept, and in their order. -/
theorem toList_lastWins_of_ascending {items : List α}
    (h : items.Pairwise fun first second ↦ compare (key first) (key second) = .lt) :
    (lastWins key items).toList = items.map fun item ↦ (key item, item) := by
  have hkeys : (items.map key).Pairwise fun first second ↦ compare (id first) (id second) = .lt :=
    List.pairwise_map.mpr h
  have hnodup := OrderedMaps.nodup_of_ascending hkeys
  refine OrderedMaps.toList_eq_of_ascending (List.pairwise_map.mpr h) fun k item ↦ ?_
  rw [List.mem_map]
  constructor
  · intro hget
    obtain ⟨hmem, rfl⟩ := mem_of_getElem?_lastWins hget
    exact ⟨item, hmem, rfl⟩
  · rintro ⟨found, hmem, heq⟩
    obtain ⟨rfl, rfl⟩ := Prod.mk.inj heq
    obtain ⟨other, hother⟩ := @getElem?_lastWins_isSome _ _ _ _ _ key _ _ hmem
    obtain ⟨hmem', hkey⟩ := mem_of_getElem?_lastWins hother
    rw [hother, List.inj_on_of_nodup_map hnodup hmem' hmem hkey]

/-! ### Maps rebuilt from their entries -/

/-- Items that list the entries of a map rebuild it. -/
theorem foldl_insert_eq {key : α → κ} {value : α → β} {items : List α}
    {map : ExtTreeMap κ β}
    (h : ∀ k v, map[k]? = some v ↔ ∃ item ∈ items, key item = k ∧ value item = v) :
    items.foldl (fun collapsed item ↦ collapsed.insert (key item) (value item)) ∅ = map := by
  refine ExtTreeMap.ext_getElem? fun k ↦ ?_
  rcases getElem?_foldl_insert_cases key value items ∅ k with
    ⟨item, hmem, hkey, hget⟩ | ⟨hnone, hget⟩
  · rw [hget]
    exact ((h k (value item)).mpr ⟨item, hmem, hkey, rfl⟩).symm
  · rw [hget, ExtTreeMap.getElem?_empty]
    refine (Option.eq_none_iff_forall_not_mem.mpr fun v hv ↦ ?_).symm
    obtain ⟨item, hmem, hkey, -⟩ := (h k v).mp hv
    exact hnone item hmem hkey

theorem foldl_insert_toList (map : ExtTreeMap κ β) :
    map.toList.foldl (fun collapsed entry ↦ collapsed.insert entry.1 entry.2) ∅ = map := by
  refine foldl_insert_eq fun k v ↦ ?_
  rw [← ExtTreeMap.mem_toList_iff_getElem?_eq_some]
  constructor
  · intro hmem
    exact ⟨(k, v), hmem, rfl, rfl⟩
  · rintro ⟨entry, hmem, rfl, rfl⟩
    exact hmem

theorem pairwise_keys_toList (map : ExtTreeMap κ β) :
    map.toList.Pairwise fun first second ↦ first.1 ≠ second.1 := by
  refine map.distinct_keys_toList.imp fun hne heq ↦ hne ?_
  exact Std.compare_eq_iff_eq.mpr heq

/-- What a map holds after entries were entered is one of them, or was there before. -/
theorem mem_of_getElem?_insertMany {items : List (κ × β)} {start : ExtTreeMap κ β} {k : κ}
    {v : β} (h : (start.insertMany items)[k]? = some v) : (k, v) ∈ items ∨ start[k]? = some v := by
  induction items generalizing start with
  | nil => exact Or.inr (by simpa using h)
  | cons item rest ih =>
    obtain ⟨key, value⟩ := item
    rw [ExtTreeMap.insertMany_cons] at h
    rcases ih h with hrest | hfirst
    · exact Or.inl (List.mem_cons_of_mem _ hrest)
    · rw [ExtTreeMap.getElem?_insert] at hfirst
      split_ifs at hfirst with hkey
      · cases hfirst
        rw [Std.compare_eq_iff_eq.mp hkey]
        exact Or.inl List.mem_cons_self
      · exact Or.inr hfirst

/-- What the map of some entries holds is one of them. -/
theorem mem_of_getElem?_ofList {items : List (κ × β)} {k : κ} {v : β}
    (h : (ExtTreeMap.ofList items)[k]? = some v) : (k, v) ∈ items := by
  rw [ExtTreeMap.ofList_eq_insertMany_empty] at h
  rcases mem_of_getElem?_insertMany h with hmem | hempty
  · exact hmem
  · simp at hempty

end Kivi.Library.LastWins
