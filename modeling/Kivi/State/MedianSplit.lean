import Kivi.State.ScanPaging
import Kivi.State.ProducedOutcomes

/-!
# Choosing the key at which a range is split

The search adds up the stored bytes of the routable keys from the second one on and stops at the
first key with half of all bytes (`splitLoop`). Since it leaves out the bytes of the first key, it
finds nothing where that key outweighs all the others. A reachable store is given a usable split
point exactly where its first routable key does not (`medianSplitKey_usable_iff`).
-/

namespace Kivi.State

open Kivi.Library Kivi.Library.CheckedArith Kivi.Library.Runs

/-- The bytes a value accounts for; values with a state of their own count their encoding. -/
def LogicalValue.logicalBytes : LogicalValue → Nat
  | .bytes value => value.length
  | .chunked root => root.logicalLen.toNat
  | .fabric root => root.logicalLen.toNat
  | .strictCounter _ | .commutativeCounter _ => 8
  | .boundedCounter _ => 8 + 8 + (8 + 8 + 8)
  | .semaphore state => 8 + 4 + state.permits.size * (16 + 16)
  | .lease state => 1 + (if state.holder.isSome then 8 + 8 + 8 else 0) + 8
  | .streamShard state => 16 + 4 + 8 + 4 + (state.entries.map StreamEntry.encodedLen).sum

/-- System keys and index entries are not routed by their own bytes. -/
def Key.isRoutable (key : Key) : Bool := !key.isSystem && !isIndexKey key

namespace ObjectStore

/-- The first key at which the bytes so far are half of `total`, both operations saturating. -/
def splitLoop (store : ObjectStore) (total : Nat) : Nat → List Key → Option Key
  | _, [] => none
  | accumulated, key :: rest =>
    match store.objects[key]? with
    | none => splitLoop store total accumulated rest
    | some object =>
      let next := min (accumulated + object.value.logicalBytes) maxU64.toNat
      if total ≤ min (2 * next) maxU64.toNat then some key else splitLoop store total next rest

/-- The total is a plain sum of words, which panics where it does not fit. -/
def medianSplitKey (store : ObjectStore) : Result Unit (Option Key) :=
  match store.ordered with
  | none => .ok none
  | some ordered =>
    let candidates := ordered.toList.filter Key.isRoutable
    if candidates.length < 2 then .ok none
    else
      let total := ((candidates.filterMap fun key ↦ store.objects[key]?).map
        fun object ↦ object.value.logicalBytes).sum
      if total < 2 ^ 64 then .ok (store.splitLoop total 0 (candidates.drop 1)) else .panic

/-- The stored keys that route by their own bytes, in key order. -/
def routableKeys (store : ObjectStore) : List Key := store.objects.keys.filter Key.isRoutable

def bytesAt (store : ObjectStore) (key : Key) : Nat :=
  (store.objects[key]?.map fun object ↦ object.value.logicalBytes).getD 0

variable {store : ObjectStore} {total accumulated : Nat} {keys : List Key} {key : Key}

theorem sum_logicalBytes (store : ObjectStore) (keys : List Key) :
    ((keys.filterMap fun key ↦ store.objects[key]?).map fun object ↦
      object.value.logicalBytes).sum = (keys.map store.bytesAt).sum := by
  induction keys with
  | nil => rfl
  | cons key rest ih => cases hget : store.objects[key]? <;> simp [bytesAt, hget, ih]

theorem mem_of_splitLoop (h : store.splitLoop total accumulated keys = some key) :
    key ∈ keys := by
  induction keys generalizing accumulated with
  | nil => cases h
  | cons head rest ih =>
    rw [splitLoop] at h
    split at h
    · exact List.mem_cons_of_mem _ (ih h)
    · dsimp only at h
      split_ifs at h
      · cases h
        exact List.mem_cons_self
      · exact List.mem_cons_of_mem _ (ih h)

/-- The search ends at a key exactly when the bytes of all its keys make up half of the total. -/
theorem splitLoop_isSome_iff (htotal : total < 2 ^ 64)
    (hstored : ∀ key ∈ keys, key ∈ store.objects)
    (hsum : accumulated + (keys.map store.bytesAt).sum ≤ total) :
    (store.splitLoop total accumulated keys).isSome ↔
      keys ≠ [] ∧ total ≤ 2 * (accumulated + (keys.map store.bytesAt).sum) := by
  induction keys generalizing accumulated with
  | nil => simp [splitLoop]
  | cons key rest ih =>
    obtain ⟨object, hget⟩ := Option.isSome_iff_exists.mp
      (Std.ExtTreeMap.mem_iff_isSome_getElem?.mp (hstored key List.mem_cons_self))
    have hbytes : store.bytesAt key = object.value.logicalBytes := by simp [bytesAt, hget]
    rw [List.map_cons, List.sum_cons, hbytes, ← Nat.add_assoc] at hsum ⊢
    have hnext : min (accumulated + object.value.logicalBytes) maxU64.toNat =
        accumulated + object.value.logicalBytes := by
      rw [toNat_maxU64]
      omega
    have hhalf : total ≤ min (2 * (accumulated + object.value.logicalBytes)) maxU64.toNat ↔
        total ≤ 2 * (accumulated + object.value.logicalBytes) := by
      rw [toNat_maxU64]
      omega
    simp only [splitLoop, hget, hnext, hhalf]
    split_ifs with hreached
    · simp only [Option.isSome_some, ne_eq, reduceCtorEq, not_false_eq_true, true_and, true_iff]
      omega
    · rw [ih (fun key hmem ↦ hstored key (List.mem_cons_of_mem _ hmem)) hsum]
      cases rest with
      | nil => simpa using hreached
      | cons _ _ => simp

/-- A key is chosen wherever two are routable, and the key chosen leaves keys on both sides. -/
def SplitsUsably (store : ObjectStore) : Prop :=
  (2 ≤ store.routableKeys.length → ∃ key, store.medianSplitKey = .ok (some key)) ∧
  ∀ key, store.medianSplitKey = .ok (some key) → key ∈ store.routableKeys ∧
    ∃ smallest ∈ store.routableKeys, compare smallest key = .lt ∧
      ∀ other ∈ store.routableKeys, compare smallest other ≠ .gt

/-- Where there is a choice, the index is kept, the bytes add up to a word and the first key holds
no more of them than the others together. -/
def FirstKeyLight (store : ObjectStore) : Prop :=
  ∀ first second rest, store.routableKeys = first :: second :: rest →
    store.ordered.isSome ∧ (store.routableKeys.map store.bytesAt).sum < 2 ^ 64 ∧
      store.bytesAt first ≤ ((second :: rest).map store.bytesAt).sum

/-- The search goes through the stored keys, since the index has no others. -/
theorem medianSplitKey_of_mirrors (hmirrors : store.Mirrors) :
    store.medianSplitKey =
      if store.ordered.isSome ∧ 2 ≤ store.routableKeys.length then
        if (store.routableKeys.map store.bytesAt).sum < 2 ^ 64 then
          .ok (store.splitLoop (store.routableKeys.map store.bytesAt).sum 0
            (store.routableKeys.drop 1))
        else .panic
      else .ok none := by
  unfold medianSplitKey
  cases hordered : store.ordered with
  | none => simp
  | some ordered =>
    simp only [toList_of_mirrors hmirrors hordered, sum_logicalBytes, Option.isSome_some,
      true_and, ← not_lt, ite_not]
    rfl

/-- Of two keys or more, one is found exactly if the first is light. -/
theorem medianSplitKey_isSome_iff (hmirrors : store.Mirrors)
    (hlength : 2 ≤ store.routableKeys.length) :
    (∃ key, store.medianSplitKey = .ok (some key)) ↔ store.FirstKeyLight := by
  obtain ⟨first, second, rest, hkeys⟩ : ∃ first second rest,
      store.routableKeys = first :: second :: rest := by
    rcases hkeys : store.routableKeys with _ | ⟨first, _ | ⟨second, rest⟩⟩
    · simp [hkeys] at hlength
    · simp [hkeys] at hlength
    · exact ⟨first, second, rest, rfl⟩
  have hstored (key : Key) (hmem : key ∈ second :: rest) : key ∈ store.objects := by
    have hmem' : key ∈ store.routableKeys := hkeys ▸ List.mem_cons_of_mem _ hmem
    exact Std.ExtTreeMap.mem_keys.mp (List.mem_of_mem_filter hmem')
  have hlight : store.FirstKeyLight ↔ store.ordered.isSome ∧
      (store.routableKeys.map store.bytesAt).sum < 2 ^ 64 ∧
        store.bytesAt first ≤ ((second :: rest).map store.bytesAt).sum := by
    simp [FirstKeyLight, hkeys]
  rw [medianSplitKey_of_mirrors hmirrors, hlight]
  by_cases hindexed : store.ordered.isSome
  · rw [if_pos ⟨hindexed, hlength⟩]
    split_ifs with hfits
    · simp only [Result.ok.injEq, ← Option.isSome_iff_exists, hindexed, hfits, true_and]
      rw [hkeys, List.map_cons, List.sum_cons] at hfits ⊢
      rw [List.drop_one, List.tail_cons, splitLoop_isSome_iff hfits hstored (by omega)]
      simp only [ne_eq, reduceCtorEq, not_false_eq_true, true_and]
      omega
    · simp only [hfits, exists_false, false_and, and_false]
  · simp [hindexed]

theorem splits_of_medianSplitKey (hmirrors : store.Mirrors)
    (h : store.medianSplitKey = .ok (some key)) : key ∈ store.routableKeys ∧
      ∃ smallest ∈ store.routableKeys, compare smallest key = .lt ∧
        ∀ other ∈ store.routableKeys, compare smallest other ≠ .gt := by
  have hsorted : store.routableKeys.Pairwise fun a b ↦ compare a b = .lt :=
    Std.ExtTreeMap.ordered_keys.filter _
  rw [medianSplitKey_of_mirrors hmirrors] at h
  split_ifs at h with hchoice
  · have hmem := mem_of_splitLoop (Result.ok.inj h)
    cases hkeys : store.routableKeys with
    | nil => simp [hkeys] at hmem
    | cons first others =>
      rw [hkeys] at hmem hsorted
      obtain ⟨hfirst, -⟩ := List.pairwise_cons.mp hsorted
      refine ⟨List.mem_cons_of_mem _ hmem, first, List.mem_cons_self, hfirst key hmem, ?_⟩
      intro other hother
      rcases List.mem_cons.mp hother with rfl | hother
      · simp [Std.compare_self]
      · simp [hfirst other hother]
  · cases h

/-- On every reachable store the split key is usable exactly if the first key is light. The search
adds up the bytes of the keys behind the first until they are half of the total, which they never
are if the first key has more than half. -/
theorem medianSplitKey_usable_iff (hreach : ReachableStore store) :
    store.SplitsUsably ↔ store.FirstKeyLight := by
  have hmirrors := ReachableStore.mirrors hreach
  refine ⟨fun husable first second rest hkeys ↦ ?_, fun hlight ↦
    ⟨fun hlength ↦ (medianSplitKey_isSome_iff hmirrors hlength).mpr hlight,
      fun key h ↦ splits_of_medianSplitKey hmirrors h⟩⟩
  have hlength : 2 ≤ store.routableKeys.length := by simp [hkeys]
  exact (medianSplitKey_isSome_iff hmirrors hlength).mp (husable.1 hlength) first second rest hkeys

/-- Two keys in an indexed store, the first with as many bytes as `heavy`. -/
def twoKeys (heavy : Bytes) : ObjectStore :=
  run StoreEvent.step ObjectStore.new [.setOrderedIndexing true,
    .apply (.putBytes [1] heavy) 0, .apply (.putBytes [2] [0]) 0]

/-- Of two keys with one byte each the second is chosen. -/
theorem medianSplitKey_usable_light :
    (twoKeys [0]).SplitsUsably ∧ (twoKeys [0]).medianSplitKey = .ok (some [2]) := by
  have hlist : (twoKeys [0]).routableKeys = [[1], [2]] := by decide
  have hlight : (twoKeys [0]).FirstKeyLight := by
    intro first second rest hkeys
    rw [hlist] at hkeys
    cases hkeys
    decide
  exact ⟨(medianSplitKey_usable_iff ⟨_, rfl⟩).mpr hlight, by decide⟩

/-- With two bytes under the first key nothing is chosen, though both keys are routable. -/
theorem medianSplitKey_heavy_first :
    ReachableStore (twoKeys [0, 0]) ∧ (twoKeys [0, 0]).routableKeys = [[1], [2]] ∧
      (twoKeys [0, 0]).medianSplitKey = .ok none ∧ ¬ (twoKeys [0, 0]).SplitsUsably := by
  have hnone : (twoKeys [0, 0]).medianSplitKey = .ok none := by decide
  refine ⟨⟨_, rfl⟩, by decide, hnone, fun husable ↦ ?_⟩
  obtain ⟨key, hkey⟩ := husable.1 (by decide)
  rw [hnone] at hkey
  cases hkey

end ObjectStore

end Kivi.State
