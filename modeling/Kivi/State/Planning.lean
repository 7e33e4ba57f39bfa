import Kivi.State.OutcomeEncoding
import Kivi.State.WriteSetDigest

/-!
# Plans of transactions

`planTransaction` groups the writes of a transaction by the tablets their keys route to, makes the
least of these tablets the coordinator and builds the record that it keeps first. There is a plan
exactly for lists within the bounds whose keys all route somewhere, and its record depends only on
which writes there are and which is the last of each key (`planTransaction_spec`).
-/

namespace Kivi.State

open Library

/-! ### The planner -/

/-- What planning fails with. -/
inductive PlanError where
  | tooLarge
  | routingChanged
deriving DecidableEq

/-- The bytes a write counts for. -/
def TxnWrite.estimatedBytes (write : TxnWrite) : Nat :=
  write.key.length + match write.kind with
    | .put value => value.length
    | .putChunked _ _ => 40
    | .putFabric _ _ _ => 24
    | .delete | .counterAdd _ | .commutativeAdd _ | .boundedAdd _ | .escrowSetShare _ _ => 8

variable (route : Key → Option TabletId)

/-- The indexes of the writes on each tablet. -/
def groupByTablet (writes : List TxnWrite) :
    Except PlanError (Std.ExtTreeMap TabletId (List Nat)) :=
  writes.zipIdx.foldlM (fun groups (write, index) ↦
    match route write.key with
    | none => .error .routingChanged
    | some tablet => .ok (groups.insert tablet (groups.getD tablet [] ++ [index]))) ∅

/-- The tablets of the writes that route somewhere. -/
def routedTablets (writes : List TxnWrite) : List TabletId :=
  writes.filterMap fun write ↦ route write.key

def selectCoordinator (writes : List TxnWrite) : Option TabletId :=
  (routedTablets route writes).min?

def checkBounds (participants : Nat) (writes : List TxnWrite) : Except PlanError Unit :=
  if maxTxnParticipants < participants ∨ maxTxnKeys < writes.length then .error .tooLarge
  else if maxTxnBytes < (writes.map TxnWrite.estimatedBytes).sum then .error .tooLarge
  else .ok ()

structure TxnDriverPlan where
  txn : TxnId
  writes : List TxnWrite
  groups : Std.ExtTreeMap TabletId (List Nat)
  coordinator : TabletId
  record : TxnRecord

def planTransaction (blake3 : Bytes → Digest) (txn : TxnId) (writes : List TxnWrite)
    (dirVersion namespaceId : UInt64) : Except PlanError TxnDriverPlan :=
  if writes.isEmpty then .error .tooLarge else do
    let groups ← groupByTablet route writes
    let some coordinator := selectCoordinator route writes | .error .routingChanged
    checkBounds groups.size writes
    return ⟨txn, writes, groups, coordinator, txn, coordinator, groups.keys, .begun, dirVersion,
      writeSetDigest blake3 writes namespaceId⟩

/-! ### What a plan holds -/

/-- The list is not empty, its keys all route, and it is within the bounds. -/
structure Plannable (writes : List TxnWrite) : Prop where
  nonempty : writes ≠ []
  routed : ∀ write ∈ writes, (route write.key).isSome
  participants : (routedTablets route writes).dedup.length ≤ maxTxnParticipants
  keys : writes.length ≤ maxTxnKeys
  bytes : (writes.map TxnWrite.estimatedBytes).sum ≤ maxTxnBytes

/-- Each tablet of the writes has the indexes of those on it, in order. -/
structure Groups (writes : List TxnWrite) (groups : Std.ExtTreeMap TabletId (List Nat)) :
    Prop where
  mem : ∀ tablet, tablet ∈ groups ↔ tablet ∈ routedTablets route writes
  indexes : ∀ tablet, groups.getD tablet [] =
    (writes.zipIdx.filter fun entry ↦ route entry.1.key = some tablet).map Prod.snd

variable {route} {writes other : List TxnWrite} {groups : Std.ExtTreeMap TabletId (List Nat)}

/-- Writes are grouped by tablet unless one of them has none. -/
theorem groupByTablet_cases (route : Key → Option TabletId) (writes : List TxnWrite) :
    (∀ write ∈ writes, (route write.key).isSome) ∧
        (∃ groups, groupByTablet route writes = .ok groups ∧ Groups route writes groups) ∨
      ¬(∀ write ∈ writes, (route write.key).isSome) ∧
        groupByTablet route writes = .error .routingChanged := by
  induction writes using List.reverseRecOn with
  | nil => exact Or.inl ⟨by simp, ∅, rfl, by simp [routedTablets], by simp⟩
  | append_singleton writes write ih =>
    unfold groupByTablet at ih ⊢
    rw [List.zipIdx_append, List.foldlM_append]
    simp only [List.forall_mem_append, List.forall_mem_singleton]
    rcases ih with ⟨hrouted, groups, hgroups, h⟩ | ⟨hnone, herror⟩
    · rw [hgroups]
      cases hroute : route write.key with
      | none => exact Or.inr ⟨by simp, by simp [hroute, bind, Except.bind]⟩
      | some tablet =>
        refine Or.inl ⟨⟨hrouted, rfl⟩, groups.insert tablet (groups.getD tablet [] ++
          [writes.length]), by simp [hroute, bind, Except.bind]; rfl, fun other ↦ ?_,
          fun other ↦ ?_⟩
        · simp [h.mem, routedTablets, hroute, or_comm, @eq_comm _ tablet]
        · rw [Std.ExtTreeMap.getD_insert, List.zipIdx_append, List.filter_append, List.map_append,
            ← h.indexes]
          by_cases hsame : tablet = other <;> simp [hsame, hroute]
    · rw [herror]
      exact Or.inr ⟨fun hrouted ↦ hnone hrouted.1, rfl⟩

theorem Groups.size_eq (h : Groups route writes groups) :
    groups.size = (routedTablets route writes).dedup.length := by
  rw [← Std.ExtTreeMap.length_keys]
  refine List.Perm.length_eq ((List.perm_ext_iff_of_nodup Std.ExtTreeMap.nodup_keys
    (List.nodup_dedup _)).mpr fun tablet ↦ ?_)
  rw [Std.ExtTreeMap.mem_keys, h.mem, List.mem_dedup]

section Plans

variable (blake3 : Bytes → Digest) (txn : TxnId) (dirVersion namespaceId : UInt64)

/-- A transaction is planned exactly if it is plannable, with its writes grouped by tablet. -/
theorem planTransaction_cases (route : Key → Option TabletId) (writes : List TxnWrite) :
    Plannable route writes ∧ (∃ groups coordinator, Groups route writes groups ∧
        selectCoordinator route writes = some coordinator ∧
        planTransaction route blake3 txn writes dirVersion namespaceId =
          .ok ⟨txn, writes, groups, coordinator, txn, coordinator, groups.keys, .begun, dirVersion,
            writeSetDigest blake3 writes namespaceId⟩) ∨
      ¬Plannable route writes ∧
        ∃ error, planTransaction route blake3 txn writes dirVersion namespaceId = .error error := by
  unfold planTransaction
  by_cases hempty : writes = []
  · exact Or.inr ⟨fun hp ↦ hp.nonempty hempty, .tooLarge, by simp [hempty]⟩
  rw [if_neg (by simpa using hempty)]
  rcases groupByTablet_cases route writes with ⟨hrouted, groups, hgroups, h⟩ | ⟨hnone, herror⟩
  · cases hselect : selectCoordinator route writes with
    | none =>
      obtain ⟨write, hwrite⟩ := List.exists_mem_of_ne_nil writes hempty
      have hnone := List.filterMap_eq_nil_iff.mp (List.min?_eq_none_iff.mp hselect) write hwrite
      simpa [hnone] using hrouted write hwrite
    | some coordinator =>
      rw [hgroups]
      have hsize := h.size_eq
      simp only [bind, Except.bind, checkBounds]
      split_ifs with hcount hbytes
      · exact Or.inr ⟨fun hp ↦ by have := hp.participants; have := hp.keys; omega, _, rfl⟩
      · exact Or.inr ⟨fun hp ↦ by have := hp.bytes; omega, _, rfl⟩
      · exact Or.inl ⟨⟨hempty, hrouted, by omega, by omega, by omega⟩,
          groups, coordinator, h, rfl, rfl⟩
  · rw [herror]
    exact Or.inr ⟨fun hp ↦ hnone hp.routed, _, rfl⟩

/-- There is a plan exactly for the plannable lists. Its groups hold the indexes of the writes of
each tablet and its coordinator is the least of the tablets. A permutation with the same last write
for each key has a plan with the same record. -/
theorem planTransaction_spec (route : Key → Option TabletId) (writes : List TxnWrite) :
    ((∃ plan, planTransaction route blake3 txn writes dirVersion namespaceId = .ok plan) ↔
      Plannable route writes) ∧
    ∀ plan, planTransaction route blake3 txn writes dirVersion namespaceId = .ok plan →
      Groups route writes plan.groups ∧
      (plan.coordinator ∈ plan.groups ∧ ∀ tablet ∈ plan.groups, plan.coordinator ≤ tablet) ∧
      plan.record = ⟨txn, plan.coordinator, plan.groups.keys, .begun, dirVersion,
        writeSetDigest blake3 writes namespaceId⟩ ∧
      ∀ other : List TxnWrite, other.Perm writes →
        ObjectStore.collapse other = ObjectStore.collapse writes →
        ∃ plan', planTransaction route blake3 txn other dirVersion namespaceId = .ok plan' ∧
          plan'.record = plan.record := by
  rcases planTransaction_cases blake3 txn dirVersion namespaceId route writes with
    ⟨hp, groups, coordinator, hgroups, hselect, hplan⟩ | ⟨hp, error, herror⟩
  · refine ⟨⟨fun _ ↦ hp, fun _ ↦ ⟨_, hplan⟩⟩, ?_⟩
    rintro plan hok
    cases hplan.symm.trans hok
    obtain ⟨hmem, hleast⟩ := List.min?_eq_some_iff.mp hselect
    refine ⟨hgroups, ⟨(hgroups.mem _).mpr hmem, fun tablet htablet ↦
      hleast tablet ((hgroups.mem tablet).mp htablet)⟩, rfl, fun other hperm hlast ↦ ?_⟩
    have htablets : (routedTablets route other).Perm (routedTablets route writes) :=
      hperm.filterMap _
    rcases planTransaction_cases blake3 txn dirVersion namespaceId route other with
      ⟨-, groups', coordinator', hgroups', hselect', hplan'⟩ | ⟨hp', -⟩
    · obtain ⟨hmem', hleast'⟩ := List.min?_eq_some_iff.mp hselect'
      obtain rfl : coordinator' = coordinator := UInt64.le_antisymm
        (hleast' _ (htablets.mem_iff.mpr hmem)) (hleast _ (htablets.mem_iff.mp hmem'))
      have hkeys : groups'.keys = groups.keys := by
        refine @OrderedMaps.eq_of_ascending _ _ _ _ id _ _ groups'.ordered_keys
          groups.ordered_keys fun tablet ↦ ?_
        rw [Std.ExtTreeMap.mem_keys, Std.ExtTreeMap.mem_keys, hgroups.mem, hgroups'.mem,
          htablets.mem_iff]
      refine ⟨_, hplan', ?_⟩
      have heffective : effectiveWrites other = effectiveWrites writes := by
        rw [effectiveWrites, hlast, effectiveWrites]
      rw [hkeys, writeSetDigest_eq_of_effective namespaceId heffective]
    · refine absurd ⟨fun hnil ↦ hp.nonempty ?_, fun write hwrite ↦ ?_, ?_, ?_, ?_⟩ hp'
      · exact (hnil ▸ hperm).nil_eq.symm
      · exact hp.routed write (hperm.mem_iff.mp hwrite)
      · exact htablets.dedup.length_eq ▸ hp.participants
      · exact hperm.length_eq ▸ hp.keys
      · exact (hperm.map TxnWrite.estimatedBytes).sum_eq ▸ hp.bytes
  · simp [hp, herror]

end Plans

end Kivi.State
