import Kivi.State.Lifetimes
import Kivi.State.TypedInvariants

/-!
# What the decoders require of stored objects

Decoding re-checks a semaphore's own invariant and the size of a stream's entries. Both hold of
every reachable store, whatever was applied to it: the saturating sum of a semaphore never passes
its capacity, even where the exact sum does, and an append checks both blobs of its entry. A
reservation names the key of its own write, which is why an image need not store it twice.
-/

namespace Kivi.State

open Library.CheckedArith Library.MapSums

/-- What a decoder checks of a value beyond its soundness. -/
def LogicalValue.WithinWire : LogicalValue → Prop
  | .semaphore state => state.invariantHolds = true
  | .streamShard shard => ∀ entry ∈ shard.entries,
      entry.partition.length ≤ maxStreamEntryBytes ∧ entry.payload.length ≤ maxStreamEntryBytes
  | _ => True

/-! ### Semaphores -/

theorem SemaphoreState.invariantHolds_iff (state : SemaphoreState) :
    state.invariantHolds = true ↔
      min (mapSum (fun held ↦ held.qty.toNat) state.permits) (2 ^ 64 - 1) ≤
        state.capacity.toNat := by
  rw [invariantHolds, decide_eq_true_eq, UInt64.le_iff_toNat_le, outstanding,
    toNat_saturatingSumU64, exactSum_quantities]

/-! ### One step of a key -/

variable {stored : Option StoredObject} {after : StoredObject} {now : WallTimestamp}
  {outcome : ApplyOutcome} {mutation : Mutation} {key : Key}

/-- What a step stores can be written, if what it found could. -/
theorem objectStep_withinWire
    (hbefore : ∀ object, stored = some object → object.value.WithinWire)
    (hstep : objectStep stored mutation now = .ok (outcome, some after)) :
    after.value.WithinWire := by
  have hold {current : StoredObject} {held : LogicalValue}
      (hlive : liveObject stored now = some current) (hvalue : current.value = held) :
      held.WithinWire := hvalue ▸ hbefore current (liveObject_eq_some_iff.mp hlive).1
  cases entryStep_of_ok hstep with
  | absent | idle => exact hbefore after rfl
  | written _ hwrites =>
    cases hwrites with
    | @setExpiry _ _ current hlive =>
      have hkept := hold hlive rfl
      generalize current.value = value at hkept ⊢
      cases value <;> exact hkept
    | semaphoreCreate =>
      show SemaphoreState.invariantHolds _ = true
      rw [SemaphoreState.invariantHolds_iff]
      exact (min_le_left _ _).trans (Nat.zero_le _)
    | semaphoreAcquire hlive hvalue hacquire =>
      rcases acquirePermit_ok hacquire with rfl | ⟨hnew, -, -, hcheck, rfl⟩
      · exact hold hlive hvalue
      show SemaphoreState.invariantHolds _ = true
      rw [SemaphoreState.invariantHolds_iff, mapSum_insert _ hnew]
      rw [UInt64.le_iff_toNat_le, toNat_saturatingAddU64, SemaphoreState.outstanding,
        toNat_saturatingSumU64, SemaphoreState.exactSum_quantities] at hcheck
      dsimp only
      omega
    | semaphoreRelease hlive hvalue =>
      have hkept := (SemaphoreState.invariantHolds_iff _).mp (hold hlive hvalue)
      exact (SemaphoreState.invariantHolds_iff _).mpr
        ((min_le_min_right _ (mapSum_erase_le _)).trans hkept)
    | streamCreate => exact List.forall_mem_nil _
    | streamAppend hlive hvalue hroom =>
      rw [not_or, not_or, Nat.not_lt, Nat.not_lt] at hroom
      intro entry hmem
      rcases List.mem_append.mp hmem with hkept | hnew
      · exact hold hlive hvalue entry hkept
      · rw [List.mem_singleton.mp hnew]
        exact ⟨hroom.2.1, hroom.1⟩
    | streamTrim hlive hvalue =>
      exact fun entry hmem ↦ hold hlive hvalue entry ((List.dropWhile_sublist _).mem hmem)
    | _ => trivial

/-! ### Reachable stores -/

/-- A cell whose object passes the decoder's checks and whose reservation is under its key. -/
structure Cell.Restorable (key : Key) (cell : Cell) : Prop where
  object : ∀ object, cell.entry = some object → object.value.WithinWire
  intent : ∀ intent, cell.intent = some intent → intent.key = key ∧ intent.write.key = key

theorem CellStep.restorable {before last : Cell} (h : CellStep key mutation now before last)
    (hbefore : before.Restorable key) : last.Restorable key := by
  cases h with
  | same => exact hbefore
  | ordinary hkey hstep =>
    refine ⟨fun object hobject ↦ ?_, nofun⟩
    cases hobject
    exact objectStep_withinWire hbefore.object hstep
  | localCommit hmem hkey hstep =>
    refine ⟨fun object hobject ↦ ?_, nofun⟩
    cases hobject
    exact objectStep_withinWire hbefore.object hstep
  | prepare howned hexpect hwritable =>
    refine ⟨hbefore.object, fun intent hintent ↦ ?_⟩
    cases hintent
    exact ⟨rfl, rfl⟩
  | drop hwhy => exact ⟨hbefore.object, nofun⟩
  | finalize howned hstep =>
    refine ⟨fun object hobject ↦ ?_, nofun⟩
    cases hobject
    exact objectStep_withinWire hbefore.object hstep

/-- Every cell of a reachable store passes the decoders' checks. -/
theorem ReachableStore.restorable {store : ObjectStore} (h : ReachableStore store) (key : Key) :
    (store.cell key).Restorable key := by
  refine ReachableStore.invariant (P := fun store ↦ (store.cell key).Restorable key) ?_ ?_ ?_ h
  · exact ⟨fun _ hobject ↦ by simp [ObjectStore.cell, ObjectStore.new] at hobject,
      fun _ hintent ↦ by simp [ObjectStore.cell, ObjectStore.new] at hintent⟩
  · intro reached timed hreached
    exact (reached.apply_cell timed.1 timed.2 key).restorable hreached
  · intro reached enabled hreached
    cases enabled <;> exact hreached

end Kivi.State
