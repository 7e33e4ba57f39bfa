import Kivi.Library.Runs
import Kivi.State.ObjectMachine

/-!
# Everything that happens to a store

Besides applied mutations, a store is changed by the expiry sweep of its tablet, by a local
escrow transfer and by switching its ordered index. The first two act through applied mutations
only (`StoreEvent.step_eq_run`), so what every apply preserves holds of
every reachable store (`ReachableStore.invariant`).
-/

namespace Kivi.State

open Library.Runs

namespace ObjectStore

/-! ### The expiry sweep -/

variable (store : ObjectStore)

/-- Up to `limit` expired keys, in key order. -/
def collectExpired (now : WallTimestamp) (limit : Nat) : List Key :=
  ((store.objects.toList.filter fun entry ↦ entry.2.isExpired now).map Prod.fst).take limit

/-- Delete the collected keys one by one, passing over the skipped ones and over those whose
delete fails, until `limit` keys are reclaimed. -/
def sweepLoop (now : WallTimestamp) (limit : Nat) (skip : Std.ExtTreeSet Key) :
    List Key → ObjectStore → List (Key × ApplyOutcome) → List (Key × ApplyOutcome) × ObjectStore
  | [], store, reclaimed => (reclaimed, store)
  | key :: rest, store, reclaimed =>
    if limit ≤ reclaimed.length then (reclaimed, store)
    else if skip.contains key then sweepLoop now limit skip rest store reclaimed
    else match store.apply (.delete key) now with
    | (.ok outcome, after) => sweepLoop now limit skip rest after (reclaimed ++ [(key, outcome)])
    | (_, after) => sweepLoop now limit skip rest after reclaimed

/-- Reclaim up to `limit` expired objects through delete mutations. -/
def sweepExpired (now : WallTimestamp) (limit : Nat) (skip : Std.ExtTreeSet Key) :
    List (Key × ApplyOutcome) × ObjectStore :=
  sweepLoop now limit skip (store.collectExpired now (limit + skip.size)) store []

/-! ### Local escrow transfers -/

/-- The bounded counter under `key` and its version. -/
def loadBounded (key : Key) (now : WallTimestamp) :
    Except OpError (BoundedCounterState × ObjectVersion) :=
  match store.get key now with
  | none => .error .boundedExceeded
  | some object =>
    match object.value with
    | .boundedCounter state => .ok (state, object.version)
    | _ => .error (.wrongType .boundedCounter object.objectType)

/-- The two share moves of a transfer, or nothing to apply when donor and recipient are one. -/
def planTransfer (donor recipient : Key) (amount : UInt64) (now : WallTimestamp) :
    Except OpError (List Mutation × ObjectVersion × ObjectVersion) :=
  if store.intents.contains donor ∨ store.intents.contains recipient then .error .txnConflict
  else match store.loadBounded donor now, store.loadBounded recipient now with
  | .error error, _ => .error error
  | .ok _, .error error => .error error
  | .ok (donorState, donorVersion), .ok (recipientState, recipientVersion) =>
    let donorShare := (donorState.share.min, donorState.share.max)
    let recipientShare := (recipientState.share.min, recipientState.share.max)
    match planEscrowTransfer donorShare donorState.value recipientShare recipientState.capacity
        amount with
    | .error _ => .error .boundedExceeded
    | .ok (donorAfter, recipientAfter) =>
      if donor = recipient then .ok ([], donorVersion, recipientVersion)
      else match verifyEscrowWidths donorShare donorAfter recipientShare recipientAfter with
      | .error _ => .error .boundedExceeded
      | .ok _ =>
        .ok ([.escrowSetShare donor donorAfter.1 donorAfter.2,
          .escrowSetShare recipient recipientAfter.1 recipientAfter.2],
          donorVersion, recipientVersion)

/-- Apply mutations in order, stopping at the first that does not succeed. -/
def applyAll (now : WallTimestamp) : List Mutation → ObjectStore → Bool × ObjectStore
  | [], store => (true, store)
  | mutation :: rest, store =>
    match store.apply mutation now with
    | (.ok _, after) => applyAll now rest after
    | (_, after) => (false, after)

/-- Move `amount` of escrow rights between two counters of this store. A failure of the second
share move leaves the first in place. -/
def transferEscrow (donor recipient : Key) (amount : UInt64) (now : WallTimestamp) :
    Except OpError (ObjectVersion × ObjectVersion) × ObjectStore :=
  match store.planTransfer donor recipient amount now with
  | .error error => (.error error, store)
  | .ok (mutations, donorVersion, recipientVersion) =>
    match applyAll now mutations store with
    | (false, after) => (.error .boundedExceeded, after)
    | (true, after) =>
      let versionOr (key : Key) (fallback : ObjectVersion) : ObjectVersion :=
        ((after.get key now).map StoredObject.version).getD fallback
      (.ok (versionOr donor donorVersion, versionOr recipient recipientVersion), after)

end ObjectStore

/-! ### Runs -/

/-- A mutation with the timestamp it is applied at. -/
abbrev Timed := Mutation × WallTimestamp

/-- The store after one apply, whatever the answer. -/
def applyStep (store : ObjectStore) (timed : Timed) : ObjectStore :=
  (store.apply timed.1 timed.2).2

/-- What can change a store. -/
inductive StoreEvent where
  | apply (mutation : Mutation) (now : WallTimestamp)
  | sweepExpired (now : WallTimestamp) (limit : Nat) (skip : Std.ExtTreeSet Key)
  | transferEscrow (donor recipient : Key) (amount : UInt64) (now : WallTimestamp)
  | setOrderedIndexing (enabled : Bool)

namespace StoreEvent

/-- The store after one event. -/
def step (store : ObjectStore) : StoreEvent → ObjectStore
  | apply mutation now => applyStep store (mutation, now)
  | sweepExpired now limit skip => (store.sweepExpired now limit skip).2
  | transferEscrow donor recipient amount now =>
    (store.transferEscrow donor recipient amount now).2
  | setOrderedIndexing enabled => store.setOrderedIndexing enabled

end StoreEvent

/-- The stores that arise from the empty one. -/
abbrev ReachableStore (store : ObjectStore) : Prop :=
  Reachable StoreEvent.step ObjectStore.new store

/-! ### Every event acts through applies -/

namespace ObjectStore

/-- A sweep is a run of deletes of keys it was given. -/
theorem sweepLoop_eq_run (now : WallTimestamp) (limit : Nat) (skip : Std.ExtTreeSet Key)
    (keys : List Key) (store : ObjectStore) (reclaimed : List (Key × ApplyOutcome)) :
    ∃ deletes : List Key, (∀ key ∈ deletes, key ∈ keys) ∧
      (sweepLoop now limit skip keys store reclaimed).2 =
        run applyStep store (deletes.map fun key ↦ (.delete key, now)) := by
  induction keys generalizing store reclaimed with
  | nil => exact ⟨[], by simp, rfl⟩
  | cons key rest ih =>
    unfold sweepLoop
    split_ifs with hdone hskip
    · exact ⟨[], by simp, rfl⟩
    · obtain ⟨deletes, hmem, hrun⟩ := ih store reclaimed
      exact ⟨deletes, fun other h ↦ List.mem_cons_of_mem _ (hmem other h), hrun⟩
    · -- The delete is one apply; what the loop does next starts from the store it leaves.
      have hafter : ∀ reclaimed', ∃ deletes : List Key, (∀ other ∈ deletes, other ∈ key :: rest) ∧
          (sweepLoop now limit skip rest (applyStep store (.delete key, now)) reclaimed').2 =
            run applyStep store (deletes.map fun other ↦ (.delete other, now)) := by
        intro reclaimed'
        obtain ⟨deletes, hmem, hrun⟩ := ih (applyStep store (.delete key, now)) reclaimed'
        refine ⟨key :: deletes, fun other h ↦ ?_, hrun⟩
        rcases List.mem_cons.mp h with rfl | h
        · exact List.mem_cons_self
        · exact List.mem_cons_of_mem _ (hmem other h)
      have hstep : (store.apply (.delete key) now).2 = applyStep store (.delete key, now) := rfl
      split
      · next outcome after happly =>
        rw [happly] at hstep
        rw [← hstep] at hafter
        exact hafter _
      · next after _ happly =>
        rw [happly] at hstep
        rw [← hstep] at hafter
        exact hafter _

theorem applyAll_eq_run (now : WallTimestamp) (mutations : List Mutation) (store : ObjectStore) :
    ∃ applied : List Mutation, applied <+: mutations ∧
      (applyAll now mutations store).2 =
        run applyStep store (applied.map fun mutation ↦ (mutation, now)) := by
  induction mutations generalizing store with
  | nil => exact ⟨[], List.prefix_rfl, rfl⟩
  | cons mutation rest ih =>
    have hstep : (store.apply mutation now).2 = applyStep store (mutation, now) := rfl
    unfold applyAll
    split
    · next outcome after happly =>
      obtain ⟨applied, hinitial, hrun⟩ := ih after
      rw [happly] at hstep
      refine ⟨mutation :: applied, List.prefix_cons_inj _ |>.mpr hinitial, ?_⟩
      rw [hrun]
      exact congrArg (fun s ↦ run applyStep s _) hstep
    · next after _ happly =>
      rw [happly] at hstep
      exact ⟨[mutation], List.prefix_cons_inj _ |>.mpr List.nil_prefix, hstep⟩

/-- The moves of a plan set the shares of its donor and recipient. -/
theorem planTransfer_mutations {store : ObjectStore} {donor recipient : Key} {amount : UInt64}
    {now : WallTimestamp} {mutations : List Mutation} {versions : ObjectVersion × ObjectVersion}
    (h : store.planTransfer donor recipient amount now = .ok (mutations, versions)) :
    ∀ mutation ∈ mutations, ∃ key min max, (key = donor ∨ key = recipient) ∧
      mutation = .escrowSetShare key min max := by
  unfold planTransfer at h
  split at h
  · cases h
  rcases hdonor : store.loadBounded donor now with error | ⟨donorState, donorVersion⟩
  · simp [hdonor] at h
  rcases hrecipient : store.loadBounded recipient now with
    error | ⟨recipientState, recipientVersion⟩
  · simp [hdonor, hrecipient] at h
  simp only [hdonor, hrecipient] at h
  rcases hplan : planEscrowTransfer (donorState.share.min, donorState.share.max) donorState.value
      (recipientState.share.min, recipientState.share.max) recipientState.capacity amount with
    error | ⟨donorAfter, recipientAfter⟩
  · simp [hplan] at h
  simp only [hplan] at h
  split_ifs at h with hsame
  · obtain ⟨rfl, -⟩ : [] = mutations ∧ _ := by simpa using h
    simp
  · rcases hwidths : verifyEscrowWidths (donorState.share.min, donorState.share.max) donorAfter
        (recipientState.share.min, recipientState.share.max) recipientAfter with error | _
    · simp [hwidths] at h
    · simp only [hwidths, Except.ok.injEq, Prod.mk.injEq] at h
      rw [← h.1]
      simp

end ObjectStore

namespace StoreEvent

/-- The mutations an event can apply to a store. -/
inductive Applies (store : ObjectStore) : StoreEvent → Timed → Prop
  | apply (mutation : Mutation) (now : WallTimestamp) :
      Applies store (.apply mutation now) (mutation, now)
  | sweep {now : WallTimestamp} {limit : Nat} {skip : Std.ExtTreeSet Key} {key : Key}
      {object : StoredObject} (hobject : store.objects[key]? = some object)
      (hexpired : object.isExpired now = true) :
      Applies store (.sweepExpired now limit skip) (.delete key, now)
  | move {donor recipient key : Key} {amount : UInt64} {now : WallTimestamp}
      (hkey : key = donor ∨ key = recipient) (min max : Int64) :
      Applies store (.transferEscrow donor recipient amount now) (.escrowSetShare key min max, now)

/-- Every event but the switch of the index is a run of applies. -/
theorem step_eq_run (store : ObjectStore) (event : StoreEvent) :
    (∃ enabled, event = .setOrderedIndexing enabled) ∨
      ∃ steps, (∀ timed ∈ steps, event.Applies store timed) ∧
        event.step store = run applyStep store steps := by
  cases event with
  | apply mutation now =>
    exact Or.inr ⟨[(mutation, now)], List.forall_mem_singleton.mpr (.apply mutation now), rfl⟩
  | sweepExpired now limit skip =>
    -- A sweep is a run of deletes of keys that had expired when it started.
    obtain ⟨deletes, hexpired, hrun⟩ := ObjectStore.sweepLoop_eq_run now limit skip
      (store.collectExpired now (limit + skip.size)) store []
    refine Or.inr ⟨_, fun timed hmem ↦ ?_, hrun⟩
    obtain ⟨key, hkey, rfl⟩ := List.mem_map.mp hmem
    obtain ⟨entry, hentry, rfl⟩ := List.mem_map.mp (List.mem_of_mem_take (hexpired key hkey))
    obtain ⟨hobject, hlapsed⟩ := List.mem_filter.mp hentry
    exact .sweep (Std.ExtTreeMap.mem_toList_iff_getElem?_eq_some.mp hobject) hlapsed
  | transferEscrow donor recipient amount now =>
    change _ ∨ ∃ steps, _ ∧ (store.transferEscrow donor recipient amount now).2 = _
    unfold ObjectStore.transferEscrow
    split
    · exact Or.inr ⟨[], List.forall_mem_nil _, rfl⟩
    next mutations donorVersion recipientVersion hplan =>
    obtain ⟨applied, hinitial, hrun⟩ := ObjectStore.applyAll_eq_run now mutations store
    refine Or.inr ⟨_, fun timed hmem ↦ ?_, by rw [← hrun]; split <;> simp_all⟩
    obtain ⟨move, hmove, rfl⟩ := List.mem_map.mp hmem
    obtain ⟨key, min, max, hkey, rfl⟩ :=
      ObjectStore.planTransfer_mutations hplan move (hinitial.subset hmove)
    exact .move hkey min max
  | setOrderedIndexing enabled => exact Or.inl ⟨enabled, rfl⟩

end StoreEvent

/-- What the empty store has, and every apply and every switch of the index keeps, holds of
every reachable store. -/
theorem ReachableStore.invariant {P : ObjectStore → Prop} (hnew : P ObjectStore.new)
    (happly : ∀ store timed, P store → P (applyStep store timed))
    (hindex : ∀ store enabled, P store → P (store.setOrderedIndexing enabled))
    {store : ObjectStore} (h : ReachableStore store) : P store := by
  refine Reachable.invariant hnew (fun store event hstore ↦ ?_) h
  obtain ⟨enabled, rfl⟩ | ⟨steps, -, hrun⟩ := event.step_eq_run store
  · exact hindex store enabled hstore
  · rw [hrun]
    exact run_invariant happly hstore steps

end Kivi.State
