import Kivi.Library.MapSums
import Kivi.State.Versions

/-!
# Invariants of typed objects

Each typed value has a soundness predicate that every step of its key's machine keeps
(`objectStep_sound`). Soundness of semaphores comes in two strengths: what holds without any
assumption, and the capacity bound, which the saturating sum of the source only protects while
the exact sum fits a machine word. `typed_invariants_hold` reads the stronger form over runs.
-/

namespace Kivi.State

open Library Library.CheckedArith Library.Runs
open Library.MapSums

/-! ### Soundness of each type -/

/-- The permits fit the object, none is empty and, where sums are exact, they fit the
capacity. -/
structure SemaphoreState.Sound (exact : Prop) (state : SemaphoreState) : Prop where
  size_le : state.permits.size ≤ maxSemaphorePermits
  pos : ∀ (permit : PermitId) (held : PermitRecord), state.permits[permit]? = some held →
    0 < held.qty
  sum_le : exact → exactSum state.quantities ≤ state.capacity.toNat

/-- Offsets grow, stay below the next one, and the version has kept ahead of them. -/
structure StreamShardState.Sound (version : ObjectVersion) (shard : StreamShardState) : Prop where
  sorted : shard.entries.Pairwise fun first second ↦ first.offset < second.offset
  below : ∀ entry ∈ shard.entries, entry.offset < shard.nextOffset
  length_le : shard.entries.length ≤ maxStreamShardEntries
  lt_version : shard.nextOffset.toNat < version.asU64.toNat

/-- Tokens already granted are below the one granted next. -/
def LeaseState.Sound (state : LeaseState) : Prop :=
  ∀ holder, state.holder = some holder → holder.fencing.asU64 < state.nextFencing.asU64

/-- Soundness of a value under its object's version. -/
def LogicalValue.Sound (exact : Prop) (version : ObjectVersion) : LogicalValue → Prop
  | .boundedCounter state => state.invariantHolds = true
  | .semaphore state => state.Sound exact
  | .streamShard shard => shard.Sound version
  | .lease state => state.Sound
  | .fabric reference => reference.version = version.asU64
  | .bytes _ | .chunked _ | .strictCounter _ | .commutativeCounter _ => True

def StoredObject.Sound (exact : Prop) (object : StoredObject) : Prop :=
  object.value.Sound exact object.version

/-- Whatever the entry holds is sound. -/
def EntrySound (exact : Prop) (entry : Option StoredObject) : Prop :=
  ∀ object, entry = some object → object.Sound exact

/-- An acquisition of a new permit that the exact sum of a full-width semaphore can hold. -/
def EntryFits (entry : Option StoredObject) (mutation : Mutation) (now : WallTimestamp) : Prop :=
  match mutation with
  | .semaphoreAcquire _ permit _ qty =>
    ∀ object state, liveObject entry now = some object → object.value = .semaphore state →
      state.permits[permit]? = none → state.capacity = maxU64 →
        exactSum state.quantities + qty.toNat < 2 ^ 64
  | _ => True

/-! ### Bounded counters -/

theorem BoundedCounterState.invariantHolds_iff (state : BoundedCounterState) :
    state.invariantHolds = true ↔ ∃ capacity, i64OfU64 state.capacity = some capacity ∧
      0 ≤ state.share.min ∧ state.share.min ≤ state.value ∧ state.value ≤ state.share.max ∧
      state.share.max ≤ capacity := by
  unfold invariantHolds
  cases i64OfU64 state.capacity <;> simp

variable {delta : Int64}

theorem boundedAddPreview_sound {state : BoundedCounterState} {next : Int64}
    (hsound : state.invariantHolds = true) (h : boundedAddPreview state delta = .ok next) :
    BoundedCounterState.invariantHolds { state with value := next } = true := by
  rw [BoundedCounterState.invariantHolds_iff] at hsound ⊢
  obtain ⟨capacity, hcapacity, hmin, -, -, hmax⟩ := hsound
  refine ⟨capacity, hcapacity, hmin, ?_, ?_, hmax⟩
  all_goals
    unfold boundedAddPreview at h
    split at h
    · cases h
    split at h
    · cases h
    split_ifs at h with hrange hshare
    cases h
    rw [not_or, Int64.not_lt, Int64.not_lt] at hshare
  · exact hshare.1
  · exact hshare.2

theorem escrowShareValid_sound {state : BoundedCounterState} {min max : Int64}
    (h : escrowShareValid state.value state.capacity min max = true) :
    BoundedCounterState.invariantHolds
      { state with share := { state.share with min := min, max := max } } = true := by
  rw [BoundedCounterState.invariantHolds_iff]
  unfold escrowShareValid at h
  cases hcapacity : i64OfU64 state.capacity with
  | none => simp [hcapacity] at h
  | some capacity =>
    simp only [hcapacity, decide_eq_true_eq] at h
    obtain ⟨hmin, -, hmax, hlow, hhigh⟩ := h
    exact ⟨capacity, rfl, hmin, hlow, hhigh, hmax⟩

theorem boundedCreate_sound {capacity : UInt64} {cap : Int64} (holder : TabletId)
    (hcap : i64OfU64 capacity = some cap) :
    BoundedCounterState.invariantHolds ⟨0, capacity, ⟨holder, 0, cap⟩⟩ = true := by
  rw [BoundedCounterState.invariantHolds_iff]
  have hnonneg : (0 : Int64) ≤ cap := by
    rw [Int64.le_iff_toInt_le, i64OfU64_eq_some_iff.mp hcap]
    exact Int.natCast_nonneg _
  exact ⟨cap, hcap, Int64.le_refl _, Int64.le_refl _, hnonneg, Int64.le_refl _⟩

/-! ### Semaphores -/

theorem SemaphoreState.exactSum_quantities (state : SemaphoreState) :
    exactSum state.quantities = mapSum (fun held ↦ held.qty.toNat) state.permits := by
  simp [exactSum, quantities, mapSum, Function.comp_def]

variable {state : SemaphoreState}

theorem release_sound {exact : Prop} (permit : PermitId) (h : state.Sound exact) :
    SemaphoreState.Sound exact { state with permits := state.permits.erase permit } where
  size_le := Std.ExtTreeMap.size_erase_le.trans h.size_le
  pos := by
    intro other held hheld
    rw [Std.ExtTreeMap.getElem?_erase] at hheld
    split_ifs at hheld
    exact h.pos other held hheld
  sum_le := fun hexact ↦ by
    have hsum := h.sum_le hexact
    rw [SemaphoreState.exactSum_quantities] at hsum ⊢
    exact (mapSum_erase_le permit).trans hsum

variable {permit : PermitId} {owner qty : UInt64}

/-- What an accepted acquisition does: nothing, or one more permit that passed the checks. -/
theorem acquirePermit_ok {state' : SemaphoreState}
    (h : ObjectStore.acquirePermit state permit owner qty = .ok state') :
    state' = state ∨
      (state.permits[permit]? = none ∧ 0 < qty ∧ state.permits.size < maxSemaphorePermits ∧
        saturatingAddU64 state.outstanding qty ≤ state.capacity ∧
        state' = { state with permits := state.permits.insert permit ⟨owner, qty⟩ }) := by
  unfold ObjectStore.acquirePermit at h
  cases hheld : state.permits[permit]? with
  | some held =>
    simp only [hheld] at h
    split_ifs at h
    cases h
    exact Or.inl rfl
  | none =>
    simp only [hheld] at h
    split_ifs at h with hpos hsize hcapacity
    · cases h
      exact Or.inr ⟨rfl, hpos, Nat.lt_of_not_le hsize, UInt64.not_lt.mp hcapacity, rfl⟩
    · cases h
      exact Or.inl rfl

/-- An acquisition leaves a sound semaphore. -/
theorem acquirePermit_sound {exact : Prop} {state' : SemaphoreState} (h : state.Sound exact)
    (hfits : exact → state.permits[permit]? = none → state.capacity = maxU64 →
      exactSum state.quantities + qty.toNat < 2 ^ 64)
    (hok : ObjectStore.acquirePermit state permit owner qty = .ok state') : state'.Sound exact := by
  rcases acquirePermit_ok hok with rfl | ⟨hnew, hpos, hsize, hcheck, rfl⟩
  · exact h
  refine ⟨?_, ?_, fun hexact ↦ ?_⟩
  · have := Std.ExtTreeMap.size_insert_le (t := state.permits) (k := permit) (v := ⟨owner, qty⟩)
    exact this.trans hsize
  · intro other held hheld
    rw [Std.ExtTreeMap.getElem?_insert] at hheld
    split_ifs at hheld
    · cases hheld
      exact hpos
    · exact h.pos other held hheld
  · -- The saturating check bounds the exact sum, except past the top word of a semaphore that has
    -- the top word as its capacity.
    have hsum := h.sum_le hexact
    have hlt := state.capacity.toNat_lt
    rw [UInt64.le_iff_toNat_le, toNat_saturatingAddU64, SemaphoreState.outstanding,
      toNat_saturatingSumU64] at hcheck
    have hadds : qty.toNat + exactSum state.quantities ≤ state.capacity.toNat := by
      by_cases htop : state.capacity = maxU64
      · have hbound := hfits hexact hnew htop
        have htopNat : state.capacity.toNat = 2 ^ 64 - 1 := by rw [htop, toNat_maxU64]
        omega
      · have hbelow : state.capacity.toNat ≠ 2 ^ 64 - 1 := by
          rw [← toNat_maxU64, Ne, UInt64.toNat_inj]
          exact htop
        omega
    rw [SemaphoreState.exactSum_quantities] at hadds ⊢
    rw [mapSum_insert _ hnew]
    exact hadds

/-! ### Stream shards -/

variable {shard : StreamShardState} {version later : ObjectVersion}

/-- A shard stays sound under any later version. -/
theorem StreamShardState.Sound.mono (h : shard.Sound version) (hlater : version.next = some later) :
    shard.Sound later := by
  have hnext := ObjectVersion.next_eq_some_iff.mp hlater
  have hversion := h.lt_version
  exact ⟨h.sorted, h.below, h.length_le, by omega⟩

/-- The version is ahead of the next offset, so counting it up does not saturate. -/
theorem StreamShardState.Sound.toNat_nextOffset_succ (h : shard.Sound version) :
    (saturatingAddU64 shard.nextOffset 1).toNat = shard.nextOffset.toNat + 1 := by
  have hversion := h.lt_version
  have hword := version.asU64.toNat_lt
  rw [toNat_saturatingAddU64, UInt64.toNat_one]
  omega

/-- An append keeps a shard sound: the new version keeps ahead of the new offset. -/
theorem append_sound {partition payload : Bytes} (h : shard.Sound version)
    (hroom : ¬ maxStreamShardEntries ≤ shard.entries.length) (hlater : version.next = some later) :
    StreamShardState.Sound later
      { shard with
        nextOffset := saturatingAddU64 shard.nextOffset 1
        entries := shard.entries ++ [⟨shard.nextOffset, partition, payload⟩] } := by
  have hnext := ObjectVersion.next_eq_some_iff.mp hlater
  have hversion := h.lt_version
  have hoffset := h.toNat_nextOffset_succ
  have hlt : shard.nextOffset < saturatingAddU64 shard.nextOffset 1 := by
    rw [UInt64.lt_iff_toNat_lt, hoffset]
    omega
  refine ⟨?_, ?_, ?_, ?_⟩
  · refine List.pairwise_append.mpr ⟨h.sorted, List.pairwise_singleton _ _, ?_⟩
    intro entry hmem last hlast
    rw [List.mem_singleton] at hlast
    subst hlast
    exact h.below entry hmem
  · intro entry hmem
    rcases List.mem_append.mp hmem with hmem | hmem
    · exact UInt64.lt_trans (h.below entry hmem) hlt
    · rw [List.mem_singleton] at hmem
      subst hmem
      exact hlt
  · simp only [List.length_append, List.length_singleton]
    omega
  · simp only [hoffset]
    omega

theorem trim_sound (through : UInt64) (h : shard.Sound version)
    (hlater : version.next = some later) :
    StreamShardState.Sound later { shard with entries := trimmed shard.entries through } := by
  have hsub : (trimmed shard.entries through).Sublist shard.entries := List.dropWhile_sublist _
  have hlaterSound := h.mono hlater
  exact ⟨h.sorted.sublist hsub, fun entry hmem ↦ h.below entry (hsub.subset hmem),
    hsub.length_le.trans h.length_le, hlaterSound.lt_version⟩

/-! ### Leases -/

theorem grant_sound {owner : UInt64} {fencing advanced : FencingToken} {expiresAt : WallTimestamp}
    (h : fencing.next = some advanced) :
    LeaseState.Sound ⟨some ⟨owner, fencing, expiresAt⟩, advanced⟩ := by
  intro holder hholder
  cases hholder
  unfold FencingToken.next at h
  obtain ⟨word, hword, rfl⟩ := Option.map_eq_some_iff.mp h
  have hnext := checkedAddU64_eq_some_iff.mp hword
  rw [UInt64.toNat_one] at hnext
  change fencing.asU64 < word
  exact UInt64.lt_iff_toNat_lt.mpr (by omega)

theorem leaseLive_eq_some {state : LeaseState} {now : WallTimestamp} {holder : LeaseHolder}
    (h : leaseLive state now = some holder) : state.holder = some holder := by
  rw [leaseLive, Option.filter_eq_some_iff] at h
  exact h.1

/-! ### One step of a key -/

variable {exact : Prop} {stored after : Option StoredObject} {now : WallTimestamp}
  {outcome : ApplyOutcome} {current : StoredObject}

theorem EntrySound.of_live (h : EntrySound exact stored)
    (hlive : liveObject stored now = some current) :
    current.value.Sound exact current.version :=
  h current (liveObject_eq_some_iff.mp hlive).1

variable {value : LogicalValue} {expiry : Expiry}

/-- A change of the expiry keeps the value, and a fabric reference follows the version. -/
theorem withVersion_sound (h : value.Sound exact version) (hlater : version.next = some later) :
    (withVersion value later).Sound exact later := by
  cases value with
  | fabric reference => rfl
  | streamShard shard => exact StreamShardState.Sound.mono h hlater
  | _ => exact h

section

variable {mutation : Mutation} (hsound : EntrySound exact stored)
  (hfits : exact → EntryFits stored mutation now)

include hsound hfits

/-- What a step stores is sound if what it found was. -/
theorem Writes.sound (h : Writes (liveObject stored now) now version mutation outcome value expiry)
    (hversion : entryNextVersion stored now = some version) : value.Sound exact version := by
  have hold {current : StoredObject} {held : LogicalValue}
      (hlive : liveObject stored now = some current) (hvalue : current.value = held) :
      held.Sound exact current.version := hvalue ▸ hsound.of_live hlive
  have hlater {current : StoredObject} (hlive : liveObject stored now = some current) :
      current.version.next = some version := (entryNextVersion_of_live hlive).symm.trans hversion
  cases h with
  | putBytes | putBytesWithExpiry | replaceChunkedRoot | replaceChunkedRootWithExpiry
  | spliceBytes | counterAdd | commutativeAdd => trivial
  | replaceFabricRoot | replaceFabricRootWithExpiry => rfl
  | setExpiry hlive => exact withVersion_sound (hsound.of_live hlive) (hlater hlive)
  | boundedCreate _ hcap => exact boundedCreate_sound _ hcap
  | boundedAdd hlive hvalue hnext => exact boundedAddPreview_sound (hold hlive hvalue) hnext
  | escrowSetShare _ _ hvalid => exact escrowShareValid_sound hvalid
  | semaphoreCreate => exact ⟨by simp, by simp, fun _ ↦ Nat.zero_le _⟩
  | semaphoreAcquire hlive hvalue hacquire =>
    exact acquirePermit_sound (hold hlive hvalue)
      (fun hexact ↦ hfits hexact _ _ hlive hvalue) hacquire
  | semaphoreRelease hlive hvalue => exact release_sound _ (hold hlive hvalue)
  | leaseAcquire _ hnext => exact grant_sound hnext
  | leaseRenew hlive hvalue hheld =>
    have hbelow := hold hlive hvalue _ (leaseLive_eq_some hheld)
    intro renewed hrenewed
    cases hrenewed
    exact hbelow
  | leaseRelease => exact fun _ hnone ↦ nomatch hnone
  | streamCreate hlive =>
    cases (entryNextVersion_of_absent hlive).symm.trans hversion
    exact ⟨List.Pairwise.nil, nofun, Nat.zero_le _, Nat.zero_lt_one⟩
  | streamAppend hlive hvalue hroom =>
    exact append_sound (hold hlive hvalue) (not_or.mp (not_or.mp hroom).2).2 (hlater hlive)
  | streamTrim hlive hvalue => exact trim_sound _ (hold hlive hvalue) (hlater hlive)

/-- A step of one key keeps its object sound. -/
theorem objectStep_sound (h : objectStep stored mutation now = .ok (outcome, after)) :
    EntrySound exact after := by
  cases entryStep_of_ok h with
  | deleted => rintro object ⟨⟩
  | absent | idle => exact hsound
  | written hversion hwrites =>
    intro object hobject
    cases hobject
    exact hwrites.sound hsound hfits hversion

end

/-! ### Whole stores and runs -/

theorem CellStep.sound {key : Key} {mutation : Mutation} {before after : Cell}
    (h : CellStep key mutation now before after) (hsound : EntrySound exact before.entry)
    (hfits : exact → mutation.ordinaryKey = some key → EntryFits before.entry mutation now) :
    EntrySound exact after.entry := by
  cases h with
  | same | prepare | drop => exact hsound
  | ordinary hkey hstep => exact objectStep_sound hsound (fun hexact ↦ hfits hexact hkey) hstep
  | localCommit _ _ hstep | finalize _ hstep =>
    refine objectStep_sound hsound (fun _ ↦ ?_) hstep
    unfold ObjectStore.localCommitMutation
    split <;> trivial

/-- Every stored object is sound. -/
def StoreSound (exact : Prop) (store : ObjectStore) : Prop :=
  ∀ key : Key, EntrySound exact store.objects[key]?

/-- The event is not an acquisition past the top word of a semaphore. -/
def AcquireFits (store : ObjectStore) (event : StoreEvent) : Prop :=
  match event with
  | .apply mutation now =>
    ∀ key, mutation.ordinaryKey = some key → EntryFits store.objects[key]? mutation now
  | _ => True

variable {store : ObjectStore}

theorem applyStep_sound {timed : Timed} (hsound : StoreSound exact store)
    (hfits : exact → AcquireFits store (.apply timed.1 timed.2)) :
    StoreSound exact (applyStep store timed) := fun key ↦
  (store.apply_cell timed.1 timed.2 key).sound (hsound key) fun hexact ↦ hfits hexact key

theorem StoreEvent.step_sound {event : StoreEvent} (hfits : exact → AcquireFits store event)
    (hsound : StoreSound exact store) :
    StoreSound exact (event.step store) := by
  obtain ⟨enabled, rfl⟩ | ⟨steps, hsteps, hrun⟩ := event.step_eq_run store
  · cases enabled <;> exact hsound
  by_cases happly : ∃ mutation now, event = .apply mutation now
  · obtain ⟨mutation, now, rfl⟩ := happly
    exact applyStep_sound hsound hfits
  -- Sweeps and transfers are runs of mutations that acquire nothing.
  have hfree : ∀ step ∈ steps, ∀ entry, EntryFits entry step.1 step.2 := by
    intro step hmem entry
    cases hsteps step hmem with
    | apply mutation now => exact absurd ⟨mutation, now, rfl⟩ happly
    | sweep | move => trivial
  rw [hrun]
  exact run_invariant_along
    (fun _ _ hstep hstore ↦ applyStep_sound hstore fun _ _ _ ↦ hstep _) hsound
    (along_of_forall store hfree)

theorem storeSound_new (exact : Prop) : StoreSound exact ObjectStore.new := by
  intro key object hobject
  simp [ObjectStore.new] at hobject

/-- All but the capacity bound of semaphores holds of every reachable store. -/
theorem ReachableStore.sound (h : ReachableStore store) : StoreSound False store :=
  Reachable.invariant (storeSound_new False)
    (fun _ _ hstore ↦ StoreEvent.step_sound (fun hfalse ↦ hfalse.elim) hstore) h

/-- What each type promises of its stored objects. -/
def WellTyped (object : StoredObject) : Prop :=
  match object.value with
  | .boundedCounter state => ∃ capacity, i64OfU64 state.capacity = some capacity ∧
      0 ≤ state.share.min ∧ state.share.min ≤ state.value ∧ state.value ≤ state.share.max ∧
      state.share.max ≤ capacity
  | .semaphore state => exactSum state.quantities ≤ state.capacity.toNat ∧
      state.permits.size ≤ maxSemaphorePermits
  | .streamShard shard =>
      (shard.entries.Pairwise fun first second ↦ first.offset < second.offset) ∧
      (∀ entry ∈ shard.entries, entry.offset < shard.nextOffset) ∧
      shard.entries.length ≤ maxStreamShardEntries
  | .lease state =>
      ∀ holder, state.holder = some holder → holder.fencing.asU64 < state.nextFencing.asU64
  | .fabric reference => reference.version = object.version.asU64
  | .bytes _ | .chunked _ | .strictCounter _ | .commutativeCounter _ => True

theorem StoredObject.Sound.wellTyped {object : StoredObject} (h : object.Sound True) :
    WellTyped object := by
  unfold Sound at h
  unfold WellTyped
  cases hvalue : object.value with
  | boundedCounter state =>
    rw [hvalue] at h
    exact state.invariantHolds_iff.mp h
  | semaphore state =>
    rw [hvalue] at h
    exact ⟨h.sum_le trivial, h.size_le⟩
  | streamShard shard =>
    rw [hvalue] at h
    exact ⟨h.sorted, h.below, h.length_le⟩
  | lease state =>
    rw [hvalue] at h
    exact h
  | fabric reference =>
    rw [hvalue] at h
    exact h
  | _ => trivial

/-- In every run from the empty store without an acquisition past the top word of a semaphore,
every stored object keeps what its type promises. -/
theorem typed_invariants_hold {events : List StoreEvent}
    (hfits : Along StoreEvent.step AcquireFits ObjectStore.new events) {key : Key}
    {object : StoredObject}
    (hobject : (run StoreEvent.step ObjectStore.new events).objects[key]? = some object) :
    WellTyped object := by
  have hsound : StoreSound True (run StoreEvent.step ObjectStore.new events) :=
    run_invariant_along
      (fun _ _ hevent hstore ↦ StoreEvent.step_sound (fun _ ↦ hevent) hstore)
      (storeSound_new True) hfits
  exact (hsound key object hobject).wellTyped

/-- A semaphore of capacity five with three units out. -/
theorem typed_invariants_hold_of_acquire :
    let events := [StoreEvent.apply (.semaphoreCreate [1] 5) 0,
      .apply (.semaphoreAcquire [1] (.zero _) 7 3) 1]
    let semaphore : StoredObject :=
      ⟨.semaphore ⟨5, (∅ : Std.ExtTreeMap PermitId PermitRecord).insert (.zero _) ⟨7, 3⟩⟩,
        ⟨2⟩, .never⟩
    (run StoreEvent.step ObjectStore.new events).objects[([1] : Key)]? = some semaphore ∧
      WellTyped semaphore := by
  intro events semaphore
  have hobject : (run StoreEvent.step ObjectStore.new events).objects[([1] : Key)]? =
      some semaphore := by decide
  have hfits : Along StoreEvent.step AcquireFits ObjectStore.new events := by
    refine ⟨fun _ _ ↦ trivial, ?_, trivial⟩
    intro key hkey object state hlive hvalue _ htop
    cases hkey
    have hstored : liveObject (StoreEvent.step ObjectStore.new
        (.apply (.semaphoreCreate [1] 5) 0)).objects[([1] : Key)]? 1 =
        some ⟨.semaphore ⟨5, ∅⟩, ⟨1⟩, .never⟩ := by decide
    cases hstored.symm.trans hlive
    cases hvalue
    exact absurd htop (by decide)
  exact ⟨hobject, typed_invariants_hold hfits hobject⟩

/-- A semaphore of full width hands out more than its capacity: the second acquisition is
checked against a sum that stopped at the top word. -/
theorem semaphore_exceeds_capacity :
    let first : PermitId := .zero _
    let second : PermitId := ⟨List.replicate 16 1, rfl⟩
    let store := run StoreEvent.step ObjectStore.new
      [.apply (.semaphoreCreate [1] maxU64) 0, .apply (.semaphoreAcquire [1] first 7 maxU64) 1,
        .apply (.semaphoreAcquire [1] second 7 1) 2]
    let state : SemaphoreState :=
      ⟨maxU64, ((∅ : Std.ExtTreeMap PermitId PermitRecord).insert first ⟨7, maxU64⟩).insert
        second ⟨7, 1⟩⟩
    store.objects[([1] : Key)]? = some ⟨.semaphore state, ⟨3⟩, .never⟩ ∧
      state.capacity.toNat < exactSum state.quantities := by
  decide

end Kivi.State
