import Kivi.State.Reservations

/-!
# Versions

An object's version advances with each change, and a key that loses its object starts over. As
long as no step deletes the object of a key or overwrites it after it expired, its versions only
grow (`run_grows`), so a version that is seen twice saw one object all along
(`version_identifies_object`).
-/

namespace Kivi.State

open Library.Runs
open ObjectStore (localCommitMutation)

/-! ### Steps that can start the numbering of a key over -/

/-- Whether the write can store an object where none is live. -/
def TxnWriteKind.creates : TxnWriteKind → Bool
  | put _ | putChunked _ _ | putFabric _ _ _ | counterAdd _ | commutativeAdd _ => true
  | delete | boundedAdd _ | escrowSetShare _ _ => false

namespace Mutation

/-- Whether the mutation can store an object under `key` where none is live. -/
def creates (key : Key) : Mutation → Bool
  | putBytes own _ | putBytesWithExpiry own _ _ | replaceChunkedRoot own _ _
  | replaceChunkedRootWithExpiry own _ _ _ | replaceFabricRoot own _ _ _
  | replaceFabricRootWithExpiry own _ _ _ _ | spliceBytes own _ _ | counterAdd own _
  | commutativeAdd own _ | boundedCreate own _ _ | semaphoreCreate own _
  | leaseAcquire own _ _ _ | streamCreate own _ _ => decide (own = key)
  | txnFinalize _ own commit write _ => commit && decide (own = key) && write.kind.creates
  | txnCommitLocal _ writes => writes.any fun write ↦ decide (write.key = key) && write.kind.creates
  | _ => false

/-- Whether the mutation deletes the object of `key`. -/
def deletes (key : Key) : Mutation → Bool
  | delete own => decide (own = key)
  | txnFinalize _ own commit write _ =>
    commit && decide (own = key) && decide (write.kind = .delete)
  | txnCommitLocal _ writes =>
    writes.any fun write ↦ decide (write.key = key) && decide (write.kind = .delete)
  | _ => false

end Mutation

/-- The event does not start the numbering of a stored object's key over: it does not delete the
object, and writes that could create one come before it expires. -/
def KeepsNumbering (key : Key) (store : ObjectStore) (event : StoreEvent) : Prop :=
  ∀ object, store.objects[key]? = some object →
    match event with
    | .apply mutation now =>
      mutation.deletes key = false ∧ (mutation.creates key = true → object.isExpired now = false)
    | .sweepExpired now _ _ => object.isExpired now = false
    | .transferEscrow _ _ _ _ | .setOrderedIndexing _ => True

/-! ### Versions grow -/

/-- A stored object stays, or gives way to one with a higher version. -/
def Grows (before after : Option StoredObject) : Prop :=
  ∀ object, before = some object → ∃ object', after = some object' ∧
    (object' = object ∨ object.version.asU64 < object'.version.asU64)

theorem Grows.refl (entry : Option StoredObject) : Grows entry entry :=
  fun object h ↦ ⟨object, h, Or.inl rfl⟩

section

variable {first second third : Option StoredObject} (h : Grows first second)
  (h' : Grows second third)

include h h'

theorem Grows.trans : Grows first third := by
  intro object hobject
  obtain ⟨mid, hmid, hle⟩ := h object hobject
  obtain ⟨last, hlast, hle'⟩ := h' mid hmid
  refine ⟨last, hlast, ?_⟩
  rcases hle with rfl | hlt
  · exact hle'
  · rcases hle' with rfl | hlt'
    · exact Or.inr hlt
    · exact Or.inr (UInt64.lt_trans hlt hlt')

/-- Where nothing grew in version, nothing changed. -/
theorem Grows.eq_of_version_eq {object last : StoredObject} (hobject : first = some object)
    (hlast : third = some last) (hversion : last.version = object.version) : second = first := by
  obtain ⟨mid, hmid, hle⟩ := h object hobject
  obtain ⟨last', hlast', hle'⟩ := h' mid hmid
  obtain rfl : last' = last := Option.some.inj (hlast'.symm.trans hlast)
  rcases hle with rfl | hlt
  · rw [hmid, hobject]
  · exfalso
    rw [← hversion] at hlt
    rcases hle' with rfl | hlt'
    · exact UInt64.lt_irrefl _ hlt
    · exact UInt64.lt_irrefl _ (UInt64.lt_trans hlt hlt')

end

variable {key : Key} {mutation : Mutation} {now : WallTimestamp}

/-- A step that stores over a live object raises the version. -/
theorem grows_of_live {stored after : Option StoredObject} (hstores : Stores stored now after)
    (hlive : ∀ object, stored = some object → object.isExpired now = false) :
    Grows stored after := by
  intro object hobject
  obtain ⟨object', hafter, hversion⟩ := hstores
  have hcurrent : liveObject stored now = some object :=
    liveObject_eq_some_iff.mpr ⟨hobject, hlive object hobject⟩
  rw [entryNextVersion_of_live hcurrent, ObjectVersion.next_eq_some_iff] at hversion
  exact ⟨object', hafter, Or.inr (UInt64.lt_iff_toNat_lt.mpr (by omega))⟩

section

variable {stored after : Option StoredObject} {outcome : ApplyOutcome}
  (hkey : mutation.ordinaryKey = some key)

include hkey

/-- A step that neither deletes nor creates anew raises the version or keeps the object. -/
theorem grows_of_step (hdeletes : mutation.deletes key = false)
    (hcreates : mutation.creates key = true →
      ∀ object, stored = some object → object.isExpired now = false)
    (h : objectStep stored mutation now = .ok (outcome, after)) : Grows stored after := by
  have hnot : mutation ≠ .delete key := by
    rintro rfl
    simp [Mutation.deletes] at hdeletes
  cases entryStep_of_ok h with
  | deleted => exact absurd (congrArg Mutation.delete (Option.some.inj hkey)) hnot
  | absent | idle => exact .refl _
  | written hversion hwrites =>
    by_cases hcreate : mutation.creates key = true
    · exact grows_of_live ⟨_, rfl, hversion⟩ (hcreates hcreate)
    -- A write that creates nothing works on a live object.
    have hlive : ∃ current, liveObject stored now = some current := by
      cases hwrites with
      | setExpiry hlive | boundedAdd hlive | escrowSetShare hlive | semaphoreAcquire hlive
      | semaphoreRelease hlive | leaseRenew hlive | leaseRelease hlive | streamAppend hlive
      | streamTrim hlive => exact ⟨_, hlive⟩
      | _ =>
        cases hkey
        simp [Mutation.creates] at hcreate
    obtain ⟨current, hlive⟩ := hlive
    obtain ⟨hstored, hexpired⟩ := liveObject_eq_some_iff.mp hlive
    refine grows_of_live ⟨_, rfl, hversion⟩ fun object hobject ↦ ?_
    rw [hstored] at hobject
    cases hobject
    exact hexpired

end

@[simp] theorem localCommitMutation_deletes (key : Key) (kind : TxnWriteKind) :
    (localCommitMutation key kind).deletes key = decide (kind = .delete) := by
  cases kind <;> simp [localCommitMutation, Mutation.deletes]

@[simp] theorem localCommitMutation_creates (key : Key) (kind : TxnWriteKind) :
    (localCommitMutation key kind).creates key = kind.creates := by
  cases kind <;> simp [localCommitMutation, Mutation.creates, TxnWriteKind.creates]

theorem CellStep.grows {before after : Cell} (h : CellStep key mutation now before after)
    (hdeletes : mutation.deletes key = false)
    (hcreates : mutation.creates key = true →
      ∀ object, before.entry = some object → object.isExpired now = false) :
    Grows before.entry after.entry := by
  cases h with
  | same | prepare | drop => exact .refl _
  | ordinary hkey hstep => exact grows_of_step hkey hdeletes hcreates hstep
  | @localCommit txn writes _ write _ _ _ hmem hkey hstep =>
    refine grows_of_step (ObjectStore.localCommitMutation_ordinaryKey _ _) ?_ ?_ hstep
    · have hnone := List.any_eq_false.mp hdeletes write hmem
      simpa [hkey] using hnone
    · intro hcreate
      refine hcreates (List.any_eq_true.mpr ⟨write, hmem, ?_⟩)
      simpa [hkey] using hcreate
  | finalize howned hstep =>
    refine grows_of_step (ObjectStore.localCommitMutation_ordinaryKey _ _) ?_ ?_ hstep
    · rw [localCommitMutation_deletes]
      simpa [Mutation.deletes] using hdeletes
    · intro hcreate
      rw [localCommitMutation_creates] at hcreate
      exact hcreates (by simpa [Mutation.creates] using hcreate)

/-- Applies that neither delete nor create under the key let its versions grow. -/
theorem run_applyStep_grows (key : Key) (store : ObjectStore) {steps : List Timed}
    (h : ∀ step ∈ steps, step.1.deletes key = false ∧ step.1.creates key = false) :
    Grows store.objects[key]? (run applyStep store steps).objects[key]? :=
  run_relation (R := fun first second ↦ Grows first.objects[key]? second.objects[key]?)
    (fun _ ↦ .refl _) .trans
    (fun store step hstep ↦ (store.apply_cell step.1 step.2 key).grows hstep.1
      fun hcreate ↦ absurd hcreate (by simp [hstep.2]))
    (along_of_forall store h)

/-- An event that keeps the numbering does not lower the version of the key. -/
theorem StoreEvent.step_grows {store : ObjectStore} {event : StoreEvent}
    (h : KeepsNumbering key store event) :
    Grows store.objects[key]? (event.step store).objects[key]? := by
  cases hentry : store.objects[key]? with
  | none => intro object hobject; cases hobject
  | some object =>
    have hkeeps := h object hentry
    rw [← hentry]
    obtain ⟨enabled, rfl⟩ | ⟨steps, hsteps, hrun⟩ := event.step_eq_run store
    · cases enabled <;> exact .refl _
    by_cases happly : ∃ mutation now, event = .apply mutation now
    · obtain ⟨mutation, now, rfl⟩ := happly
      refine (store.apply_cell mutation now key).grows hkeeps.1 fun hcreate other hother ↦ ?_
      cases hentry.symm.trans hother
      exact hkeeps.2 hcreate
    rw [hrun]
    refine run_applyStep_grows key store fun step hmem ↦ ?_
    cases hsteps step hmem with
    | apply mutation now => exact absurd ⟨mutation, now, rfl⟩ happly
    | @sweep now _ _ own other hother hlapsed =>
      -- The key's own object has not expired, so the sweep does not collect the key.
      have hne : own ≠ key := by
        rintro rfl
        cases hentry.symm.trans hother
        exact Bool.false_ne_true (Eq.trans (Eq.symm hkeeps) hlapsed)
      simp [Mutation.deletes, Mutation.creates, hne]
    | move => exact ⟨rfl, rfl⟩

theorem run_grows {store : ObjectStore} {events : List StoreEvent}
    (h : Along StoreEvent.step (KeepsNumbering key) store events) :
    Grows store.objects[key]? (run StoreEvent.step store events).objects[key]? :=
  run_relation (R := fun first second ↦ Grows first.objects[key]? second.objects[key]?)
    (fun _ ↦ .refl _) .trans (fun _ _ hevent ↦ StoreEvent.step_grows hevent) h

/-! ### A version seen twice -/

/-- In a run that never starts the key's numbering over, a version found at its start and again
at its end belongs to one object that no step in between replaced; a version guard taken at the
start and accepted at the end has seen every update. -/
theorem version_identifies_object {store : ObjectStore} {key : Key} {object : StoredObject}
    (hobject : store.objects[key]? = some object) (first second : List StoreEvent)
    (hkeeps : Along StoreEvent.step (KeepsNumbering key) store (first ++ second)) :
    let mid := run StoreEvent.step store first
    let last := run StoreEvent.step mid second
    (last.objects[key]?.map StoredObject.version = some object.version →
      mid.objects[key]? = some object) ∧
    (∀ now, checkTxnExpectation (.version object.version) (last.get key now) = .ok () →
      mid.objects[key]? = some object) := by
  intro mid last
  obtain ⟨hfirst, hsecond⟩ := along_append.mp hkeeps
  have hsame (object' : StoredObject) (hobject' : last.objects[key]? = some object')
      (hversion : object'.version = object.version) : mid.objects[key]? = some object :=
    ((run_grows hfirst).eq_of_version_eq (run_grows hsecond) hobject hobject' hversion).trans
      hobject
  constructor
  · intro hversion
    obtain ⟨object', hobject', hversion'⟩ := Option.map_eq_some_iff.mp hversion
    exact hsame object' hobject' hversion'
  · intro now hguard
    unfold checkTxnExpectation at hguard
    cases hlive : last.get key now with
    | none => simp [hlive] at hguard
    | some object' =>
      refine hsame object' (liveObject_eq_some_iff.mp hlive).1 ?_
      by_contra hversion
      simp [hlive, hversion] at hguard

/-- Two writes of another key leave the version of this one a faithful name of its object. -/
theorem version_identifies_object_beside_writes :
    let store := run StoreEvent.step .new [.apply (.putBytes [1] [7]) 0]
    let events := [StoreEvent.apply (.putBytes [2] [8]) 1, .sweepExpired 2 9 ∅]
    (run StoreEvent.step (run StoreEvent.step store events) []).objects[([1] : Key)]?.map
        StoredObject.version = some ⟨1⟩ ∧
      (run StoreEvent.step store events).objects[([1] : Key)]? =
        some ⟨.bytes [7], ⟨1⟩, .never⟩ := by
  intro store events
  have hkeeps : Along StoreEvent.step (KeepsNumbering [1]) store (events ++ []) := by
    refine ⟨fun object hobject ↦ ⟨rfl, nofun⟩, fun object hobject ↦ ?_, trivial⟩
    have hstored : (StoreEvent.step store (.apply (.putBytes [2] [8]) 1)).objects[([1] : Key)]? =
        some ⟨.bytes [7], ⟨1⟩, .never⟩ := by decide
    cases hstored.symm.trans hobject
    rfl
  exact ⟨by decide, (version_identifies_object (by decide) events [] hkeeps).1 (by decide)⟩

/-- A key that is deleted and written again carries its first version once more, over another
object: a guard read before the delete accepts after it. -/
theorem recreated_key_reuses_version :
    let first := run StoreEvent.step .new [.apply (.putBytes [1] [7]) 0]
    let last := run StoreEvent.step first
      [.apply (.delete [1]) 1, .apply (.putBytes [1] [8]) 2]
    first.objects[([1] : Key)]? = some ⟨.bytes [7], ⟨1⟩, .never⟩ ∧
      last.objects[([1] : Key)]? = some ⟨.bytes [8], ⟨1⟩, .never⟩ ∧
      checkTxnExpectation (.version ⟨1⟩) (last.get [1] 3) = .ok () := by
  decide

end Kivi.State
