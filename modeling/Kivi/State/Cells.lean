import Kivi.State.LocalCommit

/-!
# What one apply can do to one key

A key's cell is its entry with its reservation. `CellStep` lists everything an applied mutation
can do to a cell, and `apply_cell` proves the list complete. Invariants of single keys are
derived from this list and never unfold `apply` again.
-/

namespace Kivi.State

open ObjectStore (localCommitMutation)

/-- An entry with the reservation on its key. -/
@[ext]
structure Cell where
  entry : Option StoredObject
  intent : Option TxnIntent
deriving DecidableEq

/-- The cell of a key. -/
def ObjectStore.cell (store : ObjectStore) (key : Key) : Cell :=
  ⟨store.objects[key]?, store.intents[key]?⟩

/-- The reservation, if any, is one of this transaction and write set. -/
def OwnedBy (txn : TxnId) (digest : Digest) (intent : Option TxnIntent) : Prop :=
  ∀ held, intent = some held → held.id = txn ∧ held.digest = digest

instance (txn : TxnId) (digest : Digest) (intent : Option TxnIntent) :
    Decidable (OwnedBy txn digest intent) :=
  match intent with
  | none => isTrue nofun
  | some held =>
    if h : held.id = txn ∧ held.digest = digest then
      isTrue fun _ heq ↦ Option.some.inj heq ▸ h
    else isFalse fun hall ↦ h (hall held rfl)

/-- Everything an applied mutation can do to the cell of `key`. -/
inductive CellStep (key : Key) : Mutation → WallTimestamp → Cell → Cell → Prop
  /-- Nothing: the mutation is elsewhere, is refused, or only answers. -/
  | same (mutation : Mutation) (now : WallTimestamp) (cell : Cell) :
      CellStep key mutation now cell cell
  /-- An ordinary mutation steps the entry of its unreserved key. -/
  | ordinary {mutation : Mutation} {now : WallTimestamp} {entry after : Option StoredObject}
      {outcome : ApplyOutcome} (hkey : mutation.ordinaryKey = some key)
      (hstep : objectStep entry mutation now = .ok (outcome, after)) :
      CellStep key mutation now ⟨entry, none⟩ ⟨after, none⟩
  /-- A local commit makes one of its writes on an unreserved key. -/
  | localCommit {txn : TxnId} {writes : List TxnWrite} {now : WallTimestamp} {write : TxnWrite}
      {entry after : Option StoredObject} {outcome : ApplyOutcome} (hmem : write ∈ writes)
      (hkey : write.key = key)
      (hstep : objectStep entry (localCommitMutation key write.kind) now = .ok (outcome, after)) :
      CellStep key (.txnCommitLocal txn writes) now ⟨entry, none⟩ ⟨after, none⟩
  /-- A prepare puts a reservation on a key that is free or already held by the same
  transaction and write set. -/
  | prepare {txn : TxnId} {coordinator : TabletId} {expect : TxnExpect} {kind : TxnWriteKind}
      {digest : Digest} {now : WallTimestamp} {entry : Option StoredObject}
      {intent : Option TxnIntent} (howned : OwnedBy txn digest intent)
      (hexpect : checkTxnExpectation expect (liveObject entry now) = .ok ())
      (hwritable : checkTxnWritable kind (liveObject entry now) = .ok ()) :
      CellStep key (.txnPrepare txn coordinator key expect kind digest) now ⟨entry, intent⟩
        ⟨entry, some ⟨txn, coordinator, key, ⟨key, kind, expect⟩, digest,
          (liveObject entry now).map StoredObject.version, now⟩⟩
  /-- A finalize drops the reservation without a write: an abort, a foreign reservation, or a
  commit whose write fails. -/
  | drop {txn : TxnId} {commit : Bool} {write : TxnWrite} {digest : Digest} {now : WallTimestamp}
      {entry : Option StoredObject} {intent : Option TxnIntent}
      (hwhy : commit = false ∨ ¬ OwnedBy txn digest intent ∨ ¬ WriteReady write.kind entry now) :
      CellStep key (.txnFinalize txn key commit write digest) now ⟨entry, intent⟩ ⟨entry, none⟩
  /-- A commit finalize applies its own write, on a key that is free or held by it. -/
  | finalize {txn : TxnId} {write : TxnWrite} {digest : Digest} {now : WallTimestamp}
      {entry after : Option StoredObject} {intent : Option TxnIntent} {outcome : ApplyOutcome}
      (howned : OwnedBy txn digest intent)
      (hstep : objectStep entry (localCommitMutation key write.kind) now = .ok (outcome, after)) :
      CellStep key (.txnFinalize txn key true write digest) now ⟨entry, intent⟩ ⟨after, none⟩

namespace ObjectStore

variable {store : ObjectStore} {now : WallTimestamp}

/-! ### Each kind of mutation -/

/-- Ordinary mutations are applied as such. -/
theorem apply_of_ordinary {mutation : Mutation} {key : Key}
    (hkey : mutation.ordinaryKey = some key) :
    store.apply mutation now = store.applyOrdinary mutation key now := by
  cases mutation <;> simp only [Mutation.ordinaryKey, Mutation.key, Mutation.keys,
    List.head?_cons, Option.some.injEq, reduceCtorEq] at hkey
  all_goals
    subst hkey
    rfl

theorem foreignReservation_eq_false_iff {key : Key} {txn : TxnId} {digest : Digest} :
    store.foreignReservation key txn digest = false ↔ OwnedBy txn digest store.intents[key]? := by
  unfold foreignReservation OwnedBy
  cases store.intents[key]? with
  | none => simp
  | some intent => simp

/-- The two writability checks of the source agree on what passes. -/
theorem checkReservable_ok_iff (kind : TxnWriteKind) (live : Option StoredObject) :
    checkReservable kind live = .ok () ↔ checkTxnWritable kind live = .ok () := by
  cases kind with
  | counterAdd delta => exact (checkTxnWritable_add live delta).1.symm
  | commutativeAdd delta => exact (checkTxnWritable_add live delta).2.symm
  | boundedAdd delta =>
    simp only [checkReservable, checkTxnWritable]
    cases live with
    | none => simp
    | some object =>
      cases hvalue : object.value <;> simp [hvalue]
      cases boundedAddPreview _ delta <;> simp
  | escrowSetShare min max =>
    simp only [checkReservable, checkTxnWritable]
    cases live with
    | none => simp
    | some object =>
      cases hvalue : object.value <;> simp [hvalue]
  | _ => simp [checkReservable, checkTxnWritable]

@[simp] theorem eraseIntent_objects (key : Key) :
    (store.eraseIntent key).objects = store.objects := rfl

@[simp] theorem insertIntent_objects (intent : TxnIntent) :
    (store.insertIntent intent).objects = store.objects := rfl

theorem getElem?_eraseIntent (key other : Key) :
    (store.eraseIntent key).intents[other]? =
      if other = key then none else store.intents[other]? := by
  simp [eraseIntent, Std.ExtTreeMap.getElem?_erase, @eq_comm _ other key]

theorem getElem?_insertIntent (intent : TxnIntent) (other : Key) :
    (store.insertIntent intent).intents[other]? =
      if other = intent.key then some intent else store.intents[other]? := by
  simp [insertIntent, Std.ExtTreeMap.getElem?_insert, @eq_comm _ other intent.key]

/-- A prepare is refused without effect, or reserves its key. -/
theorem applyTxnPrepare_cases (store : ObjectStore) (now : WallTimestamp) (txn : TxnId)
    (coordinator : TabletId) (write : TxnWrite) (digest : Digest) :
    (∃ answer, answer ≠ .ok .txnPrepared ∧ answer ≠ .panic ∧
      store.applyTxnPrepare txn coordinator write digest now = (answer, store)) ∨
    (OwnedBy txn digest store.intents[write.key]? ∧
      checkTxnExpectation write.expect (store.get write.key now) = .ok () ∧
      checkTxnWritable write.kind (store.get write.key now) = .ok () ∧
      store.applyTxnPrepare txn coordinator write digest now =
        (.ok .txnPrepared, store.insertIntent ⟨txn, coordinator, write.key, write, digest,
          (store.get write.key now).map StoredObject.version, now⟩)) := by
  unfold applyTxnPrepare
  cases hforeign : store.foreignReservation write.key txn digest with
  | true => exact Or.inl ⟨.ok .txnConflict, nofun, nofun, rfl⟩
  | false =>
    have howned := foreignReservation_eq_false_iff.mp hforeign
    simp only [Bool.false_eq_true, if_false]
    cases hexpect : checkTxnExpectation write.expect (store.get write.key now) with
    | error _ => exact Or.inl ⟨.ok .txnConflict, nofun, nofun, rfl⟩
    | ok _ =>
      cases hwritable : checkReservable write.kind (store.get write.key now) with
      | error error => exact Or.inl ⟨.err error, nofun, nofun, rfl⟩
      | ok _ => exact Or.inr ⟨howned, rfl, (checkReservable_ok_iff _ _).mp hwritable, rfl⟩

/-- A prepare that passes its checks reserves its key. -/
theorem applyTxnPrepare_of_ready {txn : TxnId} {coordinator : TabletId} {write : TxnWrite}
    {digest : Digest} (howned : OwnedBy txn digest store.intents[write.key]?)
    (hexpect : checkTxnExpectation write.expect (store.get write.key now) = .ok ())
    (hwritable : checkTxnWritable write.kind (store.get write.key now) = .ok ()) :
    store.applyTxnPrepare txn coordinator write digest now =
      (.ok .txnPrepared, store.insertIntent ⟨txn, coordinator, write.key, write, digest,
        (store.get write.key now).map StoredObject.version, now⟩) := by
  have hreservable := (checkReservable_ok_iff _ _).mpr hwritable
  simp [applyTxnPrepare, foreignReservation_eq_false_iff.mpr howned, hexpect, hreservable]

section Finalize

variable {key : Key} {txn : TxnId} {write : TxnWrite} {digest : Digest}

theorem applyTxnFinalize_of_foreign (commit : Bool)
    (hforeign : ¬ OwnedBy txn digest store.intents[key]?) :
    store.applyTxnFinalize txn key commit write digest now =
      (.err .txnDiverged, store.eraseIntent key) := by
  rw [← foreignReservation_eq_false_iff, Bool.not_eq_false] at hforeign
  simp [applyTxnFinalize, hforeign]

theorem applyTxnFinalize_of_abort (howned : OwnedBy txn digest store.intents[key]?) :
    store.applyTxnFinalize txn key false write digest now =
      (.ok (.txnFinalized false none), store.eraseIntent key) := by
  rw [← foreignReservation_eq_false_iff] at howned
  simp [applyTxnFinalize, howned]

/-- The store after a commit finalize whose write left `entry`. -/
def finalized (store : ObjectStore) (key : Key) (kind : TxnWriteKind) (outcome : ApplyOutcome)
    (entry : Option StoredObject) : ObjectStore :=
  ((store.eraseIntent key).setEntry key entry).noteOutcome (localCommitMutation key kind) key
    outcome

theorem finalized_cell_self (kind : TxnWriteKind) (outcome : ApplyOutcome)
    (entry : Option StoredObject) :
    (store.finalized key kind outcome entry).cell key = ⟨entry, none⟩ := by
  simp [finalized, cell, getElem?_setEntry, getElem?_eraseIntent]

theorem finalized_cell_of_ne {other : Key} (hne : other ≠ key) (kind : TxnWriteKind)
    (outcome : ApplyOutcome) (entry : Option StoredObject) :
    (store.finalized key kind outcome entry).cell other = store.cell other := by
  simp [finalized, cell, getElem?_setEntry, getElem?_eraseIntent, hne]

/-- The version an applied write is answered with: none for a delete, the entry's next one
otherwise. -/
def writtenVersion (kind : TxnWriteKind) (stored : Option StoredObject) (now : WallTimestamp) :
    Option ObjectVersion :=
  if kind = .delete then none else entryNextVersion stored now

/-- A commit finalize applies its write exactly when the write is ready. The reservation is
gone either way. -/
theorem applyTxnFinalize_commit_cases (write : TxnWrite) (now : WallTimestamp)
    (howned : OwnedBy txn digest store.intents[key]?) :
    (WriteReady write.kind store.objects[key]? now ∧
      ∃ outcome entry,
        objectStep store.objects[key]? (localCommitMutation key write.kind) now =
          .ok (outcome, entry) ∧
        store.applyTxnFinalize txn key true write digest now =
          (.ok (.txnFinalized true (writtenVersion write.kind store.objects[key]? now)),
            store.finalized key write.kind outcome entry)) ∨
    (¬ WriteReady write.kind store.objects[key]? now ∧
      ∃ error, store.applyTxnFinalize txn key true write digest now =
        (.err error, store.eraseIntent key)) := by
  rw [← foreignReservation_eq_false_iff] at howned
  have hfree : (store.eraseIntent key).intents[key]? = none := by
    rw [getElem?_eraseIntent, if_pos rfl]
  simp only [applyTxnFinalize, howned, Bool.false_eq_true, if_false, Bool.not_true,
    applyOrdinary_of_free (localCommitMutation_ordinaryKey key write.kind) hfree,
    eraseIntent_objects]
  rcases localCommit_step_cases key write.kind store.objects[key]? now with
    ⟨hready, outcome, entry, hstep⟩ | ⟨hready, error, hstep⟩
  · have hanswer : finalizeAnswer outcome =
        .ok (.txnFinalized true (writtenVersion write.kind store.objects[key]? now)) := by
      rcases (localCommit_step_ok hstep).1 with
        ⟨hdelete, -, hanswer⟩ | ⟨hdelete, object, -, hversion, -, hanswer⟩
      · rw [hanswer, writtenVersion, if_pos hdelete]
      · rw [hanswer, writtenVersion, if_neg hdelete, hversion]
    exact Or.inl ⟨hready, outcome, entry, hstep, by simp only [hstep, hanswer, finalized]⟩
  · exact Or.inr ⟨hready, error, by simp only [hstep]⟩

end Finalize

/-- A local commit that fails leaves the store; one that succeeds has its own effect. -/
theorem applyLocalCommit_cases (store : ObjectStore) (writes : List TxnWrite)
    (now : WallTimestamp) :
    (∃ error, store.applyLocalCommit writes now = (.err error, store)) ∨
    (∃ after, LocalEffect store writes now after ∧
      store.applyLocalCommit writes now =
        (.ok (.txnLocalCommitted (after.localVersions writes now)), after)) := by
  unfold applyLocalCommit
  rcases commitLocal_cases store writes now with
    ⟨error, -, hcommit, -⟩ | ⟨-, results, after, hcommit, heffect⟩
  · rw [hcommit]
    cases error <;> exact Or.inl ⟨_, rfl⟩
  · rw [hcommit]
    exact Or.inr ⟨after, heffect, rfl⟩

/-! ### The list is complete -/

theorem cell_of_ordinary {mutation : Mutation} {own : Key}
    (hkey : mutation.ordinaryKey = some own) (key : Key) :
    CellStep key mutation now (store.cell key)
      ((store.applyOrdinary mutation own now).2.cell key) := by
  by_cases hother : key = own
  · subst hother
    cases hheld : store.intents[key]? with
    | some intent =>
      rw [applyOrdinary_of_reserved hheld]
      exact .same ..
    | none =>
      rw [applyOrdinary_of_free hkey hheld]
      rcases hstep : objectStep store.objects[key]? mutation now with ⟨outcome, entry⟩ | error | _
      · simp only [cell, noteOutcome_objects, noteOutcome_intents, setEntry_intents, hheld,
          getElem?_setEntry, if_true]
        exact .ordinary hkey hstep
      · exact .same ..
      · exact .same ..
  · simp only [cell, applyOrdinary_intents hkey, applyOrdinary_objects_of_ne hkey hother]
    exact .same ..

theorem cell_of_prepare {txn : TxnId} {coordinator : TabletId} {own : Key} {expect : TxnExpect}
    {kind : TxnWriteKind} {digest : Digest} (key : Key) :
    CellStep key (.txnPrepare txn coordinator own expect kind digest) now (store.cell key)
      ((store.applyTxnPrepare txn coordinator ⟨own, kind, expect⟩ digest now).2.cell key) := by
  rcases applyTxnPrepare_cases store now txn coordinator ⟨own, kind, expect⟩ digest with
    ⟨answer, -, -, heq⟩ | ⟨howned, hexpect, hwritable, heq⟩
  · rw [heq]
    exact .same ..
  · rw [heq]
    simp only [cell, insertIntent_objects, getElem?_insertIntent]
    split_ifs with hown
    · subst hown
      exact .prepare howned hexpect hwritable
    · exact .same ..

/-- What a finalize does to the cell of any key. -/
theorem cell_of_finalize {txn : TxnId} {own : Key} {commit : Bool} {write : TxnWrite}
    {digest : Digest} (key : Key) :
    CellStep key (.txnFinalize txn own commit write digest) now (store.cell key)
      ((store.applyTxnFinalize txn own commit write digest now).2.cell key) := by
  -- Where the reservation goes without a write, the entry stays.
  have hdrop (hwhy : commit = false ∨ ¬ OwnedBy txn digest store.intents[own]? ∨
      ¬ WriteReady write.kind store.objects[own]? now) :
      CellStep key (.txnFinalize txn own commit write digest) now (store.cell key)
        ((store.eraseIntent own).cell key) := by
    simp only [cell, eraseIntent_objects, getElem?_eraseIntent]
    split_ifs with hown
    · subst hown
      exact .drop hwhy
    · exact .same ..
  by_cases howned : OwnedBy txn digest store.intents[own]?
  · cases commit with
    | false =>
      rw [applyTxnFinalize_of_abort howned]
      exact hdrop (Or.inl rfl)
    | true =>
      rcases applyTxnFinalize_commit_cases write now howned with
        ⟨-, outcome, entry, hstep, heq⟩ | ⟨hready, error, heq⟩
      · rw [heq]
        by_cases hown : key = own
        · subst hown
          rw [finalized_cell_self]
          exact .finalize howned hstep
        · rw [finalized_cell_of_ne hown]
          exact .same ..
      · rw [heq]
        exact hdrop (Or.inr (Or.inr hready))
  · rw [applyTxnFinalize_of_foreign commit howned]
    exact hdrop (Or.inr (Or.inl howned))

/-- Every apply takes every cell through one of the listed steps. -/
theorem apply_cell (store : ObjectStore) (mutation : Mutation) (now : WallTimestamp) (key : Key) :
    CellStep key mutation now (store.cell key) ((store.apply mutation now).2.cell key) := by
  cases hordinary : mutation.ordinaryKey with
  | some own =>
    rw [apply_of_ordinary hordinary]
    exact cell_of_ordinary hordinary key
  | none =>
    cases mutation with
    | txnPrepare txn coordinator own expect kind digest => exact cell_of_prepare key
    | txnFinalize txn own commit write digest => exact cell_of_finalize key
    | txnCommitLocal txn writes =>
      change CellStep _ _ _ _ ((store.applyLocalCommit writes now).2.cell key)
      rcases applyLocalCommit_cases store writes now with
        ⟨error, heq⟩ | ⟨after, heffect, heq⟩
      · rw [heq]
        exact .same ..
      · obtain ⟨hintents, hkeys⟩ := heffect
        have hkey := hkeys key
        simp only [heq, cell, hintents]
        split at hkey
        · rw [hkey]
          exact .same ..
        next write hwrite =>
          obtain ⟨hfree, outcome, hstep⟩ := hkey
          obtain ⟨hmem, hnamed⟩ := collapse_mem hwrite
          rw [hfree]
          exact .localCommit hmem hnamed hstep
    | _ => simp [Mutation.ordinaryKey, Mutation.key, Mutation.keys] at hordinary

end ObjectStore

end Kivi.State
