import Kivi.State.Cells

/-!
# The ordered key index

A store may keep its keys in order for range scans. The index is kept beside the objects by every
path that writes them, so it has to follow each of them: `Mirrors` says that it holds exactly the
stored keys, and `StoreChange.mirrors` that every change keeps it so.
-/

namespace Kivi.State

open Library Library.Runs
open Std (ExtTreeMap ExtTreeSet)

namespace ObjectStore

/-! ### Changes outside apply -/

variable (store : ObjectStore)

def rebuildOrderedIndex : ObjectStore := store.setOrderedIndexing true

/-- Remove whatever is stored under a key, with its index mark. -/
def removeStored (key : Key) : ObjectStore :=
  (store.eraseObject key).noteRemoved key

/-- Replace the reservation of a key. -/
def stageIntentForKey (key : Key) (intent : Option TxnIntent) : ObjectStore :=
  match intent with
  | some staged => { store with intents := store.intents.insert key staged }
  | none => store.eraseIntent key

/-- The store that a decoded snapshot installs. -/
def installDecoded (objects : List (Key × StoredObject)) (intents : List TxnIntent)
    (orderedIndex : Bool) : ObjectStore :=
  let restored := objects.foldl (fun store entry ↦ store.putStored entry.1 entry.2) .new
  let reserved := intents.foldl insertIntent restored
  if orderedIndex then reserved.rebuildOrderedIndex else reserved

/-- The source's own check of the index, by size and by lookup of every key. -/
def verifyOrderedIndex : Bool :=
  match store.ordered with
  | none => true
  | some index =>
    index.size == store.objects.size && index.toList.all (store.objects.contains ·)

/-- If the index is kept, it holds exactly the stored keys. -/
def Mirrors : Prop :=
  ∀ index, store.ordered = some index → ∀ key : Key, key ∈ index ↔ key ∈ store.objects

end ObjectStore

/-! ### Applies -/

variable {stored after : Option StoredObject} {now : WallTimestamp} {outcome : ApplyOutcome}
  {mutation : Mutation} {key : Key} {store : ObjectStore}

/-- The outcomes after which `apply` marks the key as stored. -/
def ApplyOutcome.marksStored : ApplyOutcome → Bool
  | .put _ | .counter _ _ | .commutative _ _ | .bounded _ _ | .expiry true _
  | .leaseGranted _ _ | .leaseReleased _ | .semaphoreAcquired | .semaphoreReleased _
  | .streamAppended _ | .streamTrimmed _ => true
  | _ => false

theorem ObjectStore.noteOutcome_of_marks (h : outcome.marksStored = true) :
    store.noteOutcome mutation key outcome = store.noteStored key := by
  unfold ApplyOutcome.marksStored at h
  split at h
  all_goals first | rfl | cases h

namespace ObjectStore

/-- A change that leaves indexing on or off, and the index right where it was right. -/
structure KeepsIndex (before after : ObjectStore) : Prop where
  enabled : after.ordered.isSome = before.ordered.isSome
  mirrors : before.Mirrors → after.Mirrors

theorem KeepsIndex.refl (store : ObjectStore) : KeepsIndex store store := ⟨rfl, id⟩

theorem KeepsIndex.trans {first second third : ObjectStore} (h : KeepsIndex first second)
    (h' : KeepsIndex second third) : KeepsIndex first third :=
  ⟨h'.enabled.trans h.enabled, h'.mirrors ∘ h.mirrors⟩

/-- A call's answer does not matter to the index. -/
theorem KeepsIndex.of_answer {α : Type} {answer : α} {called : α × ObjectStore}
    {after : ObjectStore} (h : KeepsIndex store called.2) (hcalled : called = (answer, after)) :
    KeepsIndex store after := by
  rw [hcalled] at h
  exact h

/-- Reservations are no part of the index. -/
theorem KeepsIndex.of_eq {after : ObjectStore} (hobjects : after.objects = store.objects)
    (hordered : after.ordered = store.ordered) : KeepsIndex store after := by
  constructor
  · rw [hordered]
  · intro h index hindex key
    rw [hordered] at hindex
    rw [hobjects]
    exact h index hindex key

/-- Writing one entry and its mark keeps the index right. -/
theorem KeepsIndex.of_setEntry {entry : Option StoredObject} {marked : ObjectStore}
    (hobjects : marked.objects = (store.setEntry key entry).objects)
    (hordered : marked.ordered = store.ordered.map fun index ↦
      if entry.isSome then index.insert key else index.erase key) : KeepsIndex store marked := by
  constructor
  · rw [hordered, Option.isSome_map]
  · intro h index hindex other
    rw [hordered] at hindex
    obtain ⟨before, hbefore, rfl⟩ := Option.map_eq_some_iff.mp hindex
    have hother := h before hbefore other
    rw [hobjects, ← ExtTreeMap.isSome_getElem?_iff_mem, getElem?_setEntry]
    by_cases hsame : other = key
    · subst hsame
      cases entry <;> simp
    · rw [if_neg hsame, ExtTreeMap.isSome_getElem?_iff_mem, ← hother]
      have hne : ¬ key = other := fun heq ↦ hsame heq.symm
      cases entry <;> simp [hne]

section

variable (store : ObjectStore)

theorem keepsIndex_applyOrdinary (hkey : mutation.ordinaryKey = some key) (now : WallTimestamp) :
    KeepsIndex store (store.applyOrdinary mutation key now).2 := by
  rcases hheld : store.intents[key]? with _ | intent
  · rw [applyOrdinary_of_free hkey hheld]
    rcases hstep : objectStep store.objects[key]? mutation now with ⟨outcome, entry⟩ | error | _
    · dsimp only
      have hmarked (hmarks : outcome.marksStored = true) (hsome : entry.isSome = true) :
          KeepsIndex store (noteOutcome (setEntry store key entry) mutation key outcome) := by
        refine .of_setEntry (noteOutcome_objects ..) ?_
        rw [noteOutcome_of_marks hmarks, hsome]
        simp [noteStored]
      cases entryStep_of_ok hstep with
      | deleted => exact .of_setEntry (noteOutcome_objects ..) rfl
      | absent =>
        rw [setEntry_self]
        exact .refl store
      | idle hlive => exact hmarked rfl (by rw [(liveObject_eq_some_iff.mp hlive).1]; rfl)
      | written _ hwrites => cases hwrites <;> exact hmarked rfl rfl
    · exact .refl store
    · exact .refl store
  · rw [applyOrdinary_of_reserved hheld]
    exact .refl store

theorem keepsIndex_applyTxnPrepare (txn : TxnId) (coordinator : TabletId) (write : TxnWrite)
    (digest : Digest) (now : WallTimestamp) :
    KeepsIndex store (store.applyTxnPrepare txn coordinator write digest now).2 := by
  unfold applyTxnPrepare
  split
  · exact .refl store
  · dsimp only
    split
    · exact .refl store
    · split
      · exact .refl store
      · exact .of_eq rfl rfl

theorem keepsIndex_applyTxnFinalize (txn : TxnId) (key : Key) (commit : Bool) (write : TxnWrite)
    (digest : Digest) (now : WallTimestamp) :
    KeepsIndex store (store.applyTxnFinalize txn key commit write digest now).2 := by
  have hdropped : KeepsIndex store (store.eraseIntent key) := .of_eq rfl rfl
  have hwritten := hdropped.trans (keepsIndex_applyOrdinary (store.eraseIntent key)
    (localCommitMutation_ordinaryKey key write.kind) now)
  unfold applyTxnFinalize
  dsimp only
  split
  · exact hdropped
  · split
    · exact hdropped
    · split
      next hcalled => exact hwritten.of_answer hcalled
      next => exact hwritten

theorem keepsIndex_applyPlanned (items : List (Key × TxnWrite)) (now : WallTimestamp)
    (results : ExtTreeMap Key OperationResult) :
    KeepsIndex store (applyPlanned now (items.map plannedWrite) store results).2 := by
  induction items generalizing store results with
  | nil => exact .refl store
  | cons item rest ih =>
    have hwritten := keepsIndex_applyOrdinary store
      (localCommitMutation_ordinaryKey item.1 item.2.kind) now
    simp only [List.map_cons, plannedWrite, applyPlanned]
    split
    next hcalled => exact hwritten.of_answer hcalled
    next hcalled => exact hwritten.of_answer hcalled
    next hcalled =>
      split
      · exact hwritten.of_answer hcalled
      · exact (hwritten.of_answer hcalled).trans (ih _ _)

theorem keepsIndex_commitLocal (writes : List TxnWrite) (now : WallTimestamp) :
    KeepsIndex store (store.commitLocal writes now).2 := by
  unfold commitLocal
  dsimp only
  split
  · exact .refl store
  · split
    · exact .refl store
    next planned hplan =>
      obtain ⟨rfl, -⟩ := planLocal_ok hplan
      have happlied := store.keepsIndex_applyPlanned (collapse writes).toList now ∅
      split
      · exact .refl store
      · exact .refl store
      · split
        · exact .refl store
        · split
          · exact .refl store
          · split
            next hcalled => exact happlied.of_answer hcalled
            next hcalled => exact happlied.of_answer hcalled
            next hcalled =>
              split
              · exact happlied.of_answer hcalled
              · exact happlied.of_answer hcalled

/-- Every apply keeps the index right, whatever it answers. -/
theorem keepsIndex_apply (mutation : Mutation) (now : WallTimestamp) :
    KeepsIndex store (store.apply mutation now).2 := by
  rcases hkey : mutation.ordinaryKey with _ | key
  · cases mutation with
    | txnPrepare txn coordinator key expect write digest =>
      exact store.keepsIndex_applyTxnPrepare txn coordinator ⟨key, write, expect⟩ digest now
    | txnFinalize txn key commit write digest =>
      exact store.keepsIndex_applyTxnFinalize txn key commit write digest now
    | txnCommitLocal txn writes =>
      have hcommit := store.keepsIndex_commitLocal writes now
      change KeepsIndex store (store.applyLocalCommit writes now).2
      unfold applyLocalCommit
      split
      all_goals
        next hcalled => exact hcommit.of_answer hcalled
    | _ => cases hkey
  · rw [apply_of_ordinary hkey]
    exact store.keepsIndex_applyOrdinary hkey now

theorem keepsIndex_run (steps : List Timed) : KeepsIndex store (run applyStep store steps) :=
  run_invariant (P := KeepsIndex store)
    (fun reached timed h ↦ h.trans (reached.keepsIndex_apply timed.1 timed.2)) (.refl store) steps

/-! ### The other changes -/

theorem keepsIndex_putStored (key : Key) (object : StoredObject) :
    KeepsIndex store (store.putStored key object) :=
  have hobjects : (store.putStored key object).objects =
      (store.setEntry key (some object)).objects := rfl
  .of_setEntry hobjects rfl

theorem keepsIndex_removeStored (key : Key) : KeepsIndex store (store.removeStored key) :=
  have hobjects : (store.removeStored key).objects = (store.setEntry key none).objects := rfl
  .of_setEntry hobjects rfl

theorem mirrors_rebuildOrderedIndex : store.rebuildOrderedIndex.Mirrors := by
  intro index hindex key
  cases hindex
  rw [ExtTreeSet.mem_ofList, List.contains_iff_mem, ExtTreeMap.mem_keys]
  rfl

/-- Staging objects and reservations keeps an index, or the lack of one. -/
theorem foldl_putStored_isSome (objects : List (Key × StoredObject)) :
    (objects.foldl (fun store entry ↦ store.putStored entry.1 entry.2) store).ordered.isSome =
      store.ordered.isSome := by
  induction objects generalizing store with
  | nil => rfl
  | cons entry rest ih => exact (ih _).trans (store.keepsIndex_putStored entry.1 entry.2).enabled

theorem foldl_insertIntent_ordered (intents : List TxnIntent) :
    (intents.foldl insertIntent store).ordered = store.ordered := by
  induction intents generalizing store with
  | nil => rfl
  | cons intent rest ih => exact ih _

end

variable (objects : List (Key × StoredObject)) (intents : List TxnIntent)

theorem installDecoded_ordered :
    (installDecoded objects intents false).ordered = none := by
  change (intents.foldl insertIntent _).ordered = none
  rw [foldl_insertIntent_ordered, ← Option.isNone_iff_eq_none, ← Option.not_isSome,
    foldl_putStored_isSome]
  rfl

/-- Staged objects are inserted one after the other. -/
theorem foldl_putStored (store : ObjectStore) (objects : List (Key × StoredObject)) :
    let staged := objects.foldl (fun store entry ↦ store.putStored entry.1 entry.2) store
    staged.objects = objects.foldl (fun map entry ↦ map.insert entry.1 entry.2) store.objects ∧
      staged.intents = store.intents := by
  induction objects generalizing store with
  | nil => exact ⟨rfl, rfl⟩
  | cons entry rest ih => exact ih _

theorem foldl_insertIntent (store : ObjectStore) (intents : List TxnIntent) :
    let staged := intents.foldl insertIntent store
    staged.objects = store.objects ∧
      staged.intents =
        intents.foldl (fun map intent ↦ map.insert intent.key intent) store.intents := by
  induction intents generalizing store with
  | nil => exact ⟨rfl, rfl⟩
  | cons intent rest ih => exact ih _

/-- What a decoded snapshot installs, beside the index. -/
theorem installDecoded_maps
    (orderedIndex : Bool) :
    (installDecoded objects intents orderedIndex).objects =
        objects.foldl (fun map entry ↦ map.insert entry.1 entry.2) ∅ ∧
      (installDecoded objects intents orderedIndex).intents =
        intents.foldl (fun map intent ↦ map.insert intent.key intent) ∅ := by
  have hobjects := foldl_putStored .new objects
  have hintents := foldl_insertIntent
    (objects.foldl (fun store entry ↦ store.putStored entry.1 entry.2) .new) intents
  have hboth := And.intro (hintents.1.trans hobjects.1)
    (hintents.2.trans (congrArg (fun map ↦ intents.foldl _ map) hobjects.2))
  cases orderedIndex <;> exact hboth

/-- A store whose index is right is installed again from its own entries and reservations. -/
theorem installDecoded_self {store : ObjectStore} (hmirrors : store.Mirrors)
    (hfiled : ∀ (key : Key) (held : TxnIntent), store.intents[key]? = some held →
      held.key = key) :
    installDecoded store.objects.toList (store.intents.toList.map Prod.snd) store.ordered.isSome =
      store := by
  set installed := installDecoded store.objects.toList (store.intents.toList.map Prod.snd)
    store.ordered.isSome with hinstalled
  obtain ⟨hobjects, hintents⟩ := installDecoded_maps store.objects.toList
    (store.intents.toList.map Prod.snd) store.ordered.isSome
  rw [LastWins.foldl_insert_toList] at hobjects
  have hheld : installed.intents = store.intents := by
    refine hintents.trans (LastWins.foldl_insert_eq fun key held ↦ ?_)
    rw [← ExtTreeMap.mem_toList_iff_getElem?_eq_some]
    constructor
    · intro hmem
      refine ⟨held, List.mem_map_of_mem hmem, ?_, rfl⟩
      exact hfiled key held (ExtTreeMap.mem_toList_iff_getElem?_eq_some.mp hmem)
    · rintro ⟨other, hmem, hkey, rfl⟩
      obtain ⟨⟨filed, intent⟩, hentry, rfl⟩ := List.mem_map.mp hmem
      have hsame := hfiled filed intent (ExtTreeMap.mem_toList_iff_getElem?_eq_some.mp hentry)
      rwa [← hkey, hsame]
  have hordered : installed.ordered = store.ordered := by
    rcases hindex : store.ordered with _ | index
    · rw [hinstalled, hindex]
      exact installDecoded_ordered _ _
    · -- The rebuilt index holds the restored keys, which are those of the old one.
      have hrebuilt : installed.ordered = some (ExtTreeSet.ofList installed.objects.keys) := by
        rw [hinstalled, hindex]
        rfl
      rw [hrebuilt, hobjects]
      refine congrArg some (ExtTreeSet.ext_mem fun key ↦ ?_)
      rw [ExtTreeSet.mem_ofList, List.contains_iff_mem, ExtTreeMap.mem_keys]
      exact (hmirrors index hindex key).symm
  exact ext_entries (fun key ↦ by rw [hobjects]) hordered hheld

end ObjectStore

/-- Everything that changes a store: the events of its tablet, and the paths that stage or
restore entries and reservations directly. -/
inductive StoreChange where
  | tablet (event : StoreEvent)
  | putStored (key : Key) (object : StoredObject)
  | removeStored (key : Key)
  | stageIntentForKey (key : Key) (intent : Option TxnIntent)
  | restoreIntent (intent : TxnIntent)
  | installDecoded (objects : List (Key × StoredObject)) (intents : List TxnIntent)
      (orderedIndex : Bool)

namespace StoreChange

def step (store : ObjectStore) : StoreChange → ObjectStore
  | tablet event => event.step store
  | putStored key object => store.putStored key object
  | removeStored key => store.removeStored key
  | stageIntentForKey key intent => store.stageIntentForKey key intent
  | restoreIntent intent => store.insertIntent intent
  | installDecoded objects intents orderedIndex =>
    ObjectStore.installDecoded objects intents orderedIndex

/-- Whether the index is kept after the change: as before, unless the change itself says. -/
def indexing (store : ObjectStore) : StoreChange → Bool
  | tablet (.setOrderedIndexing enabled) => enabled
  | installDecoded _ _ orderedIndex => orderedIndex
  | _ => store.ordered.isSome

end StoreChange

open ObjectStore in
theorem StoreEvent.keepsIndex (store : ObjectStore) {event : StoreEvent}
    (h : ∀ enabled, event ≠ .setOrderedIndexing enabled) : KeepsIndex store (event.step store) := by
  obtain ⟨enabled, rfl⟩ | ⟨steps, -, hrun⟩ := event.step_eq_run store
  · exact absurd rfl (h enabled)
  · rw [hrun]
    exact store.keepsIndex_run steps

open ObjectStore in
/-- Whatever changes a store whose index holds exactly the stored keys leaves such an index, and
keeps it where the change does not itself switch it. -/
theorem StoreChange.index_mirrors {store : ObjectStore} (h : store.Mirrors)
    (change : StoreChange) :
    (change.step store).Mirrors ∧ (change.step store).ordered.isSome = change.indexing store := by
  -- All but the switches and the snapshot keep the index they find.
  have hkeeps {after : ObjectStore} (hkept : KeepsIndex store after) :
      after.Mirrors ∧ after.ordered.isSome = store.ordered.isSome :=
    ⟨hkept.mirrors h, hkept.enabled⟩
  have hempty {after : ObjectStore} (hnone : after.ordered = none) :
      after.Mirrors ∧ after.ordered.isSome = false := by
    constructor
    · intro index hindex
      cases hnone.symm.trans hindex
    · rw [hnone]
      rfl
  cases change with
  | tablet event =>
    by_cases hswitch : ∃ enabled, event = .setOrderedIndexing enabled
    · obtain ⟨enabled, rfl⟩ := hswitch
      cases enabled with
      | false => exact hempty rfl
      | true => exact ⟨store.mirrors_rebuildOrderedIndex, rfl⟩
    · have hother := StoreEvent.keepsIndex store (not_exists.mp hswitch)
      cases event with
      | setOrderedIndexing enabled => exact absurd ⟨enabled, rfl⟩ hswitch
      | _ => exact hkeeps hother
  | putStored key object => exact hkeeps (store.keepsIndex_putStored key object)
  | removeStored key => exact hkeeps (store.keepsIndex_removeStored key)
  | stageIntentForKey key intent => cases intent <;> exact hkeeps (.of_eq rfl rfl)
  | restoreIntent intent => exact hkeeps (.of_eq rfl rfl)
  | installDecoded objects intents orderedIndex =>
    cases orderedIndex with
    | false => exact hempty (installDecoded_ordered objects intents)
    | true => exact ⟨mirrors_rebuildOrderedIndex _, rfl⟩

/-- A delete beside an object that has expired: the expired key stays in the index. -/
theorem StoreChange.index_mirrors_delete :
    let written := run applyStep ObjectStore.new
      [(.putBytes [1] [7], ⟨0⟩), (.putBytesWithExpiry [2] [8] (.expiresAt ⟨5⟩), ⟨1⟩)]
    let store := written.rebuildOrderedIndex
    let deleted := StoreChange.step store (.tablet (.apply (.delete [1]) ⟨9⟩))
    store.Mirrors ∧ deleted.Mirrors ∧
      deleted.ordered.map ExtTreeSet.toList = some [[2]] :=
  have hmirrors := ObjectStore.mirrors_rebuildOrderedIndex _
  ⟨hmirrors, (StoreChange.index_mirrors hmirrors _).1, by decide⟩

open ObjectStore in
/-- The index of every reachable store is right. -/
theorem ReachableStore.mirrors {store : ObjectStore} (h : ReachableStore store) :
    store.Mirrors := by
  refine Reachable.invariant (P := ObjectStore.Mirrors) ?_ ?_ h
  · intro index hindex
    cases hindex
  · intro reached event hmirrors
    by_cases hswitch : ∃ enabled, event = .setOrderedIndexing enabled
    · obtain ⟨enabled, rfl⟩ := hswitch
      cases enabled with
      | false => exact fun _ hindex ↦ nomatch hindex
      | true => exact reached.mirrors_rebuildOrderedIndex
    · exact (StoreEvent.keepsIndex reached (not_exists.mp hswitch)).mirrors hmirrors

/-- The source's check by size and lookup is the mirror. -/
theorem ObjectStore.verifyOrderedIndex_iff (store : ObjectStore) :
    store.verifyOrderedIndex = true ↔ store.Mirrors := by
  unfold ObjectStore.verifyOrderedIndex ObjectStore.Mirrors
  rcases store.ordered with _ | index
  · simp
  · -- Both key lists are free of repetitions, so size and inclusion settle them.
    have hnodup : index.toList.Nodup := ExtTreeSet.distinct_toList.imp fun h heq ↦
      h (Std.compare_eq_iff_eq.mpr heq)
    have hkeys : store.objects.keys.Nodup := ExtTreeMap.nodup_keys
    simp only [Bool.and_eq_true, beq_iff_eq, List.all_eq_true, Option.some.injEq, forall_eq',
      ← ExtTreeSet.length_toList, ← ExtTreeMap.length_keys, ← ExtTreeSet.mem_toList,
      ← ExtTreeMap.mem_keys, ExtTreeMap.contains_iff_mem]
    constructor
    · rintro ⟨hsize, hsubset⟩
      have hperm := (hnodup.subperm hsubset).perm_of_length_le hsize.ge
      exact fun key ↦ hperm.mem_iff
    · intro hsame
      have hperm := (List.perm_ext_iff_of_nodup hnodup hkeys).mpr hsame
      exact ⟨hperm.length_eq, fun key hmem ↦ (hsame key).mp hmem⟩

end Kivi.State
