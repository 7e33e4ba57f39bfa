import Kivi.State.EntrySteps

/-!
# Local commits are atomic

An ordinary mutation on an unreserved key is one step of that key's machine
(`applyOrdinary_of_free`). A local commit either fails before its first
write and leaves the store as it was, or makes one step on each of its keys, with the last write
of that key, and leaves every other key alone (`commitLocal_cases`). Since those writes have
different keys, they leave the same store in any order (`commitLocal_lastWins`). Which of the two
happens depends on the touched keys only (`validateLocal_congr`).
-/

namespace Kivi.State

open Library

namespace ObjectStore

/-! ### Ordinary mutations -/

@[simp] theorem noteStored_objects (store : ObjectStore) (key : Key) :
    (store.noteStored key).objects = store.objects := rfl

@[simp] theorem noteStored_intents (store : ObjectStore) (key : Key) :
    (store.noteStored key).intents = store.intents := rfl

@[simp] theorem noteOutcome_objects (store : ObjectStore) (mutation : Mutation) (key : Key)
    (outcome : ApplyOutcome) :
    (store.noteOutcome mutation key outcome).objects = store.objects := by
  unfold noteOutcome
  split <;> try rfl
  split <;> rfl

@[simp] theorem noteOutcome_intents (store : ObjectStore) (mutation : Mutation) (key : Key)
    (outcome : ApplyOutcome) :
    (store.noteOutcome mutation key outcome).intents = store.intents := by
  unfold noteOutcome
  split <;> try rfl
  split <;> rfl

theorem contains_intents_eq_false_iff {store : ObjectStore} {key : Key} :
    store.intents.contains key = false ↔ store.intents[key]? = none := by
  rw [← Std.ExtTreeMap.isSome_getElem?_eq_contains, Option.isSome_eq_false_iff,
    Option.isNone_iff_eq_none]

variable {store : ObjectStore} {mutation : Mutation} {key : Key} {now : WallTimestamp}

theorem applyOrdinary_of_reserved {intent : TxnIntent} (hheld : store.intents[key]? = some intent) :
    store.applyOrdinary mutation key now = (.err .txnDiverged, store) := by
  have hcontains : store.intents.contains key = true := by
    rw [← Std.ExtTreeMap.isSome_getElem?_eq_contains, hheld]
    rfl
  rw [applyOrdinary, if_pos hcontains]

theorem applyOrdinary_of_free (hkey : mutation.ordinaryKey = some key)
    (hfree : store.intents[key]? = none) :
    store.applyOrdinary mutation key now =
      match objectStep store.objects[key]? mutation now with
      | .ok (outcome, entry) =>
        (.ok outcome, (store.setEntry key entry).noteOutcome mutation key outcome)
      | .err error => (.err error, store)
      | .panic => (.panic, store) := by
  have hcontains : ¬ store.intents.contains key = true := by
    simp [contains_intents_eq_false_iff.mpr hfree]
  rw [applyOrdinary, if_neg hcontains, applyInner_eq store key now hkey]
  rcases objectStep store.objects[key]? mutation now with ⟨outcome, entry⟩ | error | _ <;> rfl

/-- An ordinary mutation touches no reservation. -/
theorem applyOrdinary_intents (hkey : mutation.ordinaryKey = some key) :
    (store.applyOrdinary mutation key now).2.intents = store.intents := by
  cases hheld : store.intents[key]? with
  | some intent => rw [applyOrdinary_of_reserved hheld]
  | none =>
    rw [applyOrdinary_of_free hkey hheld]
    rcases objectStep store.objects[key]? mutation now with ⟨outcome, entry⟩ | error | _ <;> simp

/-- An ordinary mutation touches no entry but its key's. -/
theorem applyOrdinary_objects_of_ne (hkey : mutation.ordinaryKey = some key) {other : Key}
    (hne : other ≠ key) :
    (store.applyOrdinary mutation key now).2.objects[other]? = store.objects[other]? := by
  cases hheld : store.intents[key]? with
  | some intent => rw [applyOrdinary_of_reserved hheld]
  | none =>
    rw [applyOrdinary_of_free hkey hheld]
    rcases objectStep store.objects[key]? mutation now with ⟨outcome, entry⟩ | error | _ <;>
      simp [getElem?_setEntry, hne]

@[simp] theorem localCommitMutation_ordinaryKey (key : Key) (kind : TxnWriteKind) :
    (localCommitMutation key kind).ordinaryKey = some key := by
  cases kind <;> rfl

theorem apply_localCommitMutation (store : ObjectStore) (key : Key) (kind : TxnWriteKind) :
    store.apply (localCommitMutation key kind) now =
      store.applyOrdinary (localCommitMutation key kind) key now := by
  cases kind <;> rfl

/-- Make `entry` the entry of `key`, in the index as well. -/
def place (store : ObjectStore) (key : Key) (entry : Option StoredObject) : ObjectStore :=
  { store.setEntry key entry with
    ordered := store.ordered.map fun index ↦
      if entry.isSome then index.insert key else index.erase key }

variable {entry : Option StoredObject} {kind : TxnWriteKind}

@[simp] theorem place_intents : (store.place key entry).intents = store.intents :=
  setEntry_intents ..

theorem getElem?_place (other : Key) : (store.place key entry).objects[other]? =
    if other = key then entry else store.objects[other]? := getElem?_setEntry ..

theorem place_comm {first second : Key} (hne : first ≠ second) (entry' : Option StoredObject) :
    (store.place first entry).place second entry' =
      (store.place second entry').place first entry := by
  refine ext_entries (fun key ↦ ?_) ?_ (by simp)
  · simp only [getElem?_place]
    grind
  · simp only [place, Option.map_map]
    congr 1
    funext index
    refine Std.ExtTreeSet.ext_mem fun key ↦ ?_
    have hcompare : compare first second ≠ .eq := fun h ↦ hne (Std.compare_eq_iff_eq.mp h)
    have hcompare' : compare second first ≠ .eq := fun h ↦ hne (Std.compare_eq_iff_eq.mp h).symm
    simp only [Function.comp_apply]
    split_ifs <;> simp only [Std.ExtTreeSet.mem_insert, Std.ExtTreeSet.mem_erase] <;> grind

/-- A transactional write is one step of its key's machine, placed in the store. -/
theorem applyOrdinary_localCommit {outcome : ApplyOutcome} (hfree : store.intents[key]? = none)
    (hstep : objectStep store.objects[key]? (localCommitMutation key kind) now =
      .ok (outcome, entry)) :
    store.applyOrdinary (localCommitMutation key kind) key now =
      (.ok outcome, store.place key entry) := by
  rw [applyOrdinary_of_free (localCommitMutation_ordinaryKey key kind) hfree, hstep]
  generalize hwrite : localCommitMutation key kind = mutation at hstep
  cases entryStep_of_ok hstep with
  | deleted => rfl
  | absent | idle => cases kind <;> cases hwrite
  | written _ hwrites => cases hwrites <;> rfl

/-! ### Validation of a write set -/

/-- The planned mutation of one collapsed write. -/
def plannedWrite (item : Key × TxnWrite) : Key × Mutation :=
  (item.1, localCommitMutation item.1 item.2.kind)

/-- A plan is made only if every write passes its checks. -/
theorem planLocal_ok {items : List (Key × TxnWrite)} {planned : List (Key × Mutation)}
    (h : planLocal store now items = .ok planned) :
    planned = items.map plannedWrite ∧
      ∀ item ∈ items, checkTxnExpectation item.2.expect (store.get item.1 now) = .ok () ∧
        checkTxnWritable item.2.kind (store.get item.1 now) = .ok () := by
  induction items generalizing planned with
  | nil =>
    cases h
    exact ⟨rfl, by simp⟩
  | cons item rest ih =>
    obtain ⟨key, write⟩ := item
    simp only [planLocal] at h
    split at h
    · cases h
    next hmet =>
    split at h
    · cases h
    next hwritable =>
    split at h
    · cases h
    next planned' hrest =>
    cases h
    obtain ⟨rfl, hall⟩ := ih hrest
    exact ⟨rfl, List.forall_mem_cons.mpr ⟨⟨hmet, hwritable⟩, hall⟩⟩

/-- The width a share move finds. -/
def heldWidth (entry : Option StoredObject) : TxnWriteKind → Int
  | .escrowSetShare _ _ => entryWidth entry
  | _ => 0

/-- The width a share move asks for. -/
def moveWidth : TxnWriteKind → Int
  | .escrowSetShare min max => shareWidth (min, max)
  | _ => 0

/-- After validation every share move is on a live bounded counter. -/
theorem sharesBefore_eq (items : List (Key × TxnWrite))
    (hwritable : ∀ item ∈ items, checkTxnWritable item.2.kind (store.get item.1 now) = .ok ()) :
    sharesBefore store now (items.map plannedWrite) =
      .ok (items.map fun item ↦ heldWidth store.objects[item.1]? item.2.kind).sum := by
  induction items with
  | nil => rfl
  | cons item rest ih =>
    have hrest := ih fun other h ↦ hwritable other (List.mem_cons_of_mem _ h)
    have hitem := hwritable item List.mem_cons_self
    obtain ⟨key, ⟨wkey, kind, expect⟩⟩ := item
    cases kind with
    | escrowSetShare min max =>
      simp only [checkTxnWritable] at hitem
      simp only [List.map_cons, plannedWrite, localCommitMutation, sharesBefore]
      cases hlive : store.get key now with
      | none => simp [hlive] at hitem
      | some current =>
        have hstored : store.objects[key]? = some current := (liveObject_eq_some_iff.mp hlive).1
        cases hvalue : current.value <;> simp [hlive, hvalue] at hitem
        simp [hvalue, hrest, hstored, heldWidth, entryWidth]
    | _ => simpa [plannedWrite, localCommitMutation, sharesBefore, heldWidth] using hrest

theorem sharesAfter_eq (items : List (Key × TxnWrite)) :
    sharesAfter (items.map plannedWrite) = (items.map fun item ↦ moveWidth item.2.kind).sum := by
  induction items with
  | nil => rfl
  | cons item rest ih =>
    obtain ⟨key, ⟨wkey, kind, expect⟩⟩ := item
    cases kind <;> simp [plannedWrite, localCommitMutation, sharesAfter, moveWidth, ih]

theorem versionsAdvance_iff (items : List (Key × TxnWrite)) :
    versionsAdvance store now (items.map plannedWrite) = true ↔
      ∀ item ∈ items, item.2.kind = .delete ∨
        (entryNextVersion store.objects[item.1]? now).isSome = true := by
  simp only [versionsAdvance, List.all_map, List.all_eq_true, Function.comp_apply]
  refine forall₂_congr fun item _ ↦ ?_
  obtain ⟨key, ⟨wkey, kind, expect⟩⟩ := item
  cases kind <;> simp [plannedWrite, localCommitMutation, nextVersion_eq]

/-! ### Application of a validated write set -/

/-- The entry a write makes of the one it finds in `base`. -/
def written (base : ObjectStore) (now : WallTimestamp) (item : Key × TxnWrite) :
    Option StoredObject :=
  match objectStep base.objects[item.1]? (plannedWrite item).2 now with
  | .ok (_, entry) => entry
  | _ => none

def placeWritten (base : ObjectStore) (now : WallTimestamp) (store : ObjectStore)
    (item : Key × TxnWrite) : ObjectStore := store.place item.1 (written base now item)

variable {base : ObjectStore}

/-- Applying validated writes on distinct unreserved keys succeeds and makes one step on each of
those keys. The induction goes through the plan; a step changes its own key only, so the remaining
writes find what `base` has. -/
theorem applyPlanned_ok (items : List (Key × TxnWrite))
    (hdistinct : items.Pairwise fun a b ↦ a.1 ≠ b.1)
    (results : Std.ExtTreeMap Key OperationResult)
    (hready : ∀ item ∈ items, store.intents[item.1]? = none ∧
      store.objects[item.1]? = base.objects[item.1]? ∧
        WriteReady item.2.kind base.objects[item.1]? now) :
    let after := items.foldl (placeWritten base now) store
    applyAll now (items.map fun item ↦ (plannedWrite item).2) store = (true, after) ∧
      ∃ results', applyPlanned now (items.map plannedWrite) store results = (.ok results', after) ∧
        ∀ key, key ∈ results ∨ (∃ item ∈ items, item.1 = key) → key ∈ results' := by
  induction items generalizing store results with
  | nil => exact ⟨rfl, results, rfl, by simp⟩
  | cons item rest ih =>
    obtain ⟨hfirst, hrest⟩ := List.pairwise_cons.mp hdistinct
    obtain ⟨hfree, hsame, hwrite⟩ := hready item List.mem_cons_self
    obtain ⟨-, outcome, entry, hstep⟩ | ⟨hnot, -⟩ :=
      localCommit_step_cases item.1 item.2.kind base.objects[item.1]? now
    swap
    · exact absurd hwrite hnot
    obtain ⟨result, hresult⟩ := Option.isSome_iff_exists.mp (localCommit_step_ok hstep).2
    have hentry : written base now item = entry := by rw [written, plannedWrite, hstep]
    rw [← hsame] at hstep
    obtain ⟨hall, results', hplanned, hkeys⟩ :=
      @ih (store.place item.1 entry) hrest (results.insert item.1 result) fun other hmem ↦ by
        rw [place_intents, getElem?_place, if_neg (hfirst other hmem).symm]
        exact hready other (List.mem_cons_of_mem _ hmem)
    simp only [List.map_cons, List.foldl_cons, placeWritten, hentry, applyAll, applyPlanned,
      plannedWrite, apply_localCommitMutation, applyOrdinary_localCommit hfree hstep, hresult]
    refine ⟨hall, results', hplanned, fun key hkey ↦ hkeys key ?_⟩
    rw [Std.ExtTreeMap.mem_insert, Std.compare_eq_iff_eq]
    grind

theorem foldl_placeWritten_intents (items : List (Key × TxnWrite)) (store : ObjectStore) :
    (items.foldl (placeWritten base now) store).intents = store.intents := by
  induction items generalizing store with
  | nil => rfl
  | cons item rest ih => rw [List.foldl_cons, ih, placeWritten, place_intents]

theorem foldl_placeWritten_objects (items : List (Key × TxnWrite))
    (hdistinct : items.Pairwise fun a b ↦ a.1 ≠ b.1) (store : ObjectStore) :
    (∀ item ∈ items, (items.foldl (placeWritten base now) store).objects[item.1]? =
      written base now item) ∧
    ∀ other, (∀ item ∈ items, item.1 ≠ other) →
      (items.foldl (placeWritten base now) store).objects[other]? = store.objects[other]? := by
  induction items generalizing store with
  | nil => exact ⟨by simp, fun _ _ ↦ rfl⟩
  | cons item rest ih =>
    obtain ⟨hfirst, hrest⟩ := List.pairwise_cons.mp hdistinct
    obtain ⟨hinside, houtside⟩ := ih hrest (placeWritten base now store item)
    refine ⟨List.forall_mem_cons.mpr ⟨?_, hinside⟩, fun other hother ↦ ?_⟩
    · rw [List.foldl_cons, houtside item.1 fun other hmem ↦ (hfirst other hmem).symm, placeWritten,
        getElem?_place, if_pos rfl]
    · obtain ⟨hne, hothers⟩ := List.forall_mem_cons.mp hother
      rw [List.foldl_cons, houtside other hothers, placeWritten, getElem?_place, if_neg hne.symm]

/-! ### Commit of a write set -/

/-- The collapsed writes, one per key, in key order. -/
theorem collapse_distinct (writes : List TxnWrite) :
    (collapse writes).toList.Pairwise fun a b ↦ a.1 ≠ b.1 :=
  Std.ExtTreeMap.distinct_keys_toList.imp fun h heq ↦
    h (Std.LawfulEqCmp.compare_eq_iff_eq.mpr heq)

variable {writes : List TxnWrite}

theorem mem_collapse_toList (item : Key × TxnWrite) :
    item ∈ (collapse writes).toList ↔ (collapse writes)[item.1]? = some item.2 :=
  Std.ExtTreeMap.mem_toList_iff_getElem?_eq_some

theorem collapse_mem {key : Key} {write : TxnWrite} (h : (collapse writes)[key]? = some write) :
    write ∈ writes ∧ write.key = key :=
  LastWins.mem_of_getElem?_lastWins h

/-- What a local commit does when it succeeds: one step on each of its keys. -/
def LocalEffect (store : ObjectStore) (writes : List TxnWrite) (now : WallTimestamp)
    (after : ObjectStore) : Prop :=
  after.intents = store.intents ∧
    ∀ key : Key, match (collapse writes)[key]? with
      | none => after.objects[key]? = store.objects[key]?
      | some write => store.intents[key]? = none ∧
        ∃ outcome, objectStep store.objects[key]? (localCommitMutation key write.kind) now =
          .ok (outcome, after.objects[key]?)

/-- The verdict of a local commit before anything is applied. -/
def validateLocal (store : ObjectStore) (writes : List TxnWrite) (now : WallTimestamp) :
    Result LocalCommitError Unit :=
  let collapsed := collapse writes
  if collapsed.keys.any (store.intents.contains ·) then .err (.validation .txnConflict)
  else match planLocal store now collapsed.toList with
  | .error error => .err (.validation error)
  | .ok planned =>
    match sharesBefore store now planned with
    | .panic => .panic
    | .err error => .err (.validation error)
    | .ok before =>
      if before ≠ sharesAfter planned then .err (.validation .boundedExceeded)
      else if !versionsAdvance store now planned then .err .exhausted
      else .ok ()

/-- Looking up every item succeeds when each lookup does. -/
theorem mapM_of_forall {α β : Type} {f : α → Option β} {items : List α}
    (h : ∀ item ∈ items, ∃ value, f item = some value) : ∃ values, items.mapM f = some values := by
  induction items with
  | nil => exact ⟨[], rfl⟩
  | cons item rest ih =>
    obtain ⟨value, hvalue⟩ := h item List.mem_cons_self
    obtain ⟨values, hvalues⟩ := ih fun other hmem ↦ h other (List.mem_cons_of_mem _ hmem)
    exact ⟨value :: values, by simp [List.mapM_cons, hvalue, hvalues]⟩

theorem keys_any_eq_false {store : ObjectStore}
    (h : ¬ (collapse writes).keys.any (store.intents.contains ·) = true) :
    ∀ item ∈ (collapse writes).toList, store.intents[item.1]? = none := by
  intro item hmem
  have hkey : item.1 ∈ (collapse writes).keys := by
    rw [← Std.ExtTreeMap.map_fst_toList_eq_keys]
    exact List.mem_map_of_mem hmem
  simp only [List.any_eq_true, not_exists, not_and, Bool.not_eq_true] at h
  exact contains_intents_eq_false_iff.mp (h item.1 hkey)

/-- What a validated write set has passed. -/
theorem validateLocal_ok {store : ObjectStore} {now : WallTimestamp}
    (h : store.validateLocal writes now = .ok ()) :
    let planned := (collapse writes).toList.map plannedWrite
    ¬ (collapse writes).keys.any (store.intents.contains ·) = true ∧
      store.planLocal now (collapse writes).toList = .ok planned ∧
      (∀ item ∈ (collapse writes).toList,
        checkTxnWritable item.2.kind (store.get item.1 now) = .ok ()) ∧
      store.sharesBefore now planned = .ok (sharesAfter planned) ∧
      store.versionsAdvance now planned = true := by
  unfold validateLocal at h
  simp only at h
  split at h
  · cases h
  next hfree =>
  split at h
  · cases h
  next planned hplan =>
  obtain ⟨rfl, hchecks⟩ := planLocal_ok hplan
  split at h
  · cases h
  · cases h
  next before hbefore =>
  split at h
  · cases h
  next hshares =>
  split at h
  · cases h
  next hversions =>
  rw [not_not] at hshares
  exact ⟨hfree, hplan, fun item hmem ↦ (hchecks item hmem).2, hshares ▸ hbefore,
    by simpa using hversions⟩

section

variable (h : store.validateLocal writes now = .ok ())

include h

theorem ready_of_valid :
    ∀ item ∈ (collapse writes).toList, store.intents[item.1]? = none ∧
      WriteReady item.2.kind store.objects[item.1]? now := by
  obtain ⟨hfree, -, hwritable, -, hversions⟩ := validateLocal_ok h
  have hadvance := (versionsAdvance_iff _).mp hversions
  exact fun item hmem ↦
    ⟨keys_any_eq_false hfree item hmem, hwritable item hmem, hadvance item hmem⟩

/-- Once a write set is validated, its application cannot fail or panic. -/
theorem commitLocal_of_valid :
    ∃ results, store.commitLocal writes now =
      (.ok results, (collapse writes).toList.foldl (placeWritten store now) store) := by
  obtain ⟨hfree, hplan, hwritable, hshares, hversions⟩ := validateLocal_ok h
  obtain ⟨-, results, hrun, hkeys⟩ := applyPlanned_ok _ (collapse_distinct writes) ∅
    fun item hmem ↦ ⟨(ready_of_valid h item hmem).1, rfl, (ready_of_valid h item hmem).2⟩
  obtain ⟨answers, hanswers⟩ : ∃ answers,
      writes.mapM (fun write ↦ results[write.key]?) = some answers := by
    refine mapM_of_forall fun write hmem ↦ ?_
    obtain ⟨last, hlast⟩ : ∃ last, (collapse writes)[write.key]? = some last :=
      LastWins.getElem?_lastWins_isSome hmem
    have hitem := (mem_collapse_toList (write.key, last)).mpr hlast
    exact Option.isSome_iff_exists.mp
      (Std.ExtTreeMap.mem_iff_isSome_getElem?.mp (hkeys _ (.inr ⟨_, hitem, rfl⟩)))
  exact ⟨answers, by simp [commitLocal, if_neg hfree, hplan, hshares, hversions, hrun, hanswers]⟩

theorem localEffect_of_valid :
    LocalEffect store writes now
      ((collapse writes).toList.foldl (placeWritten store now) store) := by
  obtain ⟨hinside, houtside⟩ := @foldl_placeWritten_objects now store _ (collapse_distinct writes)
    store
  refine ⟨foldl_placeWritten_intents _ _, fun key ↦ ?_⟩
  split
  next hnone =>
    refine houtside key fun item hmem heq ↦ ?_
    rw [mem_collapse_toList, heq, hnone] at hmem
    cases hmem
  next write hsome =>
    have hmem := (mem_collapse_toList (key, write)).mpr hsome
    obtain ⟨hfree, hready⟩ := ready_of_valid h _ hmem
    obtain ⟨-, outcome, entry, hstep⟩ | ⟨hnot, -⟩ :=
      localCommit_step_cases key write.kind store.objects[key]? now
    · refine ⟨hfree, outcome, ?_⟩
      rw [hinside _ hmem, written, plannedWrite, hstep]
    · exact absurd hready hnot

end

/-- A write set that does not validate leaves the store as it was. -/
theorem commitLocal_of_invalid {store : ObjectStore} {now : WallTimestamp}
    {error : LocalCommitError} (h : store.validateLocal writes now = .err error) :
    store.commitLocal writes now = (.err error, store) ∧ ∀ inner, error ≠ .diverged inner := by
  unfold validateLocal at h
  unfold commitLocal
  simp only at h ⊢
  split at h
  next hheld =>
    cases h
    exact ⟨by rw [if_pos hheld], by simp⟩
  next hfree =>
    rw [if_neg hfree]
    cases hplan : store.planLocal now (collapse writes).toList with
    | error refusal =>
      rw [hplan] at h
      cases h
      exact ⟨rfl, by simp⟩
    | ok planned =>
      rw [hplan] at h
      dsimp only at h ⊢
      cases hbefore : store.sharesBefore now planned with
      | panic =>
        rw [hbefore] at h
        cases h
      | err refusal =>
        rw [hbefore] at h
        cases h
        exact ⟨rfl, by simp⟩
      | ok before =>
        rw [hbefore] at h
        dsimp only at h ⊢
        split at h
        next hshares =>
          cases h
          exact ⟨by rw [if_pos hshares], by simp⟩
        next hshares =>
          rw [if_neg hshares]
          split at h
          next hversions =>
            cases h
            exact ⟨by rw [if_pos hversions], by simp⟩
          · cases h

theorem validateLocal_ne_panic (store : ObjectStore) (writes : List TxnWrite)
    (now : WallTimestamp) : store.validateLocal writes now ≠ .panic := by
  unfold validateLocal
  simp only
  split
  · nofun
  split
  · nofun
  next planned hplan =>
  obtain ⟨rfl, hchecks⟩ := planLocal_ok hplan
  rw [sharesBefore_eq _ fun item hmem ↦ (hchecks item hmem).2]
  dsimp only
  split_ifs <;> nofun

/-- A local commit fails without effect, or succeeds with exactly its own effect. -/
theorem commitLocal_cases (store : ObjectStore) (writes : List TxnWrite) (now : WallTimestamp) :
    (∃ error, store.validateLocal writes now = .err error ∧
      store.commitLocal writes now = (.err error, store) ∧ ∀ inner, error ≠ .diverged inner) ∨
    (store.validateLocal writes now = .ok () ∧
      ∃ results after, store.commitLocal writes now = (.ok results, after) ∧
        LocalEffect store writes now after) := by
  cases h : store.validateLocal writes now with
  | ok _ =>
    obtain ⟨results, hcommit⟩ := commitLocal_of_valid h
    exact Or.inr ⟨rfl, results, _, hcommit, localEffect_of_valid h⟩
  | err error => exact Or.inl ⟨error, rfl, commitLocal_of_invalid h⟩
  | panic => exact absurd h (validateLocal_ne_panic store writes now)

/-- A local commit moves width between the counters whose shares it sets. -/
theorem heldWidth_sum_of_commitLocal {after : ObjectStore}
    (hvalid : store.validateLocal writes now = .ok ())
    (heffect : LocalEffect store writes now after) :
    ((collapse writes).toList.map fun item ↦ heldWidth after.objects[item.1]? item.2.kind).sum =
      ((collapse writes).toList.map fun item ↦
        heldWidth store.objects[item.1]? item.2.kind).sum := by
  obtain ⟨-, -, hwritable, hshares, -⟩ := validateLocal_ok hvalid
  rw [sharesBefore_eq _ hwritable, sharesAfter_eq, Result.ok.injEq] at hshares
  rw [hshares]
  refine congrArg List.sum (List.map_congr_left fun item hmem ↦ ?_)
  have hstep := heffect.2 item.1
  rw [(mem_collapse_toList item).mp hmem] at hstep
  obtain ⟨-, outcome, hstep⟩ := hstep
  cases hkind : item.2.kind with
  | escrowSetShare min max =>
    rw [hkind] at hstep
    exact entryWidth_of_setShare hstep
  | _ => rfl

/-- The last write of each key, in key order. -/
def lastWrites (writes : List TxnWrite) : List TxnWrite := (collapse writes).toList.map Prod.snd

theorem map_lastWrites (writes : List TxnWrite) :
    (lastWrites writes).map (fun write ↦ (write.key, write)) = (collapse writes).toList := by
  rw [lastWrites, List.map_map]
  refine (List.map_congr_left fun item hmem ↦ ?_).trans (List.map_id _)
  exact Prod.ext (collapse_mem ((mem_collapse_toList item).mp hmem)).2 rfl

theorem mem_lastWrites_iff (write : TxnWrite) :
    write ∈ lastWrites writes ↔ (write.key, write) ∈ (collapse writes).toList := by
  rw [← map_lastWrites, List.mem_map_of_injective fun _ _ heq ↦ (Prod.mk.inj heq).2]

/-- A local commit fails and changes nothing, or leaves what the last write of each key leaves, in
any order. Then the expectation of each of these was met before, and the shares they set are
together as wide as before. -/
theorem commitLocal_lastWins (store : ObjectStore) (writes : List TxnWrite) (now : WallTimestamp) :
    (∃ error, store.commitLocal writes now = (.err error, store) ∧
      ∀ inner, error ≠ .diverged inner) ∨
    ∃ results after, ∃ last : List TxnWrite,
      store.commitLocal writes now = (.ok results, after) ∧ (last.map TxnWrite.key).Nodup ∧
      (∀ write, write ∈ last ↔ writes.reverse.find? (·.key = write.key) = some write) ∧
      (∀ order : List TxnWrite, order.Perm last → applyAll now
        (order.map fun write ↦ localCommitMutation write.key write.kind) store = (true, after)) ∧
      (∀ write ∈ last, checkTxnExpectation write.expect (store.get write.key now) = .ok ()) ∧
      (last.map fun write ↦ heldWidth after.objects[write.key]? write.kind).sum =
        (last.map fun write ↦ heldWidth store.objects[write.key]? write.kind).sum := by
  cases hvalid : store.validateLocal writes now with
  | panic => exact absurd hvalid (validateLocal_ne_panic store writes now)
  | err error => exact Or.inl ⟨error, commitLocal_of_invalid hvalid⟩
  | ok =>
    obtain ⟨results, hcommit⟩ := commitLocal_of_valid hvalid
    refine Or.inr ⟨results, _, lastWrites writes, hcommit, ?_, fun write ↦ ?_, fun order hperm ↦ ?_,
      fun write hmem ↦ ?_, ?_⟩
    · have hkeys : (lastWrites writes).map TxnWrite.key =
          (collapse writes).toList.map Prod.fst := by
        rw [← map_lastWrites, List.map_map]
        rfl
      rw [hkeys]
      exact List.pairwise_map.mpr (collapse_distinct writes)
    · rw [mem_lastWrites_iff, mem_collapse_toList, collapse, LastWins.getElem?_lastWins]
    · have hitems := hperm.map fun write ↦ (write.key, write)
      rw [map_lastWrites] at hitems
      have hdistinct := (hitems.pairwise_iff fun hne heq ↦ hne heq.symm).mpr
        (collapse_distinct writes)
      have happlied := (applyPlanned_ok _ hdistinct ∅ fun item hmem ↦
        have hready := ready_of_valid hvalid item (hitems.mem_iff.mp hmem)
        ⟨hready.1, rfl, hready.2⟩).1
      rw [List.map_map] at happlied
      refine happlied.trans (congrArg (Prod.mk true) (Eq.symm (hitems.symm.foldl_eq' ?_ store)))
      intro first hfirst second hsecond base
      by_cases hsame : first.1 = second.1
      · rw [mem_collapse_toList] at hfirst hsecond
        rw [hsame, hsecond, Option.some.injEq] at hfirst
        rw [Prod.ext hsame hfirst.symm]
      · exact place_comm hsame _
    · obtain ⟨-, hplan, -⟩ := validateLocal_ok hvalid
      exact ((planLocal_ok hplan).2 _ ((mem_lastWrites_iff write).mp hmem)).1
    · have hwidth := heldWidth_sum_of_commitLocal hvalid (localEffect_of_valid hvalid)
      generalize (collapse writes).toList.foldl (placeWritten store now) store = after at hwidth ⊢
      rw [← map_lastWrites, List.map_map, List.map_map] at hwidth
      exact hwidth

/-- An overwritten write commits with its key although its own expectation is not met. -/
theorem overwritten_expectation_unchecked :
    let writes : List TxnWrite := [⟨[], .put [1], .version .first⟩, ⟨[], .put [2], .any⟩]
    (∃ results after, ObjectStore.new.commitLocal writes 0 = (.ok results, after)) ∧
      ∃ write ∈ writes, checkTxnExpectation write.expect (ObjectStore.new.get write.key 0) ≠
        .ok () := by
  intro writes
  have hvalid : ObjectStore.new.validateLocal writes 0 = .ok () := by decide +kernel
  obtain ⟨results, hcommit⟩ := commitLocal_of_valid hvalid
  exact ⟨⟨results, _, hcommit⟩, _, List.mem_cons_self, by decide⟩

/-! ### Only the touched keys matter -/

/-- Two stores agree on the entries and on the reservations of these keys. -/
def AgreeOn (first second : ObjectStore) (keys : List Key) : Prop :=
  ∀ key ∈ keys, first.objects[key]? = second.objects[key]? ∧
    (first.intents[key]? = none ↔ second.intents[key]? = none)

variable {first second : ObjectStore}

section

variable (items : List (Key × TxnWrite))
  (h : ∀ item ∈ items, first.objects[item.1]? = second.objects[item.1]?)

include items h

theorem planLocal_congr : planLocal first now items = planLocal second now items := by
  induction items with
  | nil => rfl
  | cons item rest ih =>
    have hitem : first.get item.1 now = second.get item.1 now := by
      rw [get_eq, get_eq, h item List.mem_cons_self]
    have hrest := ih fun other hmem ↦ h other (List.mem_cons_of_mem _ hmem)
    obtain ⟨key, write⟩ := item
    simp only [planLocal, hitem, hrest]

theorem versionsAdvance_congr :
    versionsAdvance first now (items.map plannedWrite) =
      versionsAdvance second now (items.map plannedWrite) := by
  rw [Bool.eq_iff_iff, versionsAdvance_iff, versionsAdvance_iff]
  exact forall₂_congr fun item hmem ↦ by rw [h item hmem]

end

theorem any_congr {keys : List Key} (h : AgreeOn first second keys) :
    keys.any (first.intents.contains ·) = keys.any (second.intents.contains ·) := by
  rw [Bool.eq_iff_iff, List.any_eq_true, List.any_eq_true]
  refine exists_congr fun key ↦ and_congr_right fun hmem ↦ ?_
  have hfree := (h key hmem).2
  rw [← contains_intents_eq_false_iff, ← contains_intents_eq_false_iff] at hfree
  rw [← Bool.not_eq_false, ← Bool.not_eq_false, not_iff_not]
  exact hfree

/-- The verdict of a local commit depends on the touched keys only. -/
theorem validateLocal_congr (h : AgreeOn first second (collapse writes).keys) :
    first.validateLocal writes now = second.validateLocal writes now := by
  have hobjects : ∀ item ∈ (collapse writes).toList,
      first.objects[item.1]? = second.objects[item.1]? := fun item hmem ↦ by
    refine (h item.1 ?_).1
    rw [← Std.ExtTreeMap.map_fst_toList_eq_keys]
    exact List.mem_map_of_mem hmem
  unfold validateLocal
  simp only [any_congr h, planLocal_congr _ hobjects]
  split
  · rfl
  split
  · rfl
  next planned hplan =>
  obtain ⟨rfl, hchecks⟩ := planLocal_ok hplan
  have hwritable := fun item hmem ↦ (hchecks item hmem).2
  have hfirst : ∀ item ∈ (collapse writes).toList,
      checkTxnWritable item.2.kind (first.get item.1 now) = .ok () := fun item hmem ↦ by
    rw [get_eq, hobjects item hmem]
    exact hwritable item hmem
  have hheld := List.map_congr_left fun item hmem ↦
    congrArg (heldWidth · item.2.kind) (hobjects item hmem)
  rw [sharesBefore_eq _ hfirst, sharesBefore_eq _ hwritable, hheld,
    versionsAdvance_congr _ hobjects]

end ObjectStore

end Kivi.State
