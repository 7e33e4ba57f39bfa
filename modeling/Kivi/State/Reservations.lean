import Kivi.State.Cells

/-!
# Reservations

A prepare reserves a key and a finalize ends the reservation. While it stands, nothing but a
finalize of the key touches the key's object or hands the reservation to another transaction
(`run_reserved`). A finalize gives the reservation up before it knows whether it can succeed,
and a commit applies the write it carries whether or not a reservation is left; the last
sections state what follows for failed applies, for prepared transactions and for redelivered
commits.
-/

namespace Kivi.State

open Library.CheckedArith Library.Runs
open ObjectStore

/-- Whether the mutation resolves a reservation of `key`. -/
def Mutation.finalizes (key : Key) : Mutation → Bool
  | .txnFinalize _ own _ _ _ => decide (own = key)
  | _ => false

/-- Whether the event applies a finalize of `key`. -/
def StoreEvent.finalizes (key : Key) : StoreEvent → Bool
  | .apply mutation _ => mutation.finalizes key
  | _ => false

/-! ### Isolation -/

/-- A reserved cell keeps its entry, and its reservation stays with the same transaction and
write set. -/
def KeepsReserved (before after : Cell) : Prop :=
  ∀ held, before.intent = some held → after.entry = before.entry ∧
    ∃ held', after.intent = some held' ∧ held'.id = held.id ∧ held'.digest = held.digest

theorem KeepsReserved.refl (cell : Cell) : KeepsReserved cell cell :=
  fun held hheld ↦ ⟨rfl, held, hheld, rfl, rfl⟩

theorem KeepsReserved.trans {first second third : Cell} (h : KeepsReserved first second)
    (h' : KeepsReserved second third) : KeepsReserved first third := by
  intro held hheld
  obtain ⟨hentry, mid, hmid, hid, hdigest⟩ := h held hheld
  obtain ⟨hentry', last, hlast, hid', hdigest'⟩ := h' mid hmid
  exact ⟨hentry'.trans hentry, last, hlast, hid'.trans hid, hdigest'.trans hdigest⟩

variable {key : Key} {mutation : Mutation} {now : WallTimestamp}

theorem CellStep.keepsReserved {before after : Cell} (h : CellStep key mutation now before after)
    (hother : mutation.finalizes key = false) : KeepsReserved before after := by
  intro held hheld
  cases h with
  | same => exact ⟨rfl, held, hheld, rfl, rfl⟩
  | ordinary => cases hheld
  | localCommit => cases hheld
  | prepare howned =>
    obtain ⟨hid, hdigest⟩ := howned held hheld
    exact ⟨rfl, _, rfl, hid.symm, hdigest.symm⟩
  | drop | finalize => simp [Mutation.finalizes] at hother

/-- Applies that do not finalize the key keep what is reserved. -/
theorem run_applyStep_reserved (key : Key) (store : ObjectStore) {steps : List Timed}
    (hother : ∀ step ∈ steps, step.1.finalizes key = false) :
    KeepsReserved (store.cell key) ((run applyStep store steps).cell key) :=
  run_relation (R := fun first second ↦ KeepsReserved (first.cell key) (second.cell key))
    (fun _ ↦ .refl _) .trans
    (fun store step hstep ↦ (store.apply_cell step.1 step.2 key).keepsReserved hstep)
    (along_of_forall store hother)

theorem StoreEvent.step_reserved (key : Key) (store : ObjectStore) {event : StoreEvent}
    (hother : event.finalizes key = false) :
    KeepsReserved (store.cell key) ((event.step store).cell key) := by
  obtain ⟨enabled, rfl⟩ | ⟨steps, hsteps, hrun⟩ := event.step_eq_run store
  · cases enabled <;> exact .refl _
  · rw [hrun]
    refine run_applyStep_reserved key store fun step hmem ↦ ?_
    cases hsteps step hmem with
    | apply => exact hother
    | sweep | move => rfl

/-- Between the finalizes of a key, whoever reserved it keeps it and its object stands still. -/
theorem run_reserved (key : Key) (store : ObjectStore) {events : List StoreEvent}
    (hother : ∀ event ∈ events, event.finalizes key = false) :
    KeepsReserved (store.cell key) ((run StoreEvent.step store events).cell key) :=
  run_relation (R := fun first second ↦ KeepsReserved (first.cell key) (second.cell key))
    (fun _ ↦ .refl _) .trans
    (fun store event hevent ↦ @StoreEvent.step_reserved key store event hevent)
    (along_of_forall store hother)

/-! ### What a reservation observed -/

/-- The reservation names its key and records the version that was live when it was made. -/
def Observes (key : Key) (cell : Cell) : Prop :=
  ∀ held, cell.intent = some held → held.key = key ∧
    held.observed = (liveObject cell.entry held.preparedAt).map StoredObject.version

theorem CellStep.observes {before after : Cell} (h : CellStep key mutation now before after)
    (hbefore : Observes key before) : Observes key after := by
  cases h with
  | same => exact hbefore
  | ordinary | localCommit | drop | finalize => intro held hheld; cases hheld
  | prepare =>
    intro held hheld
    cases hheld
    exact ⟨rfl, rfl⟩

variable {store : ObjectStore}

theorem ReachableStore.observes (h : ReachableStore store) (key : Key) :
    Observes key (store.cell key) := by
  refine ReachableStore.invariant (P := fun store ↦ Observes key (store.cell key)) ?_
    (fun store timed hstore ↦ ?_) (fun store enabled hstore ↦ ?_) h
  · intro held hheld
    simp [ObjectStore.cell, ObjectStore.new] at hheld
  · exact (store.apply_cell timed.1 timed.2 key).observes hstore
  · cases enabled <;> exact hstore

/-- While a reservation stands, its key keeps its object and its owner, and the object is the one
the reservation observed: the version it recorded is the stored object's version, unless the
object had already expired when it was made. -/
theorem reserved_key_isolated {store : ObjectStore} (hreach : ReachableStore store) {key : Key}
    {held : TxnIntent} (hheld : store.intents[key]? = some held) (events : List StoreEvent)
    (hother : ∀ event ∈ events, event.finalizes key = false) :
    let after := run StoreEvent.step store events
    after.objects[key]? = store.objects[key]? ∧
      ∃ held', after.intents[key]? = some held' ∧ held'.id = held.id ∧
        held'.digest = held.digest ∧
        held'.observed =
          (liveObject after.objects[key]? held'.preparedAt).map StoredObject.version := by
  intro after
  obtain ⟨hentry, held', hheld', hid, hdigest⟩ := run_reserved key store hother held hheld
  have hobserves := ReachableStore.observes (hreach.run events) key held' hheld'
  exact ⟨hentry, held', hheld', hid, hdigest, hobserves.2⟩

/-- A put, a sweep and a share transfer all fail to touch a reserved key. -/
theorem reserved_key_isolated_from_writes :
    let reserved := run StoreEvent.step .new
      [.apply (.putBytes [1] [7]) 0,
        .apply (.txnPrepare (.zero _) 0 [1] (.version .first) .delete (.zero _)) 1]
    let events := [StoreEvent.apply (.putBytes [1] [8]) 2, .sweepExpired 3 9 ∅,
      .transferEscrow [1] [2] 5 4]
    ∃ held, reserved.intents[([1] : Key)]? = some held ∧
      (run StoreEvent.step reserved events).objects[([1] : Key)]? = reserved.objects[([1] : Key)]? ∧
      ∃ held', (run StoreEvent.step reserved events).intents[([1] : Key)]? = some held' ∧
        held'.id = held.id ∧ held'.digest = held.digest ∧
        held'.observed = (liveObject (run StoreEvent.step reserved events).objects[([1] : Key)]?
          held'.preparedAt).map StoredObject.version := by
  intro reserved events
  exact ⟨⟨.zero _, 0, [1], ⟨[1], .delete, .version .first⟩, .zero _, some .first, 1⟩, by decide,
    reserved_key_isolated ⟨_, rfl⟩ (by decide) events (by decide)⟩

/-- An object that expired before the prepare is observed as absent and stays stored. -/
theorem reservation_observes_expired_as_absent :
    let store := run StoreEvent.step .new
      [.apply (.putBytesWithExpiry [1] [7] (.expiresAt 10)) 0,
        .apply (.txnPrepare (.zero _) 0 [1] .absent (.put [8]) (.zero _)) 20]
    ReachableStore store ∧ ∃ held, store.intents[([1] : Key)]? = some held ∧ held.observed = none ∧
      store.objects[([1] : Key)]?.map StoredObject.version = some .first :=
  ⟨⟨_, rfl⟩, ⟨.zero _, 0, [1], ⟨[1], .put [8], .absent⟩, .zero _, none, 20⟩, by decide, rfl,
    by decide⟩

/-! ### Failed applies -/

/-- The mutation ends a reservation and fails all the same: it finalizes a key reserved by
another transaction or write set, or commits on its own reservation a write that is not ready. -/
def LosesReservation (store : ObjectStore) (mutation : Mutation) (now : WallTimestamp) : Prop :=
  match mutation with
  | .txnFinalize txn key commit write digest =>
    store.intents[key]? ≠ none ∧
      (¬ OwnedBy txn digest store.intents[key]? ∨
        commit = true ∧ ¬ WriteReady write.kind store.objects[key]? now)
  | _ => False

theorem ObjectStore.eraseIntent_eq_self_iff :
    store.eraseIntent key = store ↔ store.intents[key]? = none := by
  constructor
  · intro h
    rw [← h, getElem?_eraseIntent, if_pos rfl]
  · intro h
    have hintents : (store.eraseIntent key).intents = store.intents := by
      refine Std.ExtTreeMap.ext_getElem? fun other ↦ ?_
      rw [getElem?_eraseIntent]
      split_ifs with hother
      · rw [hother, h]
      · rfl
    exact ext_entries (fun _ ↦ rfl) rfl hintents

/-- A failed apply of a mutation other than a finalize changes nothing. -/
theorem apply_err_unchanged {error : ApplyError} (hother : ∀ key, mutation.finalizes key = false)
    (herr : (store.apply mutation now).1 = .err error) : (store.apply mutation now).2 = store := by
  cases hordinary : mutation.ordinaryKey with
  | some own =>
    rw [apply_of_ordinary hordinary] at herr ⊢
    cases hheld : store.intents[own]? with
    | some intent => rw [applyOrdinary_of_reserved hheld]
    | none =>
      rw [applyOrdinary_of_free hordinary hheld] at herr ⊢
      rcases hstep : objectStep store.objects[own]? mutation now with ⟨outcome, entry⟩ | error | _
      · rw [hstep] at herr
        cases herr
      · rfl
      · rfl
  | none =>
    cases mutation with
    | txnPrepare txn coordinator own expect kind digest =>
      change (store.applyTxnPrepare txn coordinator ⟨own, kind, expect⟩ digest now).1 = _ at herr
      change (store.applyTxnPrepare txn coordinator ⟨own, kind, expect⟩ digest now).2 = store
      rcases applyTxnPrepare_cases store now txn coordinator ⟨own, kind, expect⟩
        digest with ⟨answer, -, -, heq⟩ | ⟨-, -, -, heq⟩
      · rw [heq]
      · rw [heq] at herr
        cases herr
    | txnCommitLocal txn writes =>
      change (store.applyLocalCommit writes now).1 = _ at herr
      change (store.applyLocalCommit writes now).2 = store
      rcases applyLocalCommit_cases store writes now with
        ⟨error, heq⟩ | ⟨after, -, heq⟩
      · rw [heq]
      · rw [heq] at herr
        cases herr
    | txnFinalize txn own => exact absurd (hother own) (by simp [Mutation.finalizes])
    | _ => simp [Mutation.ordinaryKey, Mutation.key, Mutation.keys] at hordinary

/-- A failed apply leaves the objects, the index and the reservations as they were exactly when
it is not a finalize that gives up a reservation and then fails. -/
theorem apply_err_unchanged_iff (store : ObjectStore) (mutation : Mutation)
    (now : WallTimestamp) :
    (∀ error, (store.apply mutation now).1 = .err error → (store.apply mutation now).2 = store) ↔
      ¬ LosesReservation store mutation now := by
  cases hfinalize : mutation with
  | txnFinalize txn key commit write digest =>
    change (∀ error, (store.applyTxnFinalize txn key commit write digest now).1 = .err error →
      (store.applyTxnFinalize txn key commit write digest now).2 = store) ↔ _
    by_cases howned : OwnedBy txn digest store.intents[key]?
    · cases commit with
      | false => simp [LosesReservation, howned, applyTxnFinalize_of_abort howned]
      | true =>
        rcases applyTxnFinalize_commit_cases write now howned with
          ⟨hready, outcome, entry, -, heq⟩ | ⟨hready, error, heq⟩
        · simp [LosesReservation, howned, heq, hready]
        · simp [LosesReservation, howned, heq, hready, eraseIntent_eq_self_iff]
    · have hheld : store.intents[key]? ≠ none := fun hnone ↦ howned (by simp [OwnedBy, hnone])
      simp [LosesReservation, howned, hheld, applyTxnFinalize_of_foreign,
        eraseIntent_eq_self_iff]
  | _ =>
    simp only [LosesReservation, not_false_eq_true, iff_true]
    exact fun error herr ↦ apply_err_unchanged (fun _ ↦ rfl) herr

/-- A finalize of the wrong transaction fails and takes the owner's reservation with it. -/
theorem stray_finalize_drops_reservation :
    let reserved := run StoreEvent.step .new
      [.apply (.txnPrepare (.zero _) 0 [1] .any (.put [7]) (.zero _)) 0]
    let stray := Mutation.txnFinalize ⟨List.replicate 16 1, rfl⟩ [1] true ⟨[1], .put [8], .any⟩
      (.zero _)
    ReachableStore reserved ∧ (reserved.apply stray 1).1 = .err .txnDiverged ∧
      (reserved.apply stray 1).2.intents ≠ reserved.intents :=
  ⟨⟨_, rfl⟩, by decide, by decide⟩

/-! ### Prepared transactions -/

/-- An entry whose write was accepted by a prepare still takes that write at `now`: the version
can advance, and a share or a bounded value is still there to be changed. -/
def FinalizeReady (kind : TxnWriteKind) (stored : Option StoredObject) (now : WallTimestamp) :
    Prop :=
  kind = .delete ∨
    match liveObject stored now, kind with
    | some object, _ => object.version.asU64 ≠ maxU64
    | none, .boundedAdd _ | none, .escrowSetShare _ _ => False
    | none, _ => True

/-- Nothing but the lapse of a bounded counter and the last version stops a prepared write. -/
theorem writeReady_iff_finalizeReady {kind : TxnWriteKind} {stored : Option StoredObject}
    {later : WallTimestamp} (hle : now ≤ later)
    (hwritable : checkTxnWritable kind (liveObject stored now) = .ok ()) :
    WriteReady kind stored later ↔ FinalizeReady kind stored later := by
  by_cases hdelete : kind = .delete
  · subst hdelete
    simp [WriteReady, FinalizeReady, checkTxnWritable]
  unfold WriteReady FinalizeReady
  cases hlive : liveObject stored later with
  | some object =>
    have hthen := hwritable
    have hnow : liveObject stored now = some object := by
      obtain ⟨hstored, hlater⟩ := liveObject_eq_some_iff.mp hlive
      refine liveObject_eq_some_iff.mpr ⟨hstored, Bool.eq_false_iff.mpr fun hexpired ↦ ?_⟩
      exact Bool.false_ne_true (hlater.symm.trans (Expiry.isExpired_mono hle hexpired))
    rw [hnow] at hthen
    rw [entryNextVersion_of_live hlive, Option.isSome_iff_ne_none, Ne,
      ObjectVersion.next_eq_none_iff]
    simp [hthen, hdelete]
  | none =>
    rw [entryNextVersion_of_absent hlive]
    cases kind <;> simp [checkTxnWritable] at hdelete ⊢

/-- Where a prepare succeeded and no finalize of the key came in between, the commit applies its
write exactly when the entry it was prepared against is still able to take it. -/
theorem prepared_finalize_applies_iff (store : ObjectStore) (txn : TxnId)
    (coordinator : TabletId) (key : Key) (expect : TxnExpect) (kind : TxnWriteKind)
    (digest : Digest) {prepared now : WallTimestamp} (hle : prepared ≤ now)
    (hprepared : (store.apply (.txnPrepare txn coordinator key expect kind digest) prepared).1 =
      .ok .txnPrepared)
    (steps : List Timed) (hother : ∀ step ∈ steps, step.1.finalizes key = false) :
    let reserved := applyStep store (.txnPrepare txn coordinator key expect kind digest, prepared)
    let commit := Mutation.txnFinalize txn key true ⟨key, kind, expect⟩ digest
    (∃ version, ((run applyStep reserved steps).apply commit now).1 =
      .ok (.txnFinalized true version)) ↔ FinalizeReady kind store.objects[key]? now := by
  intro reserved commit
  rcases applyTxnPrepare_cases store prepared txn coordinator ⟨key, kind, expect⟩
    digest with ⟨answer, hanswer, -, heq⟩ | ⟨-, -, hwritable, heq⟩
  · exact absurd ((congrArg Prod.fst heq).symm.trans hprepared) hanswer
  have hreserved : reserved = store.insertIntent ⟨txn, coordinator, key, ⟨key, kind, expect⟩,
      digest, (store.get key prepared).map StoredObject.version, prepared⟩ :=
    congrArg Prod.snd heq
  have hheld : (reserved.cell key).intent = some ⟨txn, coordinator, key, ⟨key, kind, expect⟩,
      digest, (store.get key prepared).map StoredObject.version, prepared⟩ := by
    rw [hreserved]
    simp [ObjectStore.cell, getElem?_insertIntent]
  obtain ⟨hentry, held', hheld', hid, hdigest⟩ :=
    run_applyStep_reserved key reserved hother _ hheld
  have howned : OwnedBy txn digest (run applyStep reserved steps).intents[key]? := by
    intro held hsome
    rw [show (run applyStep reserved steps).intents[key]? = some held' from hheld'] at hsome
    cases hsome
    exact ⟨hid, hdigest⟩
  have hobject : (run applyStep reserved steps).objects[key]? = store.objects[key]? := by
    refine hentry.trans ?_
    rw [hreserved]
    rfl
  change (∃ version, ((run applyStep reserved steps).applyTxnFinalize txn key true
    ⟨key, kind, expect⟩ digest now).1 = _) ↔ _
  rw [← writeReady_iff_finalizeReady hle hwritable, ← hobject]
  rcases applyTxnFinalize_commit_cases ⟨key, kind, expect⟩ now howned with
    ⟨hready, outcome, entry, -, heq⟩ | ⟨hready, error, heq⟩
  · simp [hready, heq]
  · simp [hready, heq]

/-- A prepared put commits after a blocked write of the same key. -/
theorem prepared_put_finalizes :
    let reserved := applyStep .new (.txnPrepare (.zero _) 0 [1] .any (.put [7]) (.zero _), 0)
    let commit := Mutation.txnFinalize (.zero _) [1] true ⟨[1], .put [7], .any⟩ (.zero _)
    (∃ version, ((run applyStep reserved [(.putBytes [1] [8], 3)]).apply commit 5).1 =
      .ok (.txnFinalized true version)) ↔
      FinalizeReady (.put [7]) (ObjectStore.new.objects[([1] : Key)]?) 5 :=
  prepared_finalize_applies_iff .new (.zero _) 0 [1] .any (.put [7]) (.zero _) (by decide)
    (by decide) [(.putBytes [1] [8], 3)] (by decide)

/-- A bounded counter that lapses between prepare and commit makes the commit fail. -/
theorem prepared_bounded_add_fails_after_expiry :
    let store := run StoreEvent.step .new
      [.apply (.boundedCreate [1] 10 0) 0, .apply (.setExpiry [1] (.expiresAt 10)) 1]
    let prepare := Mutation.txnPrepare (.zero _) 0 [1] .any (.boundedAdd 3) (.zero _)
    let commit := Mutation.txnFinalize (.zero _) [1] true ⟨[1], .boundedAdd 3, .any⟩ (.zero _)
    ReachableStore store ∧ (store.apply prepare 5).1 = .ok .txnPrepared ∧
      ((store.apply prepare 5).2.apply commit 20).1 = .err .boundedExceeded :=
  ⟨⟨_, rfl⟩, by decide, by decide⟩

/-! ### Redelivered commits -/

/-- Delivering a commit again is never a no-op that says so, whatever came in between: no
commit finalize answers that it was not applied. -/
theorem redelivered_commit_not_noop (store : ObjectStore) (txn : TxnId) (key : Key)
    (write : TxnWrite) (digest : Digest) (first again : WallTimestamp) (others : List Timed) :
    let commit := Mutation.txnFinalize txn key true write digest
    let before := run applyStep (applyStep store (commit, first)) others
    ¬ ((∃ version, (before.apply commit again).1 = .ok (.txnFinalized false version)) ∧
      (before.apply commit again).2.objects[key]? = before.objects[key]?) := by
  rintro commit before ⟨⟨version, hanswer⟩, -⟩
  change (before.applyTxnFinalize txn key true write digest again).1 = _ at hanswer
  by_cases howned : OwnedBy txn digest before.intents[key]?
  · rcases applyTxnFinalize_commit_cases write again howned with
      ⟨-, outcome, entry, -, heq⟩ | ⟨-, error, heq⟩
    · rw [heq] at hanswer
      cases hanswer
    · rw [heq] at hanswer
      cases hanswer
  · rw [applyTxnFinalize_of_foreign true howned] at hanswer
    cases hanswer

/-- A committed counter increment that is delivered twice counts twice. -/
theorem redelivered_increment_counts_twice :
    let prepared := run StoreEvent.step .new
      [.apply (.txnPrepare (.zero _) 0 [1] .any (.counterAdd 1) (.zero _)) 0]
    let commit := Mutation.txnFinalize (.zero _) [1] true ⟨[1], .counterAdd 1, .any⟩ (.zero _)
    let once := applyStep prepared (commit, 1)
    (prepared.apply commit 1).1 = .ok (.txnFinalized true (some ⟨1⟩)) ∧
      once.intents[([1] : Key)]? = none ∧
      once.objects[([1] : Key)]? = some ⟨.strictCounter 1, ⟨1⟩, .never⟩ ∧
      (once.apply commit 2).1 = .ok (.txnFinalized true (some ⟨2⟩)) ∧
      (once.apply commit 2).2.objects[([1] : Key)]? = some ⟨.strictCounter 2, ⟨2⟩, .never⟩ := by
  decide

end Kivi.State
