import Kivi.State.Frames
import Kivi.State.Reservations

/-!
# Decision records in a store

The decision of a cross-tablet transaction is an object under a system key that names the
coordinator tablet and the transaction. This module gives the key and its parser, how the object
is read, and what the steps of a decide transaction do to the cell of such a key: a reservation
of an undecided record keeps it undecided, and a commit that finds its own reservation there
changes no decision (`RecordCell.finalize`).
-/

namespace Kivi.State

open Library.Runs

/-! ### Cells that are left alone -/

/-- The event does not write the never-expiring object under `key`. -/
def StoreEvent.avoids (key : Key) : StoreEvent → Bool
  | .apply mutation _ => mutation.keys.all (key ≠ ·)
  | .transferEscrow donor recipient _ _ => decide (key ≠ donor ∧ key ≠ recipient)
  | .sweepExpired _ _ _ | .setOrderedIndexing _ => true

/-- An event that avoids a key leaves its cell as it is, if the object there does not expire. -/
theorem StoreEvent.step_cell_of_avoids {key : Key} {store : ObjectStore} {event : StoreEvent}
    (hlasting : ∀ object, store.objects[key]? = some object → object.expiry = .never)
    (havoids : event.avoids key = true) : (event.step store).cell key = store.cell key := by
  obtain ⟨enabled, rfl⟩ | ⟨steps, hsteps, hrun⟩ := event.step_eq_run store
  · cases enabled <;> rfl
  rw [hrun]
  refine (run_relation (R := fun first second ↦ first.cell key = second.cell key) (fun _ ↦ rfl)
    .trans (fun store step hstep ↦ (store.apply_cell_of_not_mem hstep).symm)
    (along_of_forall store fun step hmem hkey ↦ ?_)).symm
  cases hsteps step hmem with
  | apply mutation now => exact of_decide_eq_true (List.all_eq_true.mp havoids key hkey) rfl
  | sweep hobject hexpired =>
    -- A swept key holds an expired object, and the object under `key` does not expire.
    obtain rfl := List.mem_singleton.mp hkey
    rw [StoredObject.isExpired, hlasting _ hobject] at hexpired
    cases hexpired
  | @move donor recipient other amount now hown min max =>
    obtain ⟨hdonor, hrecipient⟩ : key ≠ donor ∧ key ≠ recipient := of_decide_eq_true havoids
    obtain rfl := List.mem_singleton.mp hkey
    exact hown.elim hdonor hrecipient

end Kivi.State

namespace Kivi.Txn

open Library Library.Bytes State

/-! ### Record keys -/

/-- The bytes of `kivi/txn/`. -/
def txnRecordPrefix : Bytes := [107, 105, 118, 105, 47, 116, 120, 110, 47]

def txnRecordKeyLen : Nat := 34

/-- The key of a transaction's decision record; the coordinator is big-endian. -/
def txnRecordKey (coordinator : TabletId) (txn : TxnId) : Key :=
  Key.systemPrefix :: (txnRecordPrefix ++ ((leU64 coordinator).bytes.reverse ++ txn.bytes))

/-- Coordinator and transaction of a record key; none for any other key. -/
def parseTxnRecordKey (key : Key) : Option (TabletId × TxnId) :=
  if key.length ≠ txnRecordKeyLen then none
  else if key.take 10 ≠ Key.systemPrefix :: txnRecordPrefix then none
  else do
    let (raw, rest) ← FixedBytes.take 8 (key.drop 10)
    let (id, _) ← FixedBytes.take 16 rest
    return (UInt64.ofNat (ofLeBytes raw.bytes.reverse), id)

theorem length_txnRecordKey (coordinator : TabletId) (txn : TxnId) :
    (txnRecordKey coordinator txn).length = txnRecordKeyLen := by
  simp [txnRecordKey, txnRecordPrefix, (leU64 coordinator).length_eq, txn.length_eq,
    txnRecordKeyLen]

/-- Every record key parses back to what it names. -/
theorem parse_txnRecordKey (coordinator : TabletId) (txn : TxnId) :
    parseTxnRecordKey (txnRecordKey coordinator txn) = some (coordinator, txn) := by
  have hlen := length_txnRecordKey coordinator txn
  have hfront : (txnRecordKey coordinator txn).take 10 = Key.systemPrefix :: txnRecordPrefix :=
    rfl
  have hrest : (txnRecordKey coordinator txn).drop 10 =
      (leU64 coordinator).bytes.reverse ++ txn.bytes := rfl
  have hraw : ((leU64 coordinator).bytes.reverse).length = 8 := by
    rw [List.length_reverse, (leU64 coordinator).length_eq]
  have hid : FixedBytes.take 16 txn.bytes = some (txn, []) := by
    simpa using FixedBytes.take_append txn []
  have hword : ofLeBytes (leU64 coordinator).bytes = coordinator.toNat :=
    ofLeBytes_leBytes 8 _ coordinator.toNat_lt
  simp only [parseTxnRecordKey, hlen, hfront, hrest, FixedBytes.take_append_of_length hraw, hid,
    ne_eq, not_true_eq_false, if_false, Option.pure_def, Option.bind_eq_bind, Option.bind_some,
    List.reverse_reverse, hword, UInt64.ofNat_toNat]

theorem txnRecordKey_inj {coordinator coordinator' : TabletId} {txn txn' : TxnId}
    (h : txnRecordKey coordinator txn = txnRecordKey coordinator' txn') :
    coordinator = coordinator' ∧ txn = txn' := by
  have hparse := parse_txnRecordKey coordinator txn
  rw [h, parse_txnRecordKey, Option.some.injEq, Prod.mk.injEq] at hparse
  exact ⟨hparse.1.symm, hparse.2.symm⟩

/-! ### Reading a record -/

/-- The record in some bytes, if they hold one. -/
def recordOfBytes (bytes : Bytes) : Option TxnRecord :=
  match TxnRecord.decode bytes with
  | .ok record => some record
  | .error _ => none

variable (entry : Option StoredObject)

/-- The record an entry holds. -/
def storedRecord : Option TxnRecord :=
  match entry with
  | some ⟨.bytes bytes, _, _⟩ => recordOfBytes bytes
  | _ => none

/-- The decision an entry holds. -/
def storedState : Option TxnState :=
  (storedRecord entry).map TxnRecord.state

/-- The entry holds no final decision. -/
def Undecided : Prop :=
  ∀ state, storedState entry = some state → state.decided = false

theorem undecided_none : Undecided none := nofun

/-- An object without an expiry is live at any time. -/
theorem liveObject_of_lasting {object : StoredObject} (h : object.expiry = .never)
    (now : WallTimestamp) : liveObject (some object) now = some object := by
  rw [liveObject_eq_some_iff, StoredObject.isExpired, h]
  exact ⟨rfl, rfl⟩

/-! ### The cell of a record -/

/-- A record's object never expires, and whoever reserves its key holds an undecided record. -/
structure RecordCell (cell : Cell) : Prop where
  lasting : ∀ object, cell.entry = some object → object.expiry = .never
  undecided : ∀ held, cell.intent = some held → Undecided cell.entry

/-- A final decision is still there. -/
def KeepsDecision (before after : Option StoredObject) : Prop :=
  ∀ state, storedState before = some state → state.decided = true → storedState after = some state

theorem KeepsDecision.refl : KeepsDecision entry entry :=
  fun _ hstate _ ↦ hstate

namespace RecordCell

variable {key : Key} {now : WallTimestamp} {txn : TxnId} {digest : Digest} {before after : Cell}

theorem empty : RecordCell ⟨none, none⟩ := ⟨nofun, nofun⟩

/-- A prepare whose guard holds of undecided records only. -/
theorem prepare (h : RecordCell before) {coordinator : TabletId} {expect : TxnExpect}
    {kind : TxnWriteKind}
    (hguard : checkTxnExpectation expect (liveObject before.entry now) = .ok () →
      Undecided before.entry)
    (hstep : CellStep key (.txnPrepare txn coordinator key expect kind digest) now before after) :
    RecordCell after ∧ after.entry = before.entry := by
  cases hstep with
  | same => exact ⟨h, rfl⟩
  | ordinary hown => cases hown
  | prepare howned hexpect hwritable =>
    exact ⟨⟨h.lasting, fun held _ ↦ hguard hexpect⟩, rfl⟩

/-- An abort at most ends a reservation. -/
theorem abort (h : RecordCell before) {write : TxnWrite}
    (hstep : CellStep key (.txnFinalize txn key false write digest) now before after) :
    RecordCell after ∧ after.entry = before.entry := by
  cases hstep with
  | same => exact ⟨h, rfl⟩
  | ordinary hown => cases hown
  | drop => exact ⟨⟨h.lasting, nofun⟩, rfl⟩

section

variable {own : Key} {bytes : Bytes} {expect : TxnExpect}
  (hstep : CellStep key (.txnFinalize txn key true ⟨own, .put bytes, expect⟩ digest) now before
    after)

include hstep

/-- What a commit of a put leaves: the old entry, or the bytes it carries on a free or own key. -/
theorem finalize_cases :
    after = before ∨ after = ⟨before.entry, none⟩ ∨
      ∃ version, entryNextVersion before.entry now = some version ∧
        after = ⟨some ⟨.bytes bytes, version, .never⟩, none⟩ := by
  cases hstep with
  | same => exact Or.inl rfl
  | ordinary hown => cases hown
  | drop => exact Or.inr (Or.inl rfl)
  | finalize howned hobject =>
    obtain ⟨version, hversion, -, rfl⟩ := replaceEntry_eq_ok_iff.mp hobject
    exact Or.inr (Or.inr ⟨version, hversion, rfl⟩)

/-- A commit that finds a reservation, or the state it writes, changes no decision. -/
theorem finalize (h : RecordCell before) (hfinds : before.intent ≠ none ∨
      storedState before.entry = (recordOfBytes bytes).map TxnRecord.state) :
    RecordCell after ∧ KeepsDecision before.entry after.entry := by
  rcases finalize_cases hstep with rfl | rfl | ⟨version, -, rfl⟩
  · exact ⟨h, .refl _⟩
  · exact ⟨⟨h.lasting, nofun⟩, .refl _⟩
  · refine ⟨⟨fun object hobject ↦ ?_, nofun⟩, ?_⟩
    · rw [← Option.some.inj hobject]
    rcases hfinds with hreserved | hsame
    · obtain ⟨held, hheld⟩ := Option.ne_none_iff_exists'.mp hreserved
      intro state hstate hdecided
      rw [h.undecided held hheld state hstate] at hdecided
      cases hdecided
    · intro state hstate _
      exact hsame.symm.trans hstate

end

end RecordCell

end Kivi.Txn
