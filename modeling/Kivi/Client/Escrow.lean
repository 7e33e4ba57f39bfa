import Kivi.State.TypedInvariants

/-!
# Escrow transfers of the native client

A transfer reads the shares of two counters, then their versions, plans the moved shares from what
it read, and writes both in one batch that expects those versions. Any number of clients do this at
once, and every read and every batch is a step. A batch on one tablet is checked against the widths
the tablet holds. A batch over two tablets is checked on versions alone, and the versions are read
after the shares: `transfers_conserve_iff` says which batches keep the total width, and
`stale_share_mints_rights` is a run with one that does not.
-/

namespace Kivi.Client.Escrow

open Library.Runs State State.ObjectStore

/-! ### Clients and tablets -/

/-- What a client reads of a bounded counter. -/
structure BoundedValue where
  value : Int64
  capacity : UInt64
  shareMin : Int64
  shareMax : Int64
deriving DecidableEq

def BoundedValue.share (read : BoundedValue) : Int64 × Int64 := (read.shareMin, read.shareMax)

variable (counters : Finset Key)

/-- A transfer between two of the counters. -/
structure Call where
  donor : counters
  recipient : counters
  amount : UInt64

/-- How far a client is in its transfer, with all it has read so far. -/
inductive Phase where
  | idle
  | called (call : Call counters)
  | donorRead (call : Call counters) (donor : BoundedValue)
  | sharesRead (call : Call counters) (donor recipient : BoundedValue)
  | donorVersionRead (call : Call counters) (donor recipient : BoundedValue)
      (donorVersion : Option ObjectVersion)
  | ready (call : Call counters) (donor recipient : BoundedValue)
      (donorVersion recipientVersion : Option ObjectVersion)

abbrev TabletStores := TabletId → ObjectStore

structure World where
  stores : TabletStores
  phases : Nat → Phase counters

inductive Event where
  | escrowTransfer (client : Nat) (call : Call counters)
  /-- The client's next read, or its batch. -/
  | turn (client : Nat) (txn : TxnId) (now : WallTimestamp)
  | boundedAdd (key : counters) (delta : Int64) (now : WallTimestamp)

variable {counters : Finset Key} (route : Key → TabletId) (digestOf : List TxnWrite → Digest)

/-- All clients are idle. -/
def World.start (stores : TabletStores) : World counters := ⟨stores, fun _ ↦ .idle⟩

variable (world : World counters)

def World.enter (client : Nat) (phase : Phase counters) : World counters :=
  { world with phases := Function.update world.phases client phase }

section Steps

variable (stores : TabletStores)

/-- A transfer fails alike on an absent key and on another type. -/
def boundedGet (key : Key) (now : WallTimestamp) : Option BoundedValue :=
  match ((stores (route key)).get key now).map StoredObject.value with
  | some (.boundedCounter state) =>
    some ⟨state.value, state.capacity, state.share.min, state.share.max⟩
  | _ => none

def getVersion (key : Key) (now : WallTimestamp) : Option ObjectVersion :=
  ((stores (route key)).get key now).map StoredObject.version

/-- Two-phase commit of writes on two tablets: the recipient's prepare follows a successful one of
the donor, and what is prepared is committed if both are and aborted otherwise. -/
def drive2pc (txn : TxnId) (donor recipient : TxnWrite) (now : WallTimestamp) : TabletStores :=
  let coordinator := min (route donor.key) (route recipient.key)
  let digest := digestOf [donor, recipient]
  let prepare (write : TxnWrite) := (stores (route write.key)).apply
    (.txnPrepare txn coordinator write.key write.expect write.kind digest) now
  let finalize (commit : Bool) (write : TxnWrite) (store : ObjectStore) :=
    (store.apply (.txnFinalize txn write.key commit write digest) now).2
  let (first, donorStore) := prepare donor
  if first = .ok .txnPrepared then
    let (second, recipientStore) := prepare recipient
    if second = .ok .txnPrepared then
      Function.update (Function.update stores (route donor.key) (finalize true donor donorStore))
        (route recipient.key) (finalize true recipient recipientStore)
    else
      Function.update (Function.update stores (route donor.key) (finalize false donor donorStore))
        (route recipient.key) recipientStore
  else Function.update stores (route donor.key) donorStore

/-- Whether two moved shares are within the bound on a batch, where a share counts for eight. -/
def fits (donor recipient : TxnWrite) : Bool :=
  donor.key.length + 8 + (recipient.key.length + 8) ≤ maxTxnBytes

/-- The batch of two writes. Attempts that meet a conflict change nothing, so the batch is the
attempt that decides it. -/
def atomicBatch (txn : TxnId) (donor recipient : TxnWrite) (now : WallTimestamp) : TabletStores :=
  if fits donor recipient then
    if route donor.key = route recipient.key then
      Function.update stores (route donor.key)
        ((stores (route donor.key)).commitLocal [donor, recipient] now).2
    else drive2pc route digestOf stores txn donor recipient now
  else stores

end Steps

/-- The write of a moved share, guarded by the version read. -/
def shareWrite (key : Key) (share : Int64 × Int64) (version : Option ObjectVersion) : TxnWrite :=
  ⟨key, .escrowSetShare share.1 share.2, match version with
    | none => .absent
    | some version => .version version⟩

def plan (call : Call counters) (donor recipient : BoundedValue) :
    Except TxnError ((Int64 × Int64) × (Int64 × Int64)) :=
  planEscrowTransfer donor.share donor.value recipient.share recipient.capacity call.amount

/-- The next read of a client, or the batch of what it planned. -/
def turn (client : Nat) (txn : TxnId) (now : WallTimestamp) : World counters :=
  match world.phases client with
  | .idle => world
  | .called call =>
    match boundedGet route world.stores call.donor now with
    | none => world.enter client .idle
    | some donor => world.enter client (.donorRead call donor)
  | .donorRead call donor =>
    match boundedGet route world.stores call.recipient now with
    | none => world.enter client .idle
    | some recipient => world.enter client (.sharesRead call donor recipient)
  | .sharesRead call donor recipient =>
    world.enter client (.donorVersionRead call donor recipient
      (getVersion route world.stores call.donor now))
  | .donorVersionRead call donor recipient donorVersion =>
    world.enter client (.ready call donor recipient donorVersion
      (getVersion route world.stores call.recipient now))
  | .ready call donor recipient donorVersion recipientVersion =>
    match plan call donor recipient with
    | .error _ => world.enter client .idle
    | .ok moves =>
      let stores := atomicBatch route digestOf world.stores txn
        (shareWrite call.donor moves.1 donorVersion)
        (shareWrite call.recipient moves.2 recipientVersion) now
      World.enter { world with stores := stores } client .idle

def step : Event counters → World counters
  | .escrowTransfer client call =>
    match world.phases client with
    | .idle => world.enter client (.called call)
    | _ => world
  | .turn client txn now => turn route digestOf world client txn now
  | .boundedAdd key delta now =>
    let store := ((world.stores (route key)).apply (.boundedAdd key delta) now).2
    { world with stores := Function.update world.stores (route key) store }

/-! ### Widths -/

/-- The entry of a key at its tablet. -/
def entryAt (stores : TabletStores) (key : Key) : Option StoredObject :=
  (stores (route key)).objects[key]?

variable (counters) in
def totalWidth (stores : TabletStores) : Int :=
  ∑ key ∈ counters, entryWidth (entryAt route stores key)

/-- A stored counter has its value inside its share. -/
def ValueInside (entry : Option StoredObject) : Prop :=
  ∀ object state, entry = some object → object.value = .boundedCounter state →
    state.share.min ≤ state.value ∧ state.value ≤ state.share.max

variable {route} {digestOf} {stores after : TabletStores} {store : ObjectStore} {tablet : TabletId}
  {now : WallTimestamp}

/-- Only the keys written count for a change of the total. -/
theorem totalWidth_sub (written : Finset Key) (hsub : written ⊆ counters)
    (hframe : ∀ key ∉ written, entryAt route after key = entryAt route stores key) :
    totalWidth counters route after - totalWidth counters route stores =
      ∑ key ∈ written, (entryWidth (entryAt route after key) -
        entryWidth (entryAt route stores key)) := by
  rw [totalWidth, totalWidth, ← Finset.sum_sub_distrib]
  refine (Finset.sum_subset hsub fun key _ hkey ↦ ?_).symm
  rw [hframe key hkey, sub_self]

/-- An update of one tablet shows at a key as far as it changes that entry there. -/
theorem entryAt_update {key : Key}
    (h : route key = tablet → store.objects[key]? = (stores tablet).objects[key]?) :
    entryAt route (Function.update stores tablet store) key = entryAt route stores key := by
  rw [entryAt, entryAt, Function.update_apply]
  split_ifs with hsame
  · rw [h hsame, hsame]
  · rfl

/-! ### Batches on one tablet -/

/-- A local commit of share moves keeps the summed width of its keys, and every other entry. -/
theorem commitLocal_widths (store : ObjectStore) (now : WallTimestamp) {writes : List TxnWrite}
    (hmoves : ∀ write ∈ writes, ∃ min max, write.kind = .escrowSetShare min max) :
    (∀ key ∉ (collapse writes).keys,
      (store.commitLocal writes now).2.objects[key]? = store.objects[key]?) ∧
    ∑ key ∈ (collapse writes).keys.toFinset,
      (entryWidth (store.commitLocal writes now).2.objects[key]? -
        entryWidth store.objects[key]?) = 0 := by
  obtain ⟨error, -, hcommit, -⟩ | ⟨hvalid, results, after, hcommit, heffect⟩ :=
    commitLocal_cases store writes now
  · rw [hcommit]
    exact ⟨fun _ _ ↦ rfl, by simp⟩
  rw [hcommit]
  refine ⟨fun key hkey ↦ ?_, ?_⟩
  · have hkeyEffect := heffect.2 key
    rwa [Std.ExtTreeMap.getElem?_eq_none (mt Std.ExtTreeMap.mem_keys.mpr hkey)] at hkeyEffect
  have hheld (state : ObjectStore) : (collapse writes).toList.map
      (fun item ↦ heldWidth state.objects[item.1]? item.2.kind) =
        (collapse writes).keys.map fun key ↦ entryWidth state.objects[key]? := by
    rw [← Std.ExtTreeMap.map_fst_toList_eq_keys, List.map_map]
    refine List.map_congr_left fun item hmem ↦ ?_
    obtain ⟨min, max, hkind⟩ := hmoves _ (collapse_mem ((mem_collapse_toList item).mp hmem)).1
    rw [hkind]
    rfl
  have hnodup : (collapse writes).keys.Nodup := by
    rw [← Std.ExtTreeMap.map_fst_toList_eq_keys]
    exact List.pairwise_map.mpr (collapse_distinct writes)
  rw [Finset.sum_sub_distrib, List.sum_toFinset _ hnodup, List.sum_toFinset _ hnodup, ← hheld,
    ← hheld, heldWidth_sum_of_commitLocal hvalid heffect, sub_self]

/-! ### Batches over two tablets -/

/-- Whether a prepare of the write succeeds. -/
def Admits (store : ObjectStore) (txn : TxnId) (digest : Digest) (write : TxnWrite)
    (now : WallTimestamp) : Prop :=
  OwnedBy txn digest store.intents[write.key]? ∧
    checkTxnExpectation write.expect (store.get write.key now) = .ok () ∧
    checkTxnWritable write.kind (store.get write.key now) = .ok ()

instance (store : ObjectStore) (txn : TxnId) (digest : Digest) (write : TxnWrite)
    (now : WallTimestamp) : Decidable (Admits store txn digest write now) :=
  inferInstanceAs (Decidable (_ ∧ _ ∧ _))

variable (route digestOf stores) in
/-- Whether the writes are on two tablets that both prepare. -/
def BothAdmit (txn : TxnId) (donor recipient : TxnWrite) (now : WallTimestamp) : Prop :=
  route donor.key ≠ route recipient.key ∧
    Admits (stores (route donor.key)) txn (digestOf [donor, recipient]) donor now ∧
    Admits (stores (route recipient.key)) txn (digestOf [donor, recipient]) recipient now

variable (route digestOf stores) in
instance (txn : TxnId) (donor recipient : TxnWrite) (now : WallTimestamp) :
    Decidable (BothAdmit route digestOf stores txn donor recipient now) :=
  inferInstanceAs (Decidable (_ ∧ _ ∧ _))

section Across

variable {txn : TxnId} (coordinator : TabletId) {digest : Digest} {write : TxnWrite}

/-- The store once the write is prepared. -/
def prepared (store : ObjectStore) (txn : TxnId) (coordinator : TabletId) (digest : Digest)
    (write : TxnWrite) (now : WallTimestamp) : ObjectStore :=
  store.insertIntent ⟨txn, coordinator, write.key, write, digest,
    (store.get write.key now).map StoredObject.version, now⟩

theorem apply_prepare_of_admits (h : Admits store txn digest write now) :
    store.apply (.txnPrepare txn coordinator write.key write.expect write.kind digest) now =
      (.ok .txnPrepared, prepared store txn coordinator digest write now) := by
  exact applyTxnPrepare_of_ready h.1 h.2.1 h.2.2

theorem apply_prepare_of_not_admits (h : ¬ Admits store txn digest write now) :
    ∃ answer, answer ≠ .ok .txnPrepared ∧
      store.apply (.txnPrepare txn coordinator write.key write.expect write.kind digest) now =
        (answer, store) := by
  obtain ⟨answer, hanswer, -, heq⟩ | ⟨howned, hexpect, hwritable, -⟩ :=
    store.applyTxnPrepare_cases now txn coordinator write digest
  · exact ⟨answer, hanswer, heq⟩
  · exact absurd ⟨howned, hexpect, hwritable⟩ h

/-- An abort touches no object. -/
theorem apply_abort_objects (key : Key) :
    (store.apply (.txnFinalize txn key false write digest) now).2.objects = store.objects := by
  change (store.applyTxnFinalize txn key false write digest now).2.objects = _
  by_cases howned : OwnedBy txn digest store.intents[key]?
  · rw [applyTxnFinalize_of_abort howned, eraseIntent_objects]
  · rw [applyTxnFinalize_of_foreign false howned, eraseIntent_objects]

/-- The commit of a prepared share move writes it exactly if the version can advance. -/
theorem apply_commit_entries {share : Int64 × Int64}
    (hkind : write.kind = .escrowSetShare share.1 share.2)
    (h : Admits store txn digest write now) :
    let after := ((prepared store txn coordinator digest write now).apply
      (.txnFinalize txn write.key true write digest) now).2
    entryWidth after.objects[write.key]? =
        (if (entryNextVersion store.objects[write.key]? now).isSome then shareWidth share
          else entryWidth store.objects[write.key]?) ∧
      ∀ other, other ≠ write.key → after.objects[other]? = store.objects[other]? := by
  intro after
  have howned : OwnedBy txn digest
      (prepared store txn coordinator digest write now).intents[write.key]? := by
    intro held hheld
    rw [prepared, getElem?_insertIntent, if_pos rfl] at hheld
    cases hheld
    exact ⟨rfl, rfl⟩
  -- The prepare passed the write's own check, so only the version is left to decide.
  have hready : WriteReady write.kind store.objects[write.key]? now ↔
      (entryNextVersion store.objects[write.key]? now).isSome := by
    simp only [WriteReady, hkind, reduceCtorEq, false_or, and_iff_right_iff_imp]
    intro _
    exact hkind ▸ h.2.2
  obtain ⟨hwrite, outcome, entry, hstep, hafter⟩ | ⟨hwrite, error, hafter⟩ :=
    applyTxnFinalize_commit_cases write now howned
  · have heq : after =
        (prepared store txn coordinator digest write now).finalized write.key write.kind outcome
          entry := congrArg Prod.snd hafter
    rw [heq, if_pos (hready.mp hwrite)]
    refine ⟨?_, fun other hne ↦ congrArg Cell.entry (finalized_cell_of_ne hne _ _ _)⟩
    rw [hkind] at hstep
    exact (congrArg (fun cell ↦ entryWidth (Cell.entry cell)) (finalized_cell_self _ _ _)).trans
      (entryWidth_of_setShare hstep)
  · have heq : after.objects = store.objects := congrArg (fun applied ↦ applied.2.objects) hafter
    rw [heq, if_neg (mt hready.mpr hwrite)]
    exact ⟨rfl, fun _ _ ↦ rfl⟩

variable {donor recipient : TxnWrite}

/-- When a prepare is refused no entry changes. -/
theorem drive2pc_of_refused (hroute : route donor.key ≠ route recipient.key)
    (h : ¬ BothAdmit route digestOf stores txn donor recipient now) (key : Key) :
    entryAt route (drive2pc route digestOf stores txn donor recipient now) key =
      entryAt route stores key := by
  by_cases hdonor : Admits (stores (route donor.key)) txn (digestOf [donor, recipient]) donor now
  · obtain ⟨answer, hanswer, hrefused⟩ := apply_prepare_of_not_admits
      (min (route donor.key) (route recipient.key)) fun hboth ↦ h ⟨hroute, hdonor, hboth⟩
    simp only [drive2pc, apply_prepare_of_admits _ hdonor, hrefused, if_true, if_neg hanswer]
    refine (entryAt_update fun _ ↦ ?_).trans (entryAt_update fun _ ↦ ?_)
    · rw [Function.update_of_ne hroute.symm]
    · rw [apply_abort_objects]
      rfl
  · obtain ⟨answer, hanswer, hrefused⟩ := apply_prepare_of_not_admits
      (min (route donor.key) (route recipient.key)) hdonor
    simp only [drive2pc, hrefused, if_neg hanswer]
    exact entryAt_update fun _ ↦ rfl

/-- When both prepares succeed, both commits follow, each on its own tablet. -/
theorem drive2pc_of_admits (donorShare recipientShare : Int64 × Int64)
    (hdonorKind : donor.kind = .escrowSetShare donorShare.1 donorShare.2)
    (hrecipientKind : recipient.kind = .escrowSetShare recipientShare.1 recipientShare.2)
    (h : BothAdmit route digestOf stores txn donor recipient now) :
    let after := drive2pc route digestOf stores txn donor recipient now
    (∀ key, key ≠ donor.key → key ≠ recipient.key →
      entryAt route after key = entryAt route stores key) ∧
    entryWidth (entryAt route after donor.key) =
      (if (entryNextVersion (entryAt route stores donor.key) now).isSome then
        shareWidth donorShare else entryWidth (entryAt route stores donor.key)) ∧
    entryWidth (entryAt route after recipient.key) =
      (if (entryNextVersion (entryAt route stores recipient.key) now).isSome then
        shareWidth recipientShare else entryWidth (entryAt route stores recipient.key)) := by
  obtain ⟨hroute, hdonor, hrecipient⟩ := h
  obtain ⟨hdonorWidth, hdonorFrame⟩ := apply_commit_entries
    (min (route donor.key) (route recipient.key)) hdonorKind hdonor
  obtain ⟨hrecipientWidth, hrecipientFrame⟩ := apply_commit_entries
    (min (route donor.key) (route recipient.key)) hrecipientKind hrecipient
  simp only [drive2pc, apply_prepare_of_admits _ hdonor, apply_prepare_of_admits _ hrecipient,
    if_true]
  refine ⟨fun key hdonorKey hrecipientKey ↦ ?_, ?_, ?_⟩
  · refine (entryAt_update fun _ ↦ ?_).trans (entryAt_update fun _ ↦ hdonorFrame key hdonorKey)
    rw [Function.update_of_ne hroute.symm, hrecipientFrame key hrecipientKey]
  · simp only [entryAt, Function.update_of_ne hroute, Function.update_self]
    exact hdonorWidth
  · simp only [entryAt, Function.update_self]
    exact hrecipientWidth

end Across

/-! ### Runs -/

/-- Whether what the transfer read still has the width the counters hold, as far as both can be
written. A counter whose version is exhausted keeps its share, and then the other one must keep its
width alone. -/
def widthsCurrent (donor recipient : BoundedValue) (moves : (Int64 × Int64) × (Int64 × Int64))
    (donorEntry recipientEntry : Option StoredObject) (now : WallTimestamp) : Bool :=
  match (entryNextVersion donorEntry now).isSome, (entryNextVersion recipientEntry now).isSome with
  | true, true => shareWidth donor.share + shareWidth recipient.share =
      entryWidth donorEntry + entryWidth recipientEntry
  | true, false => shareWidth moves.1 = entryWidth donorEntry
  | false, true => shareWidth moves.2 = entryWidth recipientEntry
  | false, false => true

variable (route digestOf) in
/-- Whether the event is no commit over two tablets, or one that will be refused, or one whose
reads are current. -/
def readsCurrent : Event counters → Bool
  | .turn client txn now =>
    match world.phases client with
    | .ready call donor recipient donorVersion recipientVersion =>
      match plan call donor recipient with
      | .error _ => true
      | .ok moves =>
        let donorWrite := shareWrite call.donor moves.1 donorVersion
        let recipientWrite := shareWrite call.recipient moves.2 recipientVersion
        if fits donorWrite recipientWrite ∧
            BothAdmit route digestOf world.stores txn donorWrite recipientWrite now then
          widthsCurrent donor recipient moves (entryAt route world.stores call.donor)
            (entryAt route world.stores call.recipient) now
        else true
    | _ => true
  | _ => true

section Run

variable {txn : TxnId} {donor recipient : TxnWrite} (hfits : fits donor recipient)

include hfits in
/-- A batch on one tablet keeps the total width, whatever was read. -/
theorem batch_together (hdonor : donor.key ∈ counters) (hrecipient : recipient.key ∈ counters)
    (hmoves : ∀ write ∈ [donor, recipient], ∃ min max, write.kind = .escrowSetShare min max)
    (hroute : route donor.key = route recipient.key) :
    totalWidth counters route (atomicBatch route digestOf stores txn donor recipient now) =
      totalWidth counters route stores := by
  have hkeys : ∀ key ∈ (collapse [donor, recipient]).keys.toFinset,
      key ∈ counters ∧ route key = route donor.key := by
    intro key hkey
    have hsome := Std.ExtTreeMap.isSome_getElem?_iff_mem.mpr
      (Std.ExtTreeMap.mem_keys.mp (List.mem_toFinset.mp hkey))
    obtain ⟨write, hwrite⟩ := Option.isSome_iff_exists.mp hsome
    obtain ⟨hmem, rfl⟩ := collapse_mem hwrite
    simp only [List.mem_cons, List.not_mem_nil, or_false] at hmem
    rcases hmem with rfl | rfl
    · exact ⟨hdonor, rfl⟩
    · exact ⟨hrecipient, hroute.symm⟩
  obtain ⟨hframe, hsum⟩ := commitLocal_widths (stores (route donor.key)) now hmoves
  rw [atomicBatch, if_pos hfits, if_pos hroute, ← sub_eq_zero,
    totalWidth_sub _ (fun key h ↦ (hkeys key h).1) fun key hkey ↦
      entryAt_update fun _ ↦ hframe key (mt List.mem_toFinset.mpr hkey), ← hsum]
  refine Finset.sum_congr rfl fun key hkey ↦ ?_
  simp only [entryAt, (hkeys key hkey).2, Function.update_self]

include hfits in
/-- A batch over two tablets keeps the total width exactly if it is refused or what it read is
current. -/
theorem batch_across (hdonor : donor.key ∈ counters) (hrecipient : recipient.key ∈ counters)
    {first second : BoundedValue} {moves : (Int64 × Int64) × (Int64 × Int64)}
    (hdonorKind : donor.kind = .escrowSetShare moves.1.1 moves.1.2)
    (hrecipientKind : recipient.kind = .escrowSetShare moves.2.1 moves.2.2)
    (hconserves : shareWidth moves.1 + shareWidth moves.2 =
      shareWidth first.share + shareWidth second.share)
    (hroute : route donor.key ≠ route recipient.key) :
    totalWidth counters route (atomicBatch route digestOf stores txn donor recipient now) =
        totalWidth counters route stores ↔
      (BothAdmit route digestOf stores txn donor recipient now →
        widthsCurrent first second moves (entryAt route stores donor.key)
          (entryAt route stores recipient.key) now = true) := by
  rw [atomicBatch, if_pos hfits, if_neg hroute]
  by_cases hadmits : BothAdmit route digestOf stores txn donor recipient now
  · obtain ⟨hframe, hdonorWidth, hrecipientWidth⟩ :=
      drive2pc_of_admits _ _ hdonorKind hrecipientKind hadmits
    have hne : donor.key ≠ recipient.key := fun heq ↦ hroute (congrArg route heq)
    rw [← sub_eq_zero, totalWidth_sub {donor.key, recipient.key}, Finset.sum_pair hne,
      hdonorWidth, hrecipientWidth, imp_iff_right hadmits, widthsCurrent]
    · cases (entryNextVersion (entryAt route stores donor.key) now).isSome <;>
        cases (entryNextVersion (entryAt route stores recipient.key) now).isSome <;>
        simp <;> omega
    · simp [Finset.insert_subset_iff, hdonor, hrecipient]
    · intro key hkey
      simp only [Finset.mem_insert, Finset.mem_singleton, not_or] at hkey
      exact hframe key hkey.1 hkey.2
  · simp only [hadmits, false_imp_iff, iff_true]
    exact Finset.sum_congr rfl fun key _ ↦ by rw [drive2pc_of_refused hroute hadmits key]

theorem entryWidth_apply_add (store : ObjectStore) (key other : Key) (delta : Int64)
    (now : WallTimestamp) :
    entryWidth (store.apply (.boundedAdd key delta) now).2.objects[other]? =
      entryWidth store.objects[other]? := by
  have hcell (before after : Cell) (h : CellStep other (.boundedAdd key delta) now before after) :
      entryWidth after.entry = entryWidth before.entry := by
    cases h with
    | same => rfl
    | ordinary _ hstep => exact entryWidth_of_add hstep
  exact hcell _ _ (store.apply_cell (.boundedAdd key delta) now other)

/-- The steps that keep the total width are those whose reads are current. -/
theorem step_width (event : Event counters) :
    totalWidth counters route (step route digestOf world event).stores =
        totalWidth counters route world.stores ↔
      readsCurrent route digestOf world event = true := by
  cases event with
  | escrowTransfer client call =>
    simp only [step, readsCurrent, iff_true]
    split <;> rfl
  | boundedAdd key delta now =>
    simp only [step, readsCurrent, iff_true]
    refine Finset.sum_congr rfl fun other _ ↦ ?_
    rw [entryAt, Function.update_apply]
    split_ifs with hsame
    · rw [entryWidth_apply_add, entryAt, hsame]
    · rfl
  | turn client txn now =>
    simp only [step, turn, readsCurrent]
    cases hphase : world.phases client with
    | idle => simp
    | called | donorRead =>
      simp only [iff_true]
      split <;> rfl
    | sharesRead | donorVersionRead => simp [World.enter]
    | ready call donor recipient donorVersion recipientVersion =>
      dsimp only
      cases hplan : plan call donor recipient with
      | error => simp [World.enter]
      | ok moves =>
        dsimp only
        by_cases hfits : fits (shareWrite call.donor moves.1 donorVersion)
          (shareWrite call.recipient moves.2 recipientVersion)
        · by_cases hroute : route call.donor = route call.recipient
          · refine iff_of_true (batch_together hfits call.donor.2 call.recipient.2 ?_ hroute)
              (if_neg fun h ↦ h.2.1 hroute)
            simp [shareWrite]
          · refine (batch_across hfits call.donor.2 call.recipient.2 rfl rfl
              (planEscrowTransfer_conserves hplan) hroute).trans ?_
            split_ifs with hadmits
            · exact imp_iff_right hadmits.2
            · exact iff_of_true (fun h ↦ absurd ⟨hfits, h⟩ hadmits) rfl
        · exact iff_of_true (congrArg (totalWidth counters route) (if_neg hfits))
            (if_neg fun h ↦ hfits h.1)

/-- Every stored object of every tablet is sound. -/
def AllSound (stores : TabletStores) : Prop := ∀ tablet, StoreSound False (stores tablet)

theorem AllSound.update (h : AllSound stores) (hstore : StoreSound False store) :
    AllSound (Function.update stores tablet store) := by
  intro other
  rw [Function.update_apply]
  split_ifs
  · exact hstore
  · exact h other

theorem apply_sound {mutation : Mutation} (h : StoreSound False store) :
    StoreSound False (store.apply mutation now).2 := by
  change StoreSound False (applyStep store (mutation, now))
  exact applyStep_sound h fun hfalse ↦ hfalse.elim

theorem apply_commitLocal (txn : TxnId) (store : ObjectStore) (writes : List TxnWrite) :
    (store.apply (.txnCommitLocal txn writes) now).2 = (store.commitLocal writes now).2 := by
  change (store.applyLocalCommit writes now).2 = _
  unfold applyLocalCommit
  split <;> simp [*]

theorem AllSound.drive2pc (h : AllSound stores) :
    AllSound (Escrow.drive2pc route digestOf stores txn donor recipient now) := by
  unfold Escrow.drive2pc
  dsimp only
  split_ifs
  · exact (h.update (apply_sound (apply_sound (h _)))).update (apply_sound (apply_sound (h _)))
  · exact (h.update (apply_sound (apply_sound (h _)))).update (apply_sound (h _))
  · exact h.update (apply_sound (h _))

/-- Every step keeps every stored object sound. -/
theorem AllSound.step (world : World counters) (event : Event counters)
    (h : AllSound world.stores) : AllSound (Escrow.step route digestOf world event).stores := by
  cases event with
  | escrowTransfer client call =>
    simp only [Escrow.step]
    split <;> exact h
  | boundedAdd key delta now => exact h.update (apply_sound (h _))
  | turn client txn now =>
    simp only [Escrow.step, turn]
    split
    · exact h
    · split <;> exact h
    · split <;> exact h
    · exact h
    · exact h
    split
    · exact h
    simp only [World.enter, atomicBatch]
    split_ifs
    · exact h.update (apply_commitLocal txn _ _ ▸ apply_sound (h _))
    · exact h.drive2pc
    · exact h

end Run

/-- In every run of transfers and additions from any reachable stores, the total share width stays
what it was and every value stays inside its share exactly if every commit over two tablets has
read the widths it replaces. -/
theorem transfers_conserve_iff (hstores : ∀ tablet, ReachableStore (stores tablet))
    (events : List (Event counters)) :
    (∀ front back, events = front ++ back →
      let after := (run (step route digestOf) (World.start stores) front).stores
      totalWidth counters route after = totalWidth counters route stores ∧
        ∀ key ∈ counters, ValueInside (entryAt route after key)) ↔
      Along (step route digestOf) (fun world event ↦ readsCurrent route digestOf world event = true)
        (World.start stores) events := by
  have hinside (front : List (Event counters)) (key : Key) :
      ValueInside (entryAt route
        (run (step route digestOf) (World.start stores) front).stores key) := by
    have hsound : AllSound (run (step route digestOf) (World.start stores) front).stores :=
      run_invariant (P := fun world ↦ AllSound (World.stores world)) AllSound.step
        (fun tablet ↦ (hstores tablet).sound) front
    intro object state hobject hvalue
    have hobjectSound := hsound (route key) key object hobject
    rw [StoredObject.Sound, hvalue] at hobjectSound
    obtain ⟨capacity, -, -, hmin, hmax, -⟩ := state.invariantHolds_iff.mp hobjectSound
    exact ⟨hmin, hmax⟩
  rw [← forall_states_iff_along (P := fun world : World counters ↦
    totalWidth counters route world.stores = totalWidth counters route stores)
    (fun world event hworld ↦ hworld ▸ step_width world event) rfl]
  exact forall₃_congr fun front back _ ↦ and_iff_left fun key _ ↦ hinside front key

/-! ### Two counters on two tablets -/

def twoCounters : Finset Key := {[0], [1]}

def routeByName (key : Key) : TabletId := (key.headD 0).toUInt64

/-- A counter of capacity 30 with the share 0 to 10, named after its tablet. -/
def narrowed (tablet : TabletId) : List StoreEvent :=
  [.apply (.boundedCreate [tablet.toUInt8] 30 tablet) 0,
    .apply (.escrowSetShare [tablet.toUInt8] 0 10) 1]

def narrowedStores (tablet : TabletId) : ObjectStore :=
  run StoreEvent.step ObjectStore.new (narrowed tablet)

/-- A transfer of `amount` from the first counter to the second. -/
def move (amount : UInt64) : Call twoCounters :=
  ⟨⟨[0], by simp [twoCounters]⟩, ⟨[1], by simp [twoCounters]⟩, amount⟩

def turns (client count : Nat) : List (Event twoCounters) :=
  List.replicate count (.turn client (.zero _) 2)

/-- A transfer of five between two reads of a transfer of three: the second commit finds the
versions it expects, and writes shares that add up to five more than there were. -/
theorem stale_share_mints_rights :
    let events := [.escrowTransfer 0 (move 3)] ++ turns 0 1 ++ [.escrowTransfer 1 (move 5)] ++
      turns 1 5 ++ turns 0 4
    let after := (run (step routeByName fun _ ↦ .zero _) (World.start narrowedStores) events).stores
    (∀ tablet, ReachableStore (narrowedStores tablet)) ∧
      totalWidth twoCounters routeByName narrowedStores = 20 ∧
      totalWidth twoCounters routeByName after = 25 := by
  refine ⟨fun tablet ↦ ⟨narrowed tablet, rfl⟩, ?_, ?_⟩
  · decide
  · decide

/-- A transfer of three, then an addition within the rights it brought. -/
theorem transfers_conserve_of_one :
    let events := [.escrowTransfer 0 (move 3)] ++ turns 0 5 ++
      [.boundedAdd (move 3).recipient 12 3]
    let after := (run (step routeByName fun _ ↦ .zero _) (World.start narrowedStores) events).stores
    totalWidth twoCounters routeByName after = totalWidth twoCounters routeByName narrowedStores ∧
      ∀ key ∈ twoCounters, ValueInside (entryAt routeByName after key) := by
  intro events
  exact (transfers_conserve_iff (fun tablet ↦ ⟨narrowed tablet, rfl⟩) events).mpr (by decide)
    events [] (by simp)

end Kivi.Client.Escrow
