import Kivi.Library.LastWins
import Kivi.State.Store

/-!
# Deterministic application of mutations

`ObjectStore.apply` is the total function every replica runs. It returns the store even when it
fails, since some failures happen after a change. Ordinary mutations go through `applyOrdinary`;
the transaction mutations reserve a key, resolve a reservation, or commit a whole local write
set by ordinary mutations.
-/

namespace Kivi.State

open Library Library.CheckedArith

/-- The answer of an apply together with the store it leaves. -/
abbrev Applied := Result ApplyError ApplyOutcome × ObjectStore

namespace ObjectStore

/-! ### Ordinary mutations -/

variable (store : ObjectStore)

/-- Replace the whole value of a key under its next version. -/
def putRoot (key : Key) (value : ObjectVersion → LogicalValue) (expiry : Expiry)
    (now : WallTimestamp) : Applied :=
  match store.nextVersion key now with
  | none => (.err .versionExhausted, store)
  | some version => (.ok (.put version), store.insertObject key ⟨value version, version, expiry⟩)

/-- Create a typed object on a key that must not be live. -/
def createRoot (key : Key) (value : LogicalValue) (now : WallTimestamp) : Applied :=
  match store.get key now with
  | some _ => (.err .txnDiverged, store)
  | none => (.ok (.put .first), store.insertObject key ⟨value, .first, .never⟩)

/-- Rewrite the value of a stored key under its next version, keeping the expiry. -/
def rewrite (key : Key) (value : LogicalValue) (outcome : ObjectVersion → ApplyOutcome) : Applied :=
  match (store.versionOf key).next with
  | none => (.err .versionExhausted, store)
  | some version =>
    (.ok (outcome version), store.insertObject key ⟨value, version, store.expiryOf key⟩)

/-- Add to a counter of the expected type, creating it at `delta` when the key is not live. -/
def addToCounter (key : Key) (delta : Int64) (expected : ObjectType)
    (value : Int64 → LogicalValue) (outcome : ObjectVersion → Int64 → ApplyOutcome)
    (now : WallTimestamp) : Applied :=
  match store.get key now with
  | none =>
    (.ok (outcome .first delta), store.insertObject key ⟨value delta, .first, .never⟩)
  | some current =>
    match counterValue expected current.value with
    | none => (.err (.typeMismatch expected current.objectType), store)
    | some held =>
      match checkedAddI64 held delta with
      | none => (.err .counterOverflow, store)
      | some next => store.rewrite key (value next) (outcome · next)

/-- Patch a byte value in place; a range patch touches bytes, never the expiry. -/
def spliceRoot (key : Key) (base : Bytes) (expiry : Expiry) (offset : UInt64)
    (patch : Bytes) (now : WallTimestamp) : Applied :=
  match spliceInline base offset patch with
  | .panic => (.panic, store)
  | .err _ => (.err .unresolvableSplice, store)
  | .ok spliced => store.putRoot key (fun _ ↦ .bytes spliced) expiry now

/-- Grant a free lease. The mutation's token must be the one the lease offers next. -/
def grantLease (key : Key) (owner : UInt64) (fencing : FencingToken) (expiresAt : WallTimestamp)
    (nextFencing : FencingToken) (live : Option LeaseHolder)
    (now : WallTimestamp) : Applied :=
  if live.isSome ∨ fencing ≠ nextFencing then (.err .leaseConflict, store)
  else match fencing.next with
  | none => (.err .streamFull, store)
  | some advanced =>
    match store.nextVersion key now with
    | none => (.err .versionExhausted, store)
    | some version =>
      (.ok (.leaseGranted fencing expiresAt),
        store.insertObject key
          ⟨.lease ⟨some ⟨owner, fencing, expiresAt⟩, advanced⟩, version, .never⟩)

/-- The permit set after an acquisition: an identical holding is kept, a different holding under
the same permit is refused, and a new holding must fit the object and its capacity. -/
def acquirePermit (state : SemaphoreState) (permit : PermitId) (owner qty : UInt64) :
    Except ApplyError SemaphoreState :=
  match state.permits[permit]? with
  | some held =>
    if held.owner = owner ∧ held.qty = qty then .ok state else .error .semaphoreExhausted
  | none =>
    if 0 < qty then
      if maxSemaphorePermits ≤ state.permits.size then .error .semaphoreExhausted
      else if state.capacity < saturatingAddU64 state.outstanding qty then
        .error .semaphoreExhausted
      else .ok { state with permits := state.permits.insert permit ⟨owner, qty⟩ }
    else .ok state

/-- One arm per ordinary mutation. Transaction mutations dispatch before this point and would
panic here. -/
def applyInner (mutation : Mutation) (now : WallTimestamp) : Applied :=
  match mutation with
  | .putBytes key value => store.putRoot key (fun _ ↦ .bytes value) .never now
  | .putBytesWithExpiry key value expiry => store.putRoot key (fun _ ↦ .bytes value) expiry now
  | .replaceChunkedRootWithExpiry key manifest logicalLen expiry =>
    store.putRoot key (fun _ ↦ .chunked ⟨manifest, logicalLen⟩) expiry now
  | .replaceChunkedRoot key manifest logicalLen =>
    store.putRoot key (fun _ ↦ .chunked ⟨manifest, logicalLen⟩) .never now
  -- The authoritative version wins over the staged one.
  | .replaceFabricRoot key fabricId logicalLen _ =>
    store.putRoot key (fun version ↦ .fabric ⟨fabricId, logicalLen, version.asU64⟩) .never now
  | .replaceFabricRootWithExpiry key fabricId logicalLen _ expiry =>
    store.putRoot key (fun version ↦ .fabric ⟨fabricId, logicalLen, version.asU64⟩) expiry now
  | .spliceBytes key offset patch =>
    match store.get key now with
    | none => store.spliceRoot key [] .never offset patch now
    | some current =>
      match current.value with
      | .bytes value => store.spliceRoot key value current.expiry offset patch now
      | .chunked _ | .fabric _ => (.err .unresolvableSplice, store)
      | _ => (.err (.typeMismatch .bytes current.objectType), store)
  | .delete key => (.ok (.deleted (store.get key now).isSome), store.eraseObject key)
  | .counterAdd key delta =>
    store.addToCounter key delta .strictCounter .strictCounter .counter now
  | .setExpiry key expiry =>
    match store.get key now with
    | none => (.ok (.expiry false none), store)
    | some current =>
      match (store.versionOf key).next with
      | none => (.err .versionExhausted, store)
      | some version =>
        let value := match current.value with
          | .fabric reference => .fabric { reference with version := version.asU64 }
          | value => value
        (.ok (.expiry true (some version)), store.insertObject key ⟨value, version, expiry⟩)
  | .commutativeAdd key delta =>
    store.addToCounter key delta .commutativeCounter .commutativeCounter .commutative now
  | .boundedCreate key capacity holder =>
    match store.get key now with
    | some _ => (.err .txnDiverged, store)
    | none =>
      match i64OfU64 capacity with
      | none => (.err .boundedExceeded, store)
      | some cap =>
        (.ok (.put .first),
          store.insertObject key
            ⟨.boundedCounter ⟨0, capacity, ⟨holder, 0, cap⟩⟩, .first, .never⟩)
  | .boundedAdd key delta =>
    match store.get key now with
    | none => (.err .boundedExceeded, store)
    | some current =>
      match current.value with
      | .boundedCounter state =>
        match boundedAddPreview state delta with
        | .error _ => (.err .boundedExceeded, store)
        | .ok next =>
          store.rewrite key (.boundedCounter { state with value := next }) (.bounded · next)
      | _ => (.err (.typeMismatch .boundedCounter current.objectType), store)
  | .escrowSetShare key min max =>
    match store.get key now with
    | none => (.err .boundedExceeded, store)
    | some current =>
      match current.value with
      | .boundedCounter state =>
        if escrowShareValid state.value state.capacity min max then
          store.rewrite key
            (.boundedCounter { state with share := { state.share with min := min, max := max } })
            .put
        else (.err .boundedExceeded, store)
      | _ => (.err (.typeMismatch .boundedCounter current.objectType), store)
  | .semaphoreCreate key capacity => store.createRoot key (.semaphore ⟨capacity, ∅⟩) now
  | .semaphoreAcquire key permit owner qty =>
    match store.get key now with
    | none => (.err .txnDiverged, store)
    | some current =>
      match current.value with
      | .semaphore state =>
        match acquirePermit state permit owner qty with
        | .error error => (.err error, store)
        | .ok state => store.rewrite key (.semaphore state) fun _ ↦ .semaphoreAcquired
      | _ => (.err (.typeMismatch .semaphore current.objectType), store)
  | .semaphoreRelease key permit =>
    match store.get key now with
    | none => (.err .txnDiverged, store)
    | some current =>
      match current.value with
      | .semaphore state =>
        store.rewrite key (.semaphore { state with permits := state.permits.erase permit })
          fun _ ↦ .semaphoreReleased (state.permits.contains permit)
      | _ => (.err (.typeMismatch .semaphore current.objectType), store)
  | .leaseAcquire key owner fencing expiresAt =>
    match store.get key now with
    | none => store.grantLease key owner fencing expiresAt ⟨1⟩ none now
    | some current =>
      match current.value with
      | .lease state =>
        store.grantLease key owner fencing expiresAt state.nextFencing (leaseLive state now) now
      | _ => (.err (.typeMismatch .lease current.objectType), store)
  | .leaseRenew key owner fencing expiresAt =>
    match store.get key now with
    | none => (.err .leaseConflict, store)
    | some current =>
      match current.value with
      | .lease state =>
        match leaseLive state now with
        | none => (.err .leaseConflict, store)
        | some holder =>
          if holder.owner = owner ∧ holder.fencing = fencing then
            store.rewrite key (.lease { state with holder := some ⟨owner, fencing, expiresAt⟩ })
              fun _ ↦ .leaseGranted fencing expiresAt
          else (.err .leaseConflict, store)
      | _ => (.err (.typeMismatch .lease current.objectType), store)
  | .leaseRelease key owner fencing =>
    match store.get key now with
    | none => (.err .txnDiverged, store)
    | some current =>
      match current.value with
      | .lease state =>
        match state.holder with
        | none => (.ok (.leaseReleased false), store)
        | some holder =>
          if holder.owner = owner ∧ holder.fencing = fencing then
            store.rewrite key (.lease { state with holder := none }) fun _ ↦ .leaseReleased true
          else (.err .leaseConflict, store)
      | _ => (.err (.typeMismatch .lease current.objectType), store)
  | .streamCreate key stream shard => store.createRoot key (.streamShard ⟨stream, shard, 0, []⟩) now
  | .streamAppend key partition payload =>
    match store.get key now with
    | none => (.err .txnDiverged, store)
    | some current =>
      match current.value with
      | .streamShard shard =>
        if maxStreamEntryBytes < payload.length ∨ maxStreamEntryBytes < partition.length ∨
            maxStreamShardEntries ≤ shard.entries.length then
          (.err .streamFull, store)
        else
          let offset := shard.nextOffset
          store.rewrite key
            (.streamShard { shard with
              nextOffset := saturatingAddU64 offset 1
              entries := shard.entries ++ [⟨offset, partition, payload⟩] })
            fun _ ↦ .streamAppended offset
      | _ => (.err (.typeMismatch .streamShard current.objectType), store)
  | .streamTrim key through =>
    match store.get key now with
    | none => (.err .txnDiverged, store)
    | some current =>
      match current.value with
      | .streamShard shard =>
        let kept := shard.entries.dropWhile fun entry ↦ decide (entry.offset ≤ through)
        store.rewrite key (.streamShard { shard with entries := kept })
          fun _ ↦ .streamTrimmed (UInt64.ofNat (shard.entries.length - kept.length))
      | _ => (.err (.typeMismatch .streamShard current.objectType), store)
  | .txnPrepare _ _ _ _ _ _ | .txnFinalize _ _ _ _ _ | .txnCommitLocal _ _ => (.panic, store)

/-- The ordered index follows what the mutation did. -/
def noteOutcome (mutation : Mutation) (key : Key) (outcome : ApplyOutcome) : ObjectStore :=
  match outcome with
  | .put _ | .counter _ _ | .commutative _ _ | .bounded _ _ | .expiry true _
  | .leaseGranted _ _ | .leaseReleased _ | .semaphoreAcquired | .semaphoreReleased _
  | .streamAppended _ | .streamTrimmed _ => store.noteStored key
  | .deleted _ =>
    match mutation with
    | .delete _ => store.noteRemoved key
    | _ => store
  | _ => store

/-- Apply one ordinary mutation on `key`: a reservation blocks it, and the index is kept here. -/
def applyOrdinary (mutation : Mutation) (key : Key) (now : WallTimestamp) : Applied :=
  if store.intents.contains key then (.err .txnDiverged, store)
  else match store.applyInner mutation now with
  | (.ok outcome, after) => (.ok outcome, after.noteOutcome mutation key outcome)
  | failed => failed

/-! ### Transaction mutations -/

/-- The ordinary mutation a transaction's write stands for. -/
def localCommitMutation (key : Key) : TxnWriteKind → Mutation
  | .put value => .putBytes key value
  | .putChunked manifest logicalLen => .replaceChunkedRoot key manifest logicalLen
  | .putFabric fabricId logicalLen version => .replaceFabricRoot key fabricId logicalLen version
  | .delete => .delete key
  | .counterAdd delta => .counterAdd key delta
  | .commutativeAdd delta => .commutativeAdd key delta
  | .boundedAdd delta => .boundedAdd key delta
  | .escrowSetShare min max => .escrowSetShare key min max

/-- Whether the write could be applied to the live object now, with the errors of `apply`. -/
def checkReservable (kind : TxnWriteKind) (live : Option StoredObject) : Except ApplyError Unit :=
  match kind with
  | .put _ | .putChunked _ _ | .putFabric _ _ _ | .delete => .ok ()
  | .counterAdd delta => previewCounterAdd live delta .strictCounter
  | .commutativeAdd delta => previewCounterAdd live delta .commutativeCounter
  | .boundedAdd delta =>
    match live.map StoredObject.value with
    | none => .error .boundedExceeded
    | some (.boundedCounter state) =>
      match boundedAddPreview state delta with
      | .error _ => .error .boundedExceeded
      | .ok _ => .ok ()
    | some value => .error (.typeMismatch .boundedCounter value.objectType)
  | .escrowSetShare min max =>
    match live.map StoredObject.value with
    | none => .error .boundedExceeded
    | some (.boundedCounter state) =>
      if escrowShareValid state.value state.capacity min max then .ok ()
      else .error .boundedExceeded
    | some value => .error (.typeMismatch .boundedCounter value.objectType)

/-- Whether `key` is held by a reservation of another transaction or write set. -/
def foreignReservation (key : Key) (txn : TxnId) (digest : Digest) : Bool :=
  match store.intents[key]? with
  | none => false
  | some intent => decide (intent.id ≠ txn ∨ intent.digest ≠ digest)

/-- Reserve one key. Conflicts are ordinary outcomes; an inapplicable write is an error. -/
def applyTxnPrepare (txn : TxnId) (coordinator : TabletId) (write : TxnWrite)
    (digest : Digest) (now : WallTimestamp) : Applied :=
  if store.foreignReservation write.key txn digest then (.ok .txnConflict, store)
  else
    let live := store.get write.key now
    match checkTxnExpectation write.expect live with
    | .error _ => (.ok .txnConflict, store)
    | .ok _ =>
      match checkReservable write.kind live with
      | .error error => (.err error, store)
      | .ok _ =>
        (.ok .txnPrepared,
          store.insertIntent
            ⟨txn, coordinator, write.key, write, digest, live.map StoredObject.version, now⟩)

/-- The answer of a commit whose write had this outcome. -/
def finalizeAnswer : ApplyOutcome → Result ApplyError ApplyOutcome
  | .put version | .counter version _ | .commutative version _ | .bounded version _ =>
    .ok (.txnFinalized true (some version))
  | .deleted _ => .ok (.txnFinalized true none)
  | _ => .err .txnDiverged

/-- Resolve one key's reservation. The reservation goes first, whatever happens next; a commit
then applies the write the mutation itself carries. -/
def applyTxnFinalize (txn : TxnId) (key : Key) (commit : Bool) (write : TxnWrite)
    (digest : Digest) (now : WallTimestamp) : Applied :=
  let foreign := store.foreignReservation key txn digest
  let store := store.eraseIntent key
  if foreign then (.err .txnDiverged, store)
  else if !commit then (.ok (.txnFinalized false none), store)
  else match store.applyOrdinary (localCommitMutation key write.kind) key now with
  | (.ok outcome, after) => (finalizeAnswer outcome, after)
  | failed => failed

inductive LocalCommitError where
  | validation (error : OpError)
  | exhausted
  | diverged (error : ApplyError)
deriving DecidableEq

/-- The result of one write of a local commit; none where the source panics. -/
def localResultFor (mutation : Mutation) (outcome : ApplyOutcome) : Option OperationResult :=
  match mutation, outcome with
  | .putBytes _ _, .put version => some (.stored version)
  | .replaceChunkedRoot _ _ _, .put version => some (.stored version)
  | .replaceFabricRoot _ _ _ _, .put version => some (.stored version)
  | .delete _, .deleted existed => some (.deleted existed)
  | .counterAdd _ _, .counter version value => some (.counterUpdated value version)
  | .commutativeAdd _ _, .commutative _ _ => some .commutativeApplied
  | .boundedAdd _ _, .bounded version value => some (.boundedUpdated value version)
  | .escrowSetShare _ _ _, .put version => some (.stored version)
  | _, _ => none

/-- Repeated keys collapse to their last write. -/
def collapse (writes : List TxnWrite) : Std.ExtTreeMap Key TxnWrite :=
  LastWins.lastWins TxnWrite.key writes

/-- Validate every collapsed write, in key order, against the store as it stands. -/
def planLocal (store : ObjectStore) (now : WallTimestamp) :
    List (Key × TxnWrite) → Except OpError (List (Key × Mutation))
  | [] => .ok []
  | (key, write) :: rest =>
    let live := store.get key now
    match checkTxnExpectation write.expect live with
    | .error error => .error error
    | .ok _ =>
      match checkTxnWritable write.kind live with
      | .error error => .error error
      | .ok _ =>
        match planLocal store now rest with
        | .error error => .error error
        | .ok planned => .ok ((key, localCommitMutation key write.kind) :: planned)

/-- The summed share widths of the planned share moves before they apply. A share move on an
absent key panics and one on another type is refused; planning excludes both. -/
def sharesBefore (store : ObjectStore) (now : WallTimestamp) :
    List (Key × Mutation) → Result OpError Int
  | [] => .ok 0
  | (key, .escrowSetShare _ _ _) :: rest =>
    match store.get key now with
    | none => .panic
    | some current =>
      match current.value with
      | .boundedCounter state => do
        let total ← sharesBefore store now rest
        return shareWidth (state.share.min, state.share.max) + total
      | _ => .err (.wrongType .boundedCounter current.objectType)
  | _ :: rest => sharesBefore store now rest

/-- The summed share widths the planned share moves ask for. -/
def sharesAfter : List (Key × Mutation) → Int
  | [] => 0
  | (_, .escrowSetShare _ min max) :: rest => shareWidth (min, max) + sharesAfter rest
  | _ :: rest => sharesAfter rest

/-- Whether every planned write that needs a new version can have one. -/
def versionsAdvance (now : WallTimestamp) (planned : List (Key × Mutation)) : Bool :=
  planned.all fun (key, mutation) ↦
    match mutation with
    | .delete _ => true
    | _ => (store.nextVersion key now).isSome

/-- Apply the planned mutations in key order, collecting their results by key. -/
def applyPlanned (now : WallTimestamp) :
    List (Key × Mutation) → ObjectStore → Std.ExtTreeMap Key OperationResult →
      Result LocalCommitError (Std.ExtTreeMap Key OperationResult) × ObjectStore
  | [], store, results => (.ok results, store)
  | (key, mutation) :: rest, store, results =>
    match store.applyOrdinary mutation key now with
    | (.err error, after) => (.err (.diverged error), after)
    | (.panic, after) => (.panic, after)
    | (.ok outcome, after) =>
      match localResultFor mutation outcome with
      | none => (.panic, after)
      | some result => applyPlanned now rest after (results.insert key result)

/-- Commit a write set of one tablet: validate everything, then apply everything. Results come
in request order. -/
def commitLocal (writes : List TxnWrite) (now : WallTimestamp) :
    Result LocalCommitError (List OperationResult) × ObjectStore :=
  let collapsed := collapse writes
  if collapsed.keys.any (store.intents.contains ·) then
    (.err (.validation .txnConflict), store)
  else match planLocal store now collapsed.toList with
  | .error error => (.err (.validation error), store)
  | .ok planned =>
    match sharesBefore store now planned with
    | .panic => (.panic, store)
    | .err error => (.err (.validation error), store)
    | .ok before =>
      if before ≠ sharesAfter planned then (.err (.validation .boundedExceeded), store)
      else if !versionsAdvance store now planned then (.err .exhausted, store)
      else match applyPlanned now planned store ∅ with
      | (.err error, after) => (.err error, after)
      | (.panic, after) => (.panic, after)
      | (.ok results, after) =>
        match writes.mapM fun write ↦ results[write.key]? with
        | none => (.panic, after)
        | some results => (.ok results, after)

/-- The versions a local commit reports, in request order. -/
def localVersions (writes : List TxnWrite) (now : WallTimestamp) : List (Option ObjectVersion) :=
  writes.map fun write ↦
    match write.kind with
    | .delete => none
    | _ => (store.get write.key now).map StoredObject.version

def applyLocalCommit (writes : List TxnWrite) (now : WallTimestamp) : Applied :=
  match store.commitLocal writes now with
  | (.ok _, after) => (.ok (.txnLocalCommitted (after.localVersions writes now)), after)
  | (.err (.validation _), after) => (.err .txnDiverged, after)
  | (.err .exhausted, after) => (.err .versionExhausted, after)
  | (.err (.diverged error), after) => (.err error, after)
  | (.panic, after) => (.panic, after)

/-- Apply one mutation at the proposer's timestamp. -/
def apply (mutation : Mutation) (now : WallTimestamp) : Applied :=
  match mutation with
  | .txnPrepare txn coordinator key expect write digest =>
    store.applyTxnPrepare txn coordinator ⟨key, write, expect⟩ digest now
  | .txnFinalize txn key commit write digest =>
    store.applyTxnFinalize txn key commit write digest now
  | .txnCommitLocal _ writes => store.applyLocalCommit writes now
  | _ =>
    match mutation.key with
    | none => (.panic, store)
    | some key => store.applyOrdinary mutation key now

end ObjectStore

end Kivi.State
