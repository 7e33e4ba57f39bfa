import Kivi.State.Apply

/-!
# Preparation with predicted outcomes

`ObjectStore.prepareDurable` turns a client operation into a read answer, a terminal answer
without effect, or a mutation with the result its application must produce. It is a second
implementation of every operation beside `apply`, with guards of its own.
-/

namespace Kivi.State

open Library Library.CheckedArith Library.Bytes

/-- What preparing an operation yields. -/
inductive StorePrepared where
  | read (result : OperationResult)
  | terminal (outcome : DurableOutcome)
  | write (mutation : Mutation) (expected : OperationResult)
deriving DecidableEq

/-- A rejection without effect. -/
def StorePrepared.rejected (error : OpError) : StorePrepared := .terminal (.rejected error)

/-- Whether the operation clears an expiry. -/
def Operation.isPersistExpiry : Operation → Bool
  | .persistExpiry _ => true
  | _ => false

/-- Whether the mutation clears an expiry rather than sets one. -/
def isPersistExpiry : Mutation → Bool
  | .setExpiry _ expiry => decide (expiry = .never)
  | _ => false

namespace ObjectStore

variable (store : ObjectStore) (key : Key) (now : WallTimestamp)

/-! ### Reads -/

/-- The answers of the read-only operations; none for the others. -/
def prepareRead (op : Operation) : Option (Except OpError OperationResult) :=
  match op with
  | .get key =>
    some <| match store.get key now with
    | none => .ok (.value none)
    | some object =>
      match object.value with
      | .bytes value => .ok (.value (some value))
      | .chunked root => .ok (.chunkedValue root.manifest root.logicalLen)
      | .fabric root => .ok (.fabricValue root.id root.logicalLen root.version)
      | _ => .error (.wrongType .bytes object.objectType)
  | .exists key => some (.ok (.exists (store.get key now).isSome))
  | .counterGet key =>
    some <| match store.get key now with
    | none => .ok (.counter none)
    | some object =>
      match object.value with
      | .strictCounter value => .ok (.counter (some value))
      | _ => .error (.wrongType .strictCounter object.objectType)
  | .getExpiry key => some (.ok (.expiry ((store.get key now).map StoredObject.expiry)))
  | .getRange key offset len =>
    some <| match store.get key now with
    | none => .ok (.value none)
    | some object =>
      match object.value with
      | .bytes value => .ok (.value (some (sliceRange value offset len)))
      | .chunked root => .ok (.chunkedValue root.manifest root.logicalLen)
      | .fabric root => .ok (.fabricValue root.id root.logicalLen root.version)
      | _ => .error (.wrongType .bytes object.objectType)
  | .bytesLength key =>
    some <| match store.get key now with
    | none => .ok (.length none)
    | some object =>
      match object.value with
      | .bytes value => .ok (.length (some (UInt64.ofNat value.length)))
      | .chunked root => .ok (.length (some root.logicalLen))
      | .fabric root => .ok (.length (some root.logicalLen))
      | _ => .error (.wrongType .bytes object.objectType)
  | .getVersion key => some (.ok (.version ((store.get key now).map StoredObject.version)))
  | .commutativeGet key =>
    some <| match store.get key now with
    | none => .ok (.commutativeValue none)
    | some object =>
      match object.value with
      | .commutativeCounter value => .ok (.commutativeValue (some value))
      | _ => .error (.wrongType .commutativeCounter object.objectType)
  | .boundedCounterGet key =>
    some <| match store.get key now with
    | none => .ok (.boundedValue none none none)
    | some object =>
      match object.value with
      | .boundedCounter state =>
        .ok (.boundedValue (some state.value) (some state.capacity)
          (some (state.share.min, state.share.max)))
      | _ => .error (.wrongType .boundedCounter object.objectType)
  | .semaphoreInspect key =>
    some <| match store.get key now with
    | none => .error .notFound
    | some object =>
      match object.value with
      | .semaphore state => .ok (.semaphoreLoad state.outstanding state.capacity)
      | _ => .error (.wrongType .semaphore object.objectType)
  | .leaseInspect key =>
    some <| match store.get key now with
    | none => .ok (.leaseInfo none ⟨1⟩)
    | some object =>
      match object.value with
      | .lease state => .ok (.leaseInfo (leaseLive state now) state.nextFencing)
      | _ => .error (.wrongType .lease object.objectType)
  | .streamRead key fromOffset maxEntries =>
    some <| match store.get key now with
    | none => .ok (.streamEntries [] 0)
    | some object =>
      match object.value with
      | .streamShard shard =>
        .ok (.streamEntries
          ((shard.entries.filter fun entry ↦ decide (fromOffset ≤ entry.offset)).take
            maxEntries.toNat) shard.nextOffset)
      | _ => .error (.wrongType .streamShard object.objectType)
  | _ => none

/-! ### Predictions -/

def predictVersion : Except DurableOutcome ObjectVersion :=
  match store.nextVersion key now with
  | none => .error .versionExhausted
  | some version => .ok version

/-- A write that takes the next version, or the exhaustion answer. -/
def predictWrite (mutation : Mutation) (expected : ObjectVersion → OperationResult) :
    StorePrepared :=
  match store.predictVersion key now with
  | .ok version => .write mutation (expected version)
  | .error outcome => .terminal outcome

/-- The conditional stores: an unmet condition completes without a mutation, a met one writes
with the expiry its policy resolves to. -/
def predictConditional (mutation : Expiry → Mutation) (condition : SetCondition)
    (policy : ExpiryPolicy) : StorePrepared :=
  let live := store.get key now
  let holds : Bool := match condition with
    | .always => true
    | .ifAbsent => live.isNone
    | .ifPresent => live.isSome
  if !holds then .terminal (.completed (.conditionalSet false none))
  else
    let expiry := match policy with
      | .clear => .never
      | .keep => (live.map StoredObject.expiry).getD .never
      | .expireAt stamp => .expiresAt stamp
    store.predictWrite key now (mutation expiry) fun version ↦ .conditionalSet true (some version)

def predictSetConditional (value : Bytes) (condition : SetCondition)
    (policy : ExpiryPolicy) : StorePrepared :=
  store.predictConditional key now (.putBytesWithExpiry key value) condition policy

def predictSetConditionalChunked (manifest : ManifestId) (logicalLen : UInt64)
    (condition : SetCondition) (policy : ExpiryPolicy) : StorePrepared :=
  store.predictConditional key now (.replaceChunkedRootWithExpiry key manifest logicalLen) condition
    policy

def predictSetConditionalFabric (reference : FabricRef) (condition : SetCondition)
    (policy : ExpiryPolicy) : StorePrepared :=
  store.predictConditional key now
    (.replaceFabricRootWithExpiry key reference.id reference.logicalLen reference.version)
    condition policy

def predictSetRange (offset : UInt64) (patch : Bytes) : Result OpError StorePrepared :=
  let write := store.predictWrite key now (.spliceBytes key offset patch) .stored
  match store.get key now with
  | none => .ok write
  | some object =>
    match object.value with
    | .bytes _ => .ok write
    | .chunked _ | .fabric _ => .err .staleRangeBase
    | _ => .ok (.rejected (.wrongType .bytes object.objectType))

def predictCounterAdd (delta : Int64) : StorePrepared :=
  match store.get key now with
  | none => .write (.counterAdd key delta) (.counterUpdated delta .first)
  | some object =>
    match object.value with
    | .strictCounter value =>
      match checkedAddI64 value delta with
      | none => .rejected .counterOverflow
      | some next => store.predictWrite key now (.counterAdd key delta) (.counterUpdated next)
    | _ => .rejected (.wrongType .strictCounter object.objectType)

def predictCommutativeAdd (delta : Int64) : StorePrepared :=
  match store.get key now with
  | none => .write (.commutativeAdd key delta) .commutativeApplied
  | some object =>
    match object.value with
    | .commutativeCounter value =>
      match checkedAddI64 value delta with
      | none => .rejected .counterOverflow
      | some _ =>
        store.predictWrite key now (.commutativeAdd key delta) fun _ ↦ .commutativeApplied
    | _ => .rejected (.wrongType .commutativeCounter object.objectType)

/-- An expiry change: a stamp is taken by any live key, its removal only by a dated one. -/
def predictExpiry (expiresAt : Option WallTimestamp) : StorePrepared :=
  let liveDated : Bool := match store.get key now with
    | none => false
    | some object => expiresAt.isSome || decide (object.expiry ≠ .never)
  let answer (applied : Bool) : OperationResult := match expiresAt with
    | some _ => .expirySet applied
    | none => .expiryPersisted applied
  if !liveDated then .terminal (.completed (answer false))
  else store.predictWrite key now (.setExpiry key ⟨expiresAt⟩) fun _ ↦ answer true

def predictBoundedCreate (capacity : UInt64) (holder : TabletId) : StorePrepared :=
  match store.get key now with
  | some object => .rejected (.wrongType .boundedCounter object.objectType)
  | none =>
    if 2 ^ 63 - 1 < capacity.toNat then .rejected .boundedExceeded
    else .write (.boundedCreate key capacity holder) (.stored .first)

def predictBoundedAdd (delta : Int64) : StorePrepared :=
  match store.get key now with
  | none => .rejected .boundedExceeded
  | some object =>
    match object.value with
    | .boundedCounter state =>
      match boundedAddPreview state delta with
      | .error error => .rejected error
      | .ok next => store.predictWrite key now (.boundedAdd key delta) (.boundedUpdated next)
    | _ => .rejected (.wrongType .boundedCounter object.objectType)

/-- A lone share move may only narrow the share. -/
def predictEscrowMove (min max : Int64) : StorePrepared :=
  match store.get key now with
  | none => .rejected .boundedExceeded
  | some object =>
    match object.value with
    | .boundedCounter state =>
      if min < state.share.min ∨ state.share.max < max ∨
          !escrowShareValid state.value state.capacity min max then
        .rejected .boundedExceeded
      else store.predictWrite key now (.escrowSetShare key min max) .stored
    | _ => .rejected (.wrongType .boundedCounter object.objectType)

def predictSemaphoreCreate (capacity : UInt64) : StorePrepared :=
  match store.get key now with
  | some object => .rejected (.wrongType .semaphore object.objectType)
  | none => .write (.semaphoreCreate key capacity) (.stored .first)

/-- An acquisition. A zero quantity is answered before the held permits are looked at. -/
def predictSemaphoreAcquire (permit : PermitId) (owner qty : UInt64) : StorePrepared :=
  match store.get key now with
  | none => .rejected .notFound
  | some object =>
    match object.value with
    | .semaphore state =>
      let acquired := store.predictWrite key now (.semaphoreAcquire key permit owner qty)
        fun _ ↦ .semaphoreAcquired
      if qty = 0 then acquired
      else match state.permits[permit]? with
      | some held =>
        if held.owner = owner ∧ held.qty = qty then acquired else .rejected .semaphoreExhausted
      | none =>
        if maxSemaphorePermits ≤ state.permits.size ∨
            state.capacity < saturatingAddU64 state.outstanding qty then
          .rejected .semaphoreExhausted
        else acquired
    | _ => .rejected (.wrongType .semaphore object.objectType)

def predictSemaphoreRelease (permit : PermitId) : StorePrepared :=
  match store.get key now with
  | none => .terminal (.completed (.semaphoreReleased false))
  | some object =>
    match object.value with
    | .semaphore state =>
      if !state.permits.contains permit then .terminal (.completed (.semaphoreReleased false))
      else
        store.predictWrite key now (.semaphoreRelease key permit) fun _ ↦ .semaphoreReleased true
    | _ => .rejected (.wrongType .semaphore object.objectType)

/-- A grant of a free lease under the token it offers. `fresh` leases need no version check. -/
def predictGrant (owner ttlMicros : UInt64) (nextFencing : FencingToken)
    (live : Option LeaseHolder) (fresh : Bool) : StorePrepared :=
  if live.isSome then .rejected .leaseConflict
  else
    let expiresAt := leaseExpiresAt now ttlMicros
    let granted : StorePrepared := match nextFencing.next with
      | none => .rejected .streamFull
      | some _ =>
        .write (.leaseAcquire key owner nextFencing expiresAt)
          (.leaseAcquired nextFencing expiresAt)
    if fresh then granted
    else match store.predictVersion key now with
    | .ok _ => granted
    | .error outcome => .terminal outcome

def predictLeaseAcquire (owner ttlMicros : UInt64) : StorePrepared :=
  match store.get key now with
  | none => store.predictGrant key now owner ttlMicros ⟨1⟩ none true
  | some object =>
    match object.value with
    | .lease state =>
      store.predictGrant key now owner ttlMicros state.nextFencing (leaseLive state now) false
    | _ => .rejected (.wrongType .lease object.objectType)

def predictLeaseRenew (owner : UInt64) (fencing : FencingToken) (ttlMicros : UInt64) :
    StorePrepared :=
  match store.get key now with
  | none => .rejected .staleFencing
  | some object =>
    match object.value with
    | .lease state =>
      match leaseLive state now with
      | none => .rejected .staleFencing
      | some holder =>
        if holder.owner = owner ∧ holder.fencing = fencing then
          let expiresAt := leaseExpiresAt now ttlMicros
          store.predictWrite key now (.leaseRenew key owner fencing expiresAt)
            fun _ ↦ .leaseRenewed fencing expiresAt
        else .rejected .staleFencing
    | _ => .rejected (.wrongType .lease object.objectType)

def predictLeaseRelease (owner : UInt64) (fencing : FencingToken) : StorePrepared :=
  match store.get key now with
  | none => .terminal (.completed (.leaseReleased false))
  | some object =>
    match object.value with
    | .lease state =>
      match state.holder with
      | none => .terminal (.completed (.leaseReleased false))
      | some holder =>
        if holder.owner = owner ∧ holder.fencing = fencing then
          store.predictWrite key now (.leaseRelease key owner fencing) fun _ ↦ .leaseReleased true
        else .rejected .staleFencing
    | _ => .rejected (.wrongType .lease object.objectType)

def predictStreamCreate (stream : FixedBytes 16) (shard : UInt32) : StorePrepared :=
  match store.get key now with
  | some object => .rejected (.wrongType .streamShard object.objectType)
  | none => .write (.streamCreate key stream shard) .streamCreated

def predictStreamAppend (partition payload : Bytes) : StorePrepared :=
  match store.get key now with
  | none => .rejected .notFound
  | some object =>
    match object.value with
    | .streamShard shard =>
      if maxStreamEntryBytes < payload.length ∨ maxStreamEntryBytes < partition.length ∨
          maxStreamShardEntries ≤ shard.entries.length then
        .rejected .streamFull
      else
        store.predictWrite key now (.streamAppend key partition payload)
          fun _ ↦ .streamAppended shard.nextOffset
    | _ => .rejected (.wrongType .streamShard object.objectType)

/-- A trim, with the number of entries it drops counted over the whole shard. -/
def predictStreamTrim (through : UInt64) : StorePrepared :=
  match store.get key now with
  | none => .terminal (.completed (.streamTrimmed 0))
  | some object =>
    match object.value with
    | .streamShard shard =>
      let removed := UInt64.ofNat
        (shard.entries.filter fun entry ↦ decide (entry.offset ≤ through)).length
      store.predictWrite key now (.streamTrim key through) fun _ ↦ .streamTrimmed removed
    | _ => .rejected (.wrongType .streamShard object.objectType)

/-! ### Transaction operations -/

/-- The checks of a reservation, in the order of the source. -/
def prepareTxnReserve (txn : TxnId) (coordinator : TabletId) (write : TxnWrite) (digest : Digest) :
    Except OpError Mutation :=
  if store.foreignReservation write.key txn digest then .error .txnConflict
  else match checkTxnExpectation write.expect (store.get write.key now) with
  | .error error => .error error
  | .ok _ =>
    match checkTxnWritable write.kind (store.get write.key now) with
    | .error error => .error error
    | .ok _ => .ok (.txnPrepare txn coordinator write.key write.expect write.kind digest)

def finalizedApplied (mutation : Mutation) : StorePrepared :=
  store.predictWrite key now mutation fun version ↦ .txnFinalized true (some version)

def finalizedCreated (mutation : Mutation) : StorePrepared :=
  .write mutation (.txnFinalized true (some .first))

def predictCountedFinalize (mutation : Mutation) (delta : Int64) (expected : ObjectType) :
    StorePrepared :=
  let live := store.get key now
  if live.isNone then finalizedCreated mutation
  else match previewCounterAdd live delta expected with
  | .ok _ => store.finalizedApplied key now mutation
  | .error .counterOverflow => .rejected .counterOverflow
  | .error (.typeMismatch expected found) => .rejected (.wrongType expected found)
  | .error _ => .rejected .txnConflict

def predictFinalizeWrite (mutation : Mutation) (kind : TxnWriteKind) : StorePrepared :=
  match kind with
  | .delete => .write mutation (.txnFinalized true none)
  | .put _ | .putChunked _ _ | .putFabric _ _ _ => store.finalizedApplied key now mutation
  | .counterAdd delta => store.predictCountedFinalize key now mutation delta .strictCounter
  | .commutativeAdd delta => store.predictCountedFinalize key now mutation delta .commutativeCounter
  | .boundedAdd delta =>
    match store.get key now with
    | none => .rejected .boundedExceeded
    | some object =>
      match object.value with
      | .boundedCounter state =>
        match boundedAddPreview state delta with
        | .error error => .rejected error
        | .ok _ => store.finalizedApplied key now mutation
      | _ => .rejected (.wrongType .boundedCounter object.objectType)
  | .escrowSetShare min max =>
    match store.get key now with
    | none => .rejected .boundedExceeded
    | some object =>
      match object.value with
      | .boundedCounter state =>
        if !escrowShareValid state.value state.capacity min max then .rejected .boundedExceeded
        else store.finalizedApplied key now mutation
      | _ => .rejected (.wrongType .boundedCounter object.objectType)

/-- A finalize is predicted from the entry alone; reservations are not read. -/
def predictFinalize (txn : TxnId) (commit : Bool) (write : TxnWrite) (digest : Digest) :
    StorePrepared :=
  let mutation := Mutation.txnFinalize txn key commit write digest
  if !commit then .write mutation (.txnFinalized false none)
  else store.predictFinalizeWrite key now mutation write.kind

/-- The touched keys of a write set, staged into an empty store with their reservations. -/
def stageTouched (writes : List TxnWrite) : ObjectStore :=
  let touched := Std.ExtTreeSet.ofList (writes.map TxnWrite.key)
  touched.toList.foldl
    (fun scratch key ↦
      let scratch := match store.objects[key]? with
        | some object => scratch.putStored key object
        | none => scratch
      match store.intents[key]? with
      | some intent => scratch.insertIntent intent
      | none => scratch)
    .new

/-- A local commit is predicted by running it on the staged keys. -/
def predictLocalCommit (txn : TxnId) (writes : List TxnWrite) : Result OpError StorePrepared :=
  if writes.isEmpty then .ok (.rejected .txnConflict)
  else match (store.stageTouched writes).commitLocal writes now with
  | (.ok _, scratch) =>
    .ok (.write (.txnCommitLocal txn writes)
      (.txnLocalCommitted (scratch.localVersions writes now)))
  | (.err (.validation error), _) => .ok (.rejected error)
  | (.err .exhausted, _) => .ok (.terminal .versionExhausted)
  | (.err (.diverged _), _) => .ok (.rejected .txnConflict)
  | (.panic, _) => .panic

/-- Mutating operations on their key, once no reservation is in the way. -/
def predictOrdinary (op : Operation) : Result OpError StorePrepared :=
  match op with
  | .set key value => .ok (store.predictWrite key now (.putBytes key value) .stored)
  | .setChunked key manifest logicalLen =>
    .ok (store.predictWrite key now (.replaceChunkedRoot key manifest logicalLen) .stored)
  | .setFabric key fabricId logicalLen version =>
    .ok (store.predictWrite key now (.replaceFabricRoot key fabricId logicalLen version) .stored)
  | .setRange key offset patch => store.predictSetRange key now offset patch
  | .delete key => .ok (.write (.delete key) (.deleted (store.get key now).isSome))
  | .counterAdd key delta => .ok (store.predictCounterAdd key now delta)
  | .commutativeAdd key delta => .ok (store.predictCommutativeAdd key now delta)
  | .boundedCounterCreate key capacity holder =>
    .ok (store.predictBoundedCreate key now capacity holder)
  | .boundedCounterAdd key delta => .ok (store.predictBoundedAdd key now delta)
  | .escrowTransfer key newMin newMax => .ok (store.predictEscrowMove key now newMin newMax)
  | .semaphoreCreate key capacity => .ok (store.predictSemaphoreCreate key now capacity)
  | .semaphoreAcquire key permit owner qty =>
    .ok (store.predictSemaphoreAcquire key now permit owner qty)
  | .semaphoreRelease key permit => .ok (store.predictSemaphoreRelease key now permit)
  | .leaseAcquire key owner ttlMicros => .ok (store.predictLeaseAcquire key now owner ttlMicros)
  | .leaseRenew key owner fencing ttlMicros =>
    .ok (store.predictLeaseRenew key now owner fencing ttlMicros)
  | .leaseRelease key owner fencing => .ok (store.predictLeaseRelease key now owner fencing)
  | .streamCreate key stream shard => .ok (store.predictStreamCreate key now stream shard)
  | .streamAppend key partition payload =>
    .ok (store.predictStreamAppend key now partition payload)
  | .streamTrim key throughOffset => .ok (store.predictStreamTrim key now throughOffset)
  | .expireAt key expiresAt => .ok (store.predictExpiry key now (some expiresAt))
  | .persistExpiry key => .ok (store.predictExpiry key now none)
  | .setConditional key value condition policy =>
    .ok (store.predictSetConditional key now value condition policy)
  | .setConditionalChunked key manifest logicalLen condition policy =>
    .ok (store.predictSetConditionalChunked key now manifest logicalLen condition policy)
  | .setConditionalFabric key fabricId logicalLen version condition policy =>
    .ok (store.predictSetConditionalFabric key now ⟨fabricId, logicalLen, version⟩ condition policy)
  -- Read-only operations are answered before; transaction operations dispatch before.
  | _ => .panic

/-- Operations outside the transaction family: the reservation of the key first, then the
operation itself. -/
def prepareOrdinary (op : Operation) : Result OpError StorePrepared :=
  match op.key with
  | none => .panic
  | some key =>
    if op.isMutating && store.intents.contains key then .ok (.rejected .txnConflict)
    else match store.prepareRead now op with
    | some (.ok result) => .ok (.read result)
    | some (.error error) => .err error
    | none => store.predictOrdinary now op

/-- Prepare one operation. -/
def prepareDurable (op : Operation) : Result OpError StorePrepared :=
  match op with
  | .txnPrepare txn coordinator write digest =>
    match store.prepareTxnReserve now txn coordinator write digest with
    | .ok mutation => .ok (.write mutation .txnPrepared)
    | .error error => .ok (.rejected error)
  | .txnFinalize txn key commit write digest =>
    .ok (store.predictFinalize key now txn commit write digest)
  | .txnCommitLocal txn writes => store.predictLocalCommit now txn writes
  | op => store.prepareOrdinary now op

end ObjectStore

end Kivi.State
