import Kivi.State.Mutation

/-!
# Client operations and their results

Operations state a client's intent; `outcomeFor` turns what an applied mutation did into the
answer the client sees, and is shared by the live path, replay and the replicas' verification.
-/

namespace Kivi.State

open Library Library.Bytes

inductive SetCondition where
  | always
  | ifAbsent
  | ifPresent
deriving DecidableEq

inductive ExpiryPolicy where
  | clear
  | keep
  | expireAt (when : WallTimestamp)
deriving DecidableEq

inductive Operation where
  | get (key : Key)
  | set (key : Key) (value : Bytes)
  | setChunked (key : Key) (manifest : ManifestId) (logicalLen : UInt64)
  | setFabric (key : Key) (fabricId logicalLen version : UInt64)
  | setRange (key : Key) (offset : UInt64) (patch : Bytes)
  | delete (key : Key)
  | «exists» (key : Key)
  | counterGet (key : Key)
  | counterAdd (key : Key) (delta : Int64)
  | expireAt (key : Key) (expiresAt : WallTimestamp)
  | persistExpiry (key : Key)
  | getExpiry (key : Key)
  | getRange (key : Key) (offset len : UInt64)
  | bytesLength (key : Key)
  | getVersion (key : Key)
  | setConditional (key : Key) (value : Bytes) (condition : SetCondition)
      (expiry : ExpiryPolicy)
  | setConditionalChunked (key : Key) (manifest : ManifestId) (logicalLen : UInt64)
      (condition : SetCondition) (expiry : ExpiryPolicy)
  | setConditionalFabric (key : Key) (fabricId logicalLen version : UInt64)
      (condition : SetCondition) (expiry : ExpiryPolicy)
  | txnPrepare (txn : TxnId) (coordinator : TabletId) (write : TxnWrite) (digest : Digest)
  | txnFinalize (txn : TxnId) (key : Key) (commit : Bool) (write : TxnWrite) (digest : Digest)
  | txnCommitLocal (txn : TxnId) (writes : List TxnWrite)
  | commutativeAdd (key : Key) (delta : Int64)
  | commutativeGet (key : Key)
  | boundedCounterCreate (key : Key) (capacity : UInt64) (holder : TabletId)
  | boundedCounterAdd (key : Key) (delta : Int64)
  | boundedCounterGet (key : Key)
  | escrowTransfer (key : Key) (newMin newMax : Int64)
  | semaphoreCreate (key : Key) (capacity : UInt64)
  | semaphoreAcquire (key : Key) (permit : PermitId) (owner qty : UInt64)
  | semaphoreRelease (key : Key) (permit : PermitId)
  | semaphoreInspect (key : Key)
  | leaseAcquire (key : Key) (owner ttlMicros : UInt64)
  | leaseRenew (key : Key) (owner : UInt64) (fencing : FencingToken) (ttlMicros : UInt64)
  | leaseRelease (key : Key) (owner : UInt64) (fencing : FencingToken)
  | leaseInspect (key : Key)
  | streamCreate (key : Key) (stream : FixedBytes 16) (shard : UInt32)
  | streamAppend (key : Key) (partition payload : Bytes)
  | streamRead (key : Key) (fromOffset : UInt64) (maxEntries : UInt32)
  | streamTrim (key : Key) (throughOffset : UInt64)
deriving DecidableEq

namespace Operation

/-- The operation's key, or the first write's key of a local commit; none where the source
panics, on a local commit without writes. -/
def key : Operation → Option Key
  | get key | set key _ | setChunked key _ _ | setFabric key _ _ _ | setRange key _ _
  | delete key | «exists» key | counterGet key | counterAdd key _ | expireAt key _
  | persistExpiry key | getExpiry key | getRange key _ _ | bytesLength key | getVersion key
  | setConditional key _ _ _ | setConditionalChunked key _ _ _ _
  | setConditionalFabric key _ _ _ _ _ | txnFinalize _ key _ _ _ | commutativeAdd key _
  | commutativeGet key | boundedCounterCreate key _ _ | boundedCounterAdd key _
  | boundedCounterGet key | escrowTransfer key _ _ | semaphoreCreate key _
  | semaphoreAcquire key _ _ _ | semaphoreRelease key _ | semaphoreInspect key
  | leaseAcquire key _ _ | leaseRenew key _ _ _ | leaseRelease key _ _ | leaseInspect key
  | streamCreate key _ _ | streamAppend key _ _ | streamRead key _ _ | streamTrim key _ => some key
  | txnPrepare _ _ write _ => some write.key
  | txnCommitLocal _ writes => writes.head?.map TxnWrite.key

/-- Whether the operation may change state. -/
def isMutating : Operation → Bool
  | get _ | «exists» _ | counterGet _ | getExpiry _ | getRange _ _ _ | getVersion _
  | bytesLength _ | commutativeGet _ | boundedCounterGet _ | leaseInspect _
  | semaphoreInspect _ | streamRead _ _ _ => false
  | _ => true

end Operation

inductive OperationResult where
  | value (value : Option Bytes)
  | chunkedValue (manifest : ManifestId) (logicalLen : UInt64)
  | fabricValue (fabricId logicalLen version : UInt64)
  | stored (version : ObjectVersion)
  | deleted (existed : Bool)
  | «exists» (present : Bool)
  | counter (value : Option Int64)
  | counterUpdated (value : Int64) (version : ObjectVersion)
  | expirySet (applied : Bool)
  | expiryPersisted (removed : Bool)
  | expiry (expiry : Option Expiry)
  | length (length : Option UInt64)
  | version (version : Option ObjectVersion)
  | conditionalSet (applied : Bool) (version : Option ObjectVersion)
  | txnPrepared
  | txnConflict
  | txnFinalized (applied : Bool) (version : Option ObjectVersion)
  | txnLocalCommitted (versions : List (Option ObjectVersion))
  | commutativeApplied
  | commutativeValue (value : Option Int64)
  | boundedUpdated (value : Int64) (version : ObjectVersion)
  | boundedValue (value : Option Int64) (capacity : Option UInt64)
      (share : Option (Int64 × Int64))
  | semaphoreAcquired
  | semaphoreReleased (released : Bool)
  | semaphoreLoad (outstanding capacity : UInt64)
  | leaseAcquired (fencing : FencingToken) (expiresAt : WallTimestamp)
  | leaseRenewed (fencing : FencingToken) (expiresAt : WallTimestamp)
  | leaseReleased (released : Bool)
  | leaseInfo (holder : Option LeaseHolder) (nextFencing : FencingToken)
  | streamCreated
  | streamAppended (offset : UInt64)
  | streamEntries (entries : List StreamEntry) (nextOffset : UInt64)
  | streamTrimmed (removed : UInt64)
deriving DecidableEq

inductive OpError where
  | wrongType (expected found : ObjectType)
  | counterOverflow
  | staleRangeBase
  | txnConflict
  | boundedExceeded
  | semaphoreExhausted
  | leaseConflict
  | staleFencing
  | streamFull
  | notFound
deriving DecidableEq

/-- How a request ends without a mutation. -/
inductive DurableOutcome where
  | completed (result : OperationResult)
  | rejected (error : OpError)
  | versionExhausted
deriving DecidableEq

/-- The answers of the typed mutations; none when the mutation is not one of them. -/
def outcomeForSemantic (mutation : Mutation) (outcome : ApplyOutcome) : Option OperationResult :=
  match mutation, outcome with
  | .commutativeAdd _ _, .commutative _ _ => some .commutativeApplied
  | .boundedCreate _ _ _, .put version => some (.stored version)
  | .escrowSetShare _ _ _, .put version => some (.stored version)
  | .semaphoreCreate _ _, .put version => some (.stored version)
  | .boundedAdd _ _, .bounded version value => some (.boundedUpdated value version)
  | .semaphoreAcquire _ _ _ _, .semaphoreAcquired => some .semaphoreAcquired
  | .semaphoreRelease _ _, .semaphoreReleased released => some (.semaphoreReleased released)
  | .leaseAcquire _ _ _ _, .leaseGranted fencing expiresAt =>
    some (.leaseAcquired fencing expiresAt)
  | .leaseRenew _ _ _ _, .leaseGranted fencing expiresAt => some (.leaseRenewed fencing expiresAt)
  | .leaseRelease _ _ _, .leaseReleased released => some (.leaseReleased released)
  | .streamCreate _ _ _, .put _ => some .streamCreated
  | .streamAppend _ _ _, .streamAppended offset => some (.streamAppended offset)
  | .streamTrim _ _, .streamTrimmed removed => some (.streamTrimmed removed)
  | .txnCommitLocal _ _, .txnLocalCommitted versions => some (.txnLocalCommitted versions)
  | _, _ => none

/-- The answers of the remaining mutations; none where the source panics, on a pairing that no
apply produces. -/
def outcomeForLegacy (mutation : Mutation) (outcome : ApplyOutcome) (isPersistExpiry : Bool) :
    Option OperationResult :=
  match mutation, outcome with
  | .putBytes _ _, .put version => some (.stored version)
  | .replaceChunkedRoot _ _ _, .put version => some (.stored version)
  | .replaceFabricRoot _ _ _ _, .put version => some (.stored version)
  | .spliceBytes _ _ _, .put version => some (.stored version)
  | .putBytesWithExpiry _ _ _, .put version => some (.conditionalSet true (some version))
  | .replaceChunkedRootWithExpiry _ _ _ _, .put version =>
    some (.conditionalSet true (some version))
  | .replaceFabricRootWithExpiry _ _ _ _ _, .put version =>
    some (.conditionalSet true (some version))
  | .delete _, .deleted existed => some (.deleted existed)
  | .counterAdd _ _, .counter version value => some (.counterUpdated value version)
  | .setExpiry _ _, .expiry applied _ =>
    some (if isPersistExpiry then .expiryPersisted applied else .expirySet applied)
  | .txnPrepare _ _ _ _ _ _, .txnPrepared => some .txnPrepared
  | .txnPrepare _ _ _ _ _ _, .txnConflict => some .txnConflict
  | .txnFinalize _ _ _ _ _, .txnFinalized applied version => some (.txnFinalized applied version)
  | .txnFinalize _ _ _ _ _, .put version => some (.txnFinalized true (some version))
  | .txnFinalize _ _ _ _ _, .counter version _ => some (.txnFinalized true (some version))
  | .txnFinalize _ _ _ _ _, .deleted _ => some (.txnFinalized true none)
  | _, _ => none

/-- The client's answer for an applied mutation; none where the source panics. -/
def outcomeFor (mutation : Mutation) (outcome : ApplyOutcome) (isPersistExpiry : Bool) :
    Option OperationResult :=
  match outcomeForSemantic mutation outcome with
  | some result => some result
  | none => outcomeForLegacy mutation outcome isPersistExpiry

end Kivi.State
