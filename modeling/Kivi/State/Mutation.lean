import Kivi.State.Txn

/-!
# The replicated mutation language

Mutations are the only way state changes: the proposer materialises every choice, and each
replica applies the same mutation at the same timestamp. `Mutation.keys` lists the keys a
mutation touches; only a local commit touches several.
-/

namespace Kivi.State

open Library Library.Bytes

inductive Mutation where
  | putBytes (key : Key) (value : Bytes)
  | delete (key : Key)
  | counterAdd (key : Key) (delta : Int64)
  | setExpiry (key : Key) (expiry : Expiry)
  | replaceChunkedRoot (key : Key) (manifest : ManifestId) (logicalLen : UInt64)
  | replaceFabricRoot (key : Key) (fabricId logicalLen version : UInt64)
  | spliceBytes (key : Key) (offset : UInt64) (patch : Bytes)
  | putBytesWithExpiry (key : Key) (value : Bytes) (expiry : Expiry)
  | replaceChunkedRootWithExpiry (key : Key) (manifest : ManifestId) (logicalLen : UInt64)
      (expiry : Expiry)
  | replaceFabricRootWithExpiry (key : Key) (fabricId logicalLen version : UInt64)
      (expiry : Expiry)
  | txnPrepare (txn : TxnId) (coordinator : TabletId) (key : Key) (expect : TxnExpect)
      (write : TxnWriteKind) (digest : Digest)
  | txnFinalize (txn : TxnId) (key : Key) (commit : Bool) (write : TxnWrite) (digest : Digest)
  | txnCommitLocal (txn : TxnId) (writes : List TxnWrite)
  | commutativeAdd (key : Key) (delta : Int64)
  | boundedCreate (key : Key) (capacity : UInt64) (holder : TabletId)
  | boundedAdd (key : Key) (delta : Int64)
  | escrowSetShare (key : Key) (min max : Int64)
  | semaphoreCreate (key : Key) (capacity : UInt64)
  | semaphoreAcquire (key : Key) (permit : PermitId) (owner qty : UInt64)
  | semaphoreRelease (key : Key) (permit : PermitId)
  | leaseAcquire (key : Key) (owner : UInt64) (fencing : FencingToken)
      (expiresAt : WallTimestamp)
  | leaseRenew (key : Key) (owner : UInt64) (fencing : FencingToken) (expiresAt : WallTimestamp)
  | leaseRelease (key : Key) (owner : UInt64) (fencing : FencingToken)
  | streamCreate (key : Key) (stream : FixedBytes 16) (shard : UInt32)
  | streamAppend (key : Key) (partition payload : Bytes)
  | streamTrim (key : Key) (through : UInt64)
deriving DecidableEq

namespace Mutation

/-- The keys a mutation touches, in request order and without repeats. -/
def keys : Mutation → List Key
  | putBytes key _ | delete key | counterAdd key _ | setExpiry key _
  | replaceChunkedRoot key _ _ | replaceFabricRoot key _ _ _ | spliceBytes key _ _
  | putBytesWithExpiry key _ _ | replaceChunkedRootWithExpiry key _ _ _
  | replaceFabricRootWithExpiry key _ _ _ _ | txnPrepare _ _ key _ _ _
  | txnFinalize _ key _ _ _ | commutativeAdd key _ | boundedCreate key _ _
  | boundedAdd key _ | escrowSetShare key _ _ | semaphoreCreate key _
  | semaphoreAcquire key _ _ _ | semaphoreRelease key _ | leaseAcquire key _ _ _
  | leaseRenew key _ _ _ | leaseRelease key _ _ | streamCreate key _ _
  | streamAppend key _ _ | streamTrim key _ => [key]
  | txnCommitLocal _ writes => (writes.map TxnWrite.key).dedup

/-- The mutation's key, or the first write's key of a local commit; none where the source
panics, on a local commit without writes. -/
def key (mutation : Mutation) : Option Key :=
  match mutation with
  | txnCommitLocal _ writes => writes.head?.map TxnWrite.key
  | _ => mutation.keys.head?

/-- The key of an ordinary mutation: one that goes through neither transaction phase. -/
def ordinaryKey : Mutation → Option Key
  | txnPrepare _ _ _ _ _ _ | txnFinalize _ _ _ _ _ | txnCommitLocal _ _ => none
  | mutation => mutation.key

end Mutation

/-- What one applied mutation did. -/
inductive ApplyOutcome where
  | put (version : ObjectVersion)
  | deleted (existed : Bool)
  | counter (version : ObjectVersion) (value : Int64)
  | expiry (applied : Bool) (version : Option ObjectVersion)
  | txnPrepared
  | txnConflict
  | txnFinalized (applied : Bool) (version : Option ObjectVersion)
  | commutative (version : ObjectVersion) (value : Int64)
  | bounded (version : ObjectVersion) (value : Int64)
  | semaphoreAcquired
  | semaphoreReleased (released : Bool)
  | leaseGranted (fencing : FencingToken) (expiresAt : WallTimestamp)
  | leaseReleased (released : Bool)
  | streamAppended (offset : UInt64)
  | streamTrimmed (removed : UInt64)
  | txnLocalCommitted (versions : List (Option ObjectVersion))
deriving DecidableEq

inductive ApplyError where
  | versionExhausted
  | counterOverflow
  | typeMismatch (expected found : ObjectType)
  | unresolvableSplice
  | txnDiverged
  | boundedExceeded
  | semaphoreExhausted
  | leaseConflict
  | streamFull
deriving DecidableEq

end Kivi.State
