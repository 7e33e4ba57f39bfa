import Kivi.Library.Result
import Kivi.State.Operation

/-!
# The object store

The map from keys to stored objects, the optional ordered key index and the table of
reservations, with the checks that preparation and application share. Reads treat an expired
object as absent but never delete it.
-/

namespace Kivi.State

open Library Library.CheckedArith

/-! ### Byte ranges -/

/-- The largest length one allocation can have. -/
def maxAllocation : Nat := 2 ^ 63 - 1

/-- Overwrite `base` from `offset` with `patch`, padding a gap with zeros. An end that is not a
machine word is refused; one past the largest allocation panics. -/
def spliceInline (base : Bytes) (offset : UInt64) (patch : Bytes) :
    Result Unit Bytes :=
  let stop := offset.toNat + patch.length
  if 2 ^ 64 ≤ stop then .err ()
  else if maxAllocation < stop then .panic
  else
    let front := base.take (min offset.toNat base.length)
    let padded := front ++ List.replicate (offset.toNat - front.length) 0
    .ok (padded ++ patch ++ base.drop stop)

/-- The bytes of `base` from `offset`, at most `len` of them. -/
def sliceRange (base : Bytes) (offset len : UInt64) : Bytes :=
  (base.drop offset.toNat).take len.toNat

/-! ### Checks shared by preparation and application -/

def checkTxnExpectation (expect : TxnExpect) (live : Option StoredObject) : Except OpError Unit :=
  let holds : Bool := match expect with
    | .any => true
    | .absent => live.isNone
    | .version version => live.map StoredObject.version == some version
  if holds then .ok () else .error .txnConflict

/-- The value after adding `delta`, if it stays inside the range and the owned share. -/
def boundedAddPreview (state : BoundedCounterState) (delta : Int64) : Except OpError Int64 :=
  match checkedAddI64 state.value delta with
  | none => .error .counterOverflow
  | some next =>
    match i64OfU64 state.capacity with
    | none => .error .boundedExceeded
    | some capacity =>
      if next < 0 ∨ capacity < next then .error .boundedExceeded
      else if next < state.share.min ∨ state.share.max < next then .error .boundedExceeded
      else .ok next

def escrowShareValid (value : Int64) (capacity : UInt64) (min max : Int64) : Bool :=
  match i64OfU64 capacity with
  | none => false
  | some capacity =>
    decide (0 ≤ min ∧ min ≤ max ∧ max ≤ capacity ∧ min ≤ value ∧ value ≤ max)

def checkTxnWritable (kind : TxnWriteKind) (live : Option StoredObject) : Except OpError Unit :=
  match kind with
  | .put _ | .putChunked _ _ | .putFabric _ _ _ | .delete => .ok ()
  | .counterAdd delta =>
    match live.map StoredObject.value with
    | none => .ok ()
    | some (.strictCounter value) =>
      match checkedAddI64 value delta with
      | none => .error .counterOverflow
      | some _ => .ok ()
    | some value => .error (.wrongType .strictCounter value.objectType)
  | .commutativeAdd delta =>
    match live.map StoredObject.value with
    | none => .ok ()
    | some (.commutativeCounter value) =>
      match checkedAddI64 value delta with
      | none => .error .counterOverflow
      | some _ => .ok ()
    | some value => .error (.wrongType .commutativeCounter value.objectType)
  | .boundedAdd delta =>
    match live.map StoredObject.value with
    | none => .error .boundedExceeded
    | some (.boundedCounter state) =>
      match boundedAddPreview state delta with
      | .error error => .error error
      | .ok _ => .ok ()
    | some value => .error (.wrongType .boundedCounter value.objectType)
  | .escrowSetShare min max =>
    match live.map StoredObject.value with
    | none => .error .boundedExceeded
    | some (.boundedCounter state) =>
      if escrowShareValid state.value state.capacity min max then .ok ()
      else .error .boundedExceeded
    | some value => .error (.wrongType .boundedCounter value.objectType)

/-- The counter's current value, when the value is a counter of the expected type. -/
def counterValue (expected : ObjectType) (value : LogicalValue) : Option Int64 :=
  match expected, value with
  | .strictCounter, .strictCounter value => some value
  | .commutativeCounter, .commutativeCounter value => some value
  | _, _ => none

def previewCounterAdd (live : Option StoredObject) (delta : Int64) (expected : ObjectType) :
    Except ApplyError Unit :=
  match live with
  | none => .ok ()
  | some object =>
    match counterValue expected object.value with
    | none => .error (.typeMismatch expected object.objectType)
    | some value =>
      match checkedAddI64 value delta with
      | none => .error .counterOverflow
      | some _ => .ok ()

def maxLeaseTtlMicros : UInt64 := 100 * 365 * 24 * 3600 * 1000000

/-- When a grant made now lapses; a zero duration means never. -/
def leaseExpiresAt (now : WallTimestamp) (ttlMicros : UInt64) : WallTimestamp :=
  if ttlMicros = 0 then maxI64
  else saturatingAddI64 now ((i64OfU64 (min ttlMicros maxLeaseTtlMicros)).getD maxI64)

/-- The holder, while its grant has not lapsed. -/
def leaseLive (state : LeaseState) (now : WallTimestamp) : Option LeaseHolder :=
  state.holder.filter fun holder ↦ decide (now < holder.expiresAt)

/-! ### The store -/

structure ObjectStore where
  objects : Std.ExtTreeMap Key StoredObject
  ordered : Option (Std.ExtTreeSet Key)
  intents : Std.ExtTreeMap Key TxnIntent
deriving DecidableEq

/-- The visible part of a stored entry: itself, unless it has expired. -/
def liveObject (stored : Option StoredObject) (now : WallTimestamp) : Option StoredObject :=
  stored.filter fun object ↦ !object.isExpired now

namespace ObjectStore

/-- The empty store, without an ordered index. -/
def new : ObjectStore := ⟨∅, none, ∅⟩

variable (store : ObjectStore)

def get (key : Key) (now : WallTimestamp) : Option StoredObject :=
  liveObject store.objects[key]? now

def versionOf (key : Key) : ObjectVersion :=
  match store.objects[key]? with
  | none => .first
  | some object => object.version

def expiryOf (key : Key) : Expiry :=
  match store.objects[key]? with
  | none => .never
  | some object => object.expiry

/-- The version of a key gaining new state: the first for absent or expired objects, the
successor for live ones; none when the successor does not exist. -/
def nextVersion (key : Key) (now : WallTimestamp) : Option ObjectVersion :=
  match store.get key now with
  | none => some .first
  | some object => object.version.next

def noteStored (key : Key) : ObjectStore :=
  { store with ordered := store.ordered.map fun index ↦ index.insert key }

def noteRemoved (key : Key) : ObjectStore :=
  { store with ordered := store.ordered.map fun index ↦ index.erase key }

/-- Write one entry of the object map, leaving the ordered index to the caller. -/
def insertObject (key : Key) (object : StoredObject) : ObjectStore :=
  { store with objects := store.objects.insert key object }

def eraseObject (key : Key) : ObjectStore :=
  { store with objects := store.objects.erase key }

def insertIntent (intent : TxnIntent) : ObjectStore :=
  { store with intents := store.intents.insert intent.key intent }

def eraseIntent (key : Key) : ObjectStore :=
  { store with intents := store.intents.erase key }

/-- Install an entry and its index mark. -/
def putStored (key : Key) (object : StoredObject) : ObjectStore :=
  (store.noteStored key).insertObject key object

def setOrderedIndexing (enabled : Bool) : ObjectStore :=
  if enabled then { store with ordered := some (Std.ExtTreeSet.ofList store.objects.keys) }
  else { store with ordered := none }

end ObjectStore

end Kivi.State
