import Kivi.State.Encoding
import Kivi.State.IndexKeys
import Kivi.State.Store

/-!
# Range scans

One page of a scan over the ordered key index, bounded by a number of entries and by inline value
bytes. A page looks at one key more than it may list, passes over system keys, index entries and
expired objects, and reports whether the range is exhausted. Windows that name one index term, or
a range of terms, list the entries of those terms instead.
-/

namespace Kivi.State

open Library Library.Bytes

/-! ### Requests and pages -/

inductive ScanDirection where
  | forward
  | reverse
deriving DecidableEq

inductive ScanProjection where
  | keysOnly
  | keysAndValues
deriving DecidableEq

inductive ScanError where
  | orderedIndexDisabled
  | invalidLimit
  | emptyRange
deriving DecidableEq

/-- One page request over the keys from `start` up to but not including `stop`. -/
structure ScanSpec where
  start : Option Bytes
  stop : Option Bytes
  direction : ScanDirection
  maxItems : Nat
  maxBytes : Nat
  projection : ScanProjection
deriving DecidableEq

inductive ScannedValue where
  | inline (value : Bytes)
  | counter (value : Int64)
  | chunked (manifest : ManifestId) (logicalLen : UInt64)
  | fabric (fabricId logicalLen version : UInt64)
  | oversize (logicalLen : Nat)
  | semantic (object : ObjectType) (descriptor : Bytes)
deriving DecidableEq

structure ScanEntry where
  key : Key
  value : Option ScannedValue
deriving DecidableEq

structure ScanPage where
  entries : List ScanEntry
  exhausted : Bool
  lastKey : Option Key
deriving DecidableEq

/-- One term of an index. -/
structure IndexTermCursor where
  index : IndexId
  term : Bytes
deriving DecidableEq

/-- The terms of an index from one up to but not including another. -/
structure IndexTermRangeCursor where
  index : IndexId
  startTerm : Bytes
  endTerm : Bytes
deriving DecidableEq

/-- Byte order of keys. -/
def bytesLt (first second : Bytes) : Bool := compare first second == .lt

namespace ScanSpec

variable (spec : ScanSpec)

/-- The key is not below the range. -/
def fromStart (key : Key) : Bool :=
  match spec.start with
  | some lower => !bytesLt key lower
  | none => true

/-- The key is not above the range. -/
def beforeStop (key : Key) : Bool :=
  match spec.stop with
  | some upper => bytesLt key upper
  | none => true

def contains (key : Key) : Bool := spec.fromStart key && spec.beforeStop key

/-- The term that the window names, when it is exactly the keys of one term. -/
def indexTerm : Option IndexTermCursor :=
  match spec.direction, spec.start, spec.stop with
  | .forward, some start, some stop =>
    match termPrefixParts start with
    | some (index, term) =>
      if start = termPrefix index term ∧ some stop = prefixSuccessor start then some ⟨index, term⟩
      else none
    | none => none
  | _, _, _ => none

/-- The terms that the window names, when its ends are two terms of one index. -/
def indexTermRange : Option IndexTermRangeCursor :=
  match spec.direction, spec.start, spec.stop with
  | .forward, some start, some stop =>
    match termPrefixParts start, termPrefixParts stop with
    | some (index, startTerm), some (endIndex, endTerm) =>
      if index = endIndex ∧ start = termPrefix index startTerm ∧
          stop = termPrefix index endTerm ∧ bytesLt startTerm endTerm then
        some ⟨index, startTerm, endTerm⟩
      else none
    | _, _ => none
  | _, _, _ => none

end ScanSpec

/-! ### One page -/

/-- The small descriptor of a semantic value; byte values and counters have none. -/
def LogicalValue.scanDescriptor : LogicalValue → Option (ObjectType × Bytes)
  | .bytes _ | .chunked _ | .fabric _ | .strictCounter _ => none
  | .commutativeCounter value => some (.commutativeCounter, leI64 value)
  | .boundedCounter state => some (.boundedCounter, state.encode)
  | .semaphore state =>
    some (.semaphore, (leU64 state.capacity).bytes ++ (leU64 state.outstanding).bytes ++
      leBytes 8 state.permits.size)
  | .lease state => some (.lease, state.encode)
  | .streamShard shard =>
    some (.streamShard, shard.stream.bytes ++ leBytes 4 shard.shard.toNat ++
      (leU64 shard.nextOffset).bytes ++ leBytes 8 shard.entries.length)

/-- What a page carries of one value, and the inline bytes used after it; none if the value does
not fit and the page already has entries. -/
def ScanSpec.project (spec : ScanSpec) (first : Bool) (used : Nat) (value : LogicalValue) :
    Option (Option ScannedValue × Nat) :=
  match spec.projection with
  | .keysOnly => some (none, used)
  | .keysAndValues =>
    match value with
    | .bytes bytes =>
      if used + bytes.length ≤ spec.maxBytes then
        some (some (.inline bytes), used + bytes.length)
      else if first then some (some (.oversize bytes.length), used)
      else none
    | .strictCounter counter => some (some (.counter counter), used + 8)
    | .chunked reference => some (some (.chunked reference.manifest reference.logicalLen), used)
    | .fabric reference =>
      some (some (.fabric reference.id reference.logicalLen reference.version), used)
    | value =>
      -- Only semantic values are left, and each of them has a descriptor.
      match value.scanDescriptor with
      | some (object, descriptor) =>
        some (some (.semantic object descriptor), used + descriptor.length)
      | none => none

/-- Fill a page from candidates, each with the object to list or nothing to skip it. -/
def ScanSpec.fillPage (spec : ScanSpec) :
    List (Key × Option StoredObject) → List ScanEntry → Nat → Option Key → ScanPage
  | [], entries, _, lastKey => ⟨entries, true, lastKey⟩
  | (key, listed) :: rest, entries, used, lastKey =>
    if spec.maxItems ≤ entries.length then ⟨entries, false, lastKey⟩
    else match listed with
    | none => spec.fillPage rest entries used lastKey
    | some object =>
      match spec.project entries.isEmpty used object.value with
      | none => ⟨entries, false, lastKey⟩
      | some (value, used) => spec.fillPage rest (entries ++ [⟨key, value⟩]) used (some key)

/-- The page of matches that are all listed, of which at most one too many is looked at. -/
def ScanSpec.pageSortedMatches (spec : ScanSpec) (matched : List (Key × StoredObject)) :
    ScanPage :=
  spec.fillPage ((matched.take (spec.maxItems + 1)).map fun (key, object) ↦ (key, some object))
    [] 0 none

namespace ObjectStore

/-- The keys of a range in scan order. -/
def rangeKeys (ordered : Std.ExtTreeSet Key) (spec : ScanSpec) : List Key :=
  match spec.direction with
  | .forward => (ordered.toList.filter spec.fromStart).takeWhile spec.beforeStop
  | .reverse => (ordered.toList.filter spec.beforeStop).reverse.takeWhile spec.fromStart

/-- The keys that one page looks at. -/
def scanCandidates (ordered : Std.ExtTreeSet Key) (spec : ScanSpec) : List Key :=
  (rangeKeys ordered spec).take (spec.maxItems + 1)

/-- The object that a range scan lists under a key. Non-unique index entries are left to term
lookups. -/
def listed (store : ObjectStore) (now : WallTimestamp) (key : Key) : Option StoredObject :=
  if Key.isSystem key then none
  else if isIndexKey key && (parseIndexPrimary key).isSome then none
  else store.get key now

/-- The live entries whose index and term the window names, in key order. -/
def liveEntries (store : ObjectStore) (ordered : Std.ExtTreeSet Key)
    (names : IndexId → Bytes → Bool) (now : WallTimestamp) :
    List (Key × Bytes × StoredObject) :=
  ordered.toList.filterMap fun key ↦
    if Key.isSystem key then none
    else match decodeNonUniqueKey key with
    | .error _ => none
    | .ok (index, term, _) =>
      if names index term then (store.get key now).map fun object ↦ (key, term, object) else none

end ObjectStore

def IndexTermCursor.names (cursor : IndexTermCursor) (index : IndexId) (term : Bytes) :
    Bool :=
  decide (index = cursor.index ∧ term = cursor.term)

def IndexTermRangeCursor.names (cursor : IndexTermRangeCursor) (index : IndexId)
    (term : Bytes) : Bool :=
  decide (index = cursor.index) && !bytesLt term cursor.startTerm && bytesLt term cursor.endTerm

namespace ObjectStore

variable (store : ObjectStore) (ordered : Std.ExtTreeSet Key)

/-- One page of the entries of one term. -/
def scanIndexTerm (cursor : IndexTermCursor) (spec : ScanSpec) (now : WallTimestamp) : ScanPage :=
  spec.pageSortedMatches
    ((store.liveEntries ordered cursor.names now).map fun (key, _, object) ↦ (key, object))

/-- One page of the entries of a range of terms, by term and then by key. -/
def scanIndexTermRange (cursor : IndexTermRangeCursor) (spec : ScanSpec) (now : WallTimestamp) :
    ScanPage :=
  let sorted := (store.liveEntries ordered cursor.names now).mergeSort fun first second ↦
    (compare first.2.1 second.2.1).then (compare first.1 second.1) |>.isLE
  spec.pageSortedMatches (sorted.map fun (key, _, object) ↦ (key, object))

/-- One page of a scan. -/
def scanRange (spec : ScanSpec) (now : WallTimestamp) : Except ScanError ScanPage :=
  match store.ordered with
  | none => .error .orderedIndexDisabled
  | some ordered =>
    match spec.indexTerm with
    | some cursor => .ok (store.scanIndexTerm ordered cursor spec now)
    | none =>
      match spec.indexTermRange with
      | some cursor => .ok (store.scanIndexTermRange ordered cursor spec now)
      | none =>
        .ok (spec.fillPage
          ((scanCandidates ordered spec).map fun key ↦ (key, store.listed now key)) [] 0 none)

end ObjectStore

end Kivi.State
