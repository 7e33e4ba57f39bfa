import Kivi.Library.CheckedArith
import Kivi.Library.Bytes

/-!
# Logical objects

Keys, versions, typed values and their metadata. A stored object is a value with a version and
an expiry; its physical representation tag is a function of the value and is left out.
-/

namespace Kivi.State

open Library Library.CheckedArith Library.Bytes

/-! ### Keys, times and identities -/

/-- A key is an arbitrary byte string, ordered lexicographically. -/
abbrev Key := Bytes

/-- The first byte of the keys that hold reserved system state. -/
def Key.systemPrefix : UInt8 := 0xFF

/-- Wall time in microseconds, as the proposer materialised it. -/
abbrev WallTimestamp := Int64

abbrev TabletId := UInt64
abbrev ManifestId := FixedBytes 32
abbrev permitIdLen : Nat := 16
abbrev PermitId := FixedBytes permitIdLen

/-- When an object stops being visible, if ever. -/
@[ext]
structure Expiry where
  deadline : Option WallTimestamp
deriving DecidableEq

namespace Expiry

def never : Expiry := ⟨none⟩

def expiresAt (when : WallTimestamp) : Expiry := ⟨some when⟩

/-- An object is gone from its deadline on, the deadline included. -/
def isExpired (expiry : Expiry) (now : WallTimestamp) : Bool :=
  match expiry.deadline with
  | none => false
  | some when => decide (when ≤ now)

/-- Expired objects stay expired as time passes. -/
theorem isExpired_mono {expiry : Expiry} {now later : WallTimestamp} (hle : now ≤ later)
    (h : expiry.isExpired now = true) : expiry.isExpired later = true := by
  unfold isExpired at h ⊢
  cases hd : expiry.deadline with
  | none => simp [hd] at h
  | some when =>
    simp only [hd, decide_eq_true_eq] at h ⊢
    exact Int64.le_trans h hle

end Expiry

/-- The per-object version. -/
@[ext]
structure ObjectVersion where
  asU64 : UInt64
deriving DecidableEq

namespace ObjectVersion

def first : ObjectVersion := ⟨1⟩

/-- The version after this one; none at the top word, since versions never wrap. -/
def next (version : ObjectVersion) : Option ObjectVersion :=
  (checkedAddU64 version.asU64 1).map ObjectVersion.mk

theorem next_eq_some_iff {version later : ObjectVersion} :
    version.next = some later ↔ version.asU64.toNat + 1 = later.asU64.toNat := by
  unfold next
  rw [Option.map_eq_some_iff]
  constructor
  · rintro ⟨word, hword, rfl⟩
    exact checkedAddU64_eq_some_iff.mp hword
  · intro h
    exact ⟨later.asU64, checkedAddU64_eq_some_iff.mpr h, rfl⟩

theorem next_eq_none_iff {version : ObjectVersion} :
    version.next = none ↔ version.asU64 = maxU64 := by
  have hlt := version.asU64.toNat_lt
  rw [next, Option.map_eq_none_iff, checkedAddU64_eq_none_iff, ← UInt64.toNat_inj, toNat_maxU64]
  change 2 ^ 64 ≤ version.asU64.toNat + 1 ↔ _
  omega

end ObjectVersion

/-! ### Typed values -/

inductive ObjectType where
  | bytes
  | strictCounter
  | commutativeCounter
  | boundedCounter
  | semaphore
  | lease
  | streamShard
deriving DecidableEq

/-- A value held as a chunk manifest. -/
structure ChunkedRef where
  manifest : ManifestId
  logicalLen : UInt64
deriving DecidableEq

/-- A value held by the memory fabric, tagged with the object version it belongs to. -/
structure FabricRef where
  id : UInt64
  logicalLen : UInt64
  version : UInt64
deriving DecidableEq

/-- The interval of a bounded counter one tablet may spend without coordinating. -/
@[ext]
structure EscrowShare where
  holder : TabletId
  min : Int64
  max : Int64
deriving DecidableEq

structure BoundedCounterState where
  value : Int64
  capacity : UInt64
  share : EscrowShare
deriving DecidableEq

/-- Rights are well formed and cover the value. -/
def BoundedCounterState.invariantHolds (state : BoundedCounterState) : Bool :=
  match i64OfU64 state.capacity with
  | none => false
  | some cap =>
    decide (0 ≤ state.share.min ∧ state.share.min ≤ state.value ∧
      state.value ≤ state.share.max ∧ state.share.max ≤ cap)

structure PermitRecord where
  owner : UInt64
  qty : UInt64
deriving DecidableEq

def maxSemaphorePermits : Nat := 4096

structure SemaphoreState where
  capacity : UInt64
  permits : Std.ExtTreeMap PermitId PermitRecord
deriving DecidableEq

namespace SemaphoreState

/-- The permits' quantities, in permit order. -/
def quantities (state : SemaphoreState) : List UInt64 :=
  state.permits.toList.map fun permit ↦ permit.2.qty

/-- Total outstanding quantity, saturating at the top word. -/
def outstanding (state : SemaphoreState) : UInt64 := saturatingSumU64 state.quantities

def invariantHolds (state : SemaphoreState) : Bool :=
  decide (state.outstanding ≤ state.capacity)

end SemaphoreState

/-- A token that advances with every ownership change. -/
@[ext]
structure FencingToken where
  asU64 : UInt64
deriving DecidableEq

/-- The token of the next grant; none at the top word. -/
def FencingToken.next (token : FencingToken) : Option FencingToken :=
  (checkedAddU64 token.asU64 1).map FencingToken.mk

structure LeaseHolder where
  owner : UInt64
  fencing : FencingToken
  expiresAt : WallTimestamp
deriving DecidableEq

structure LeaseState where
  holder : Option LeaseHolder
  nextFencing : FencingToken
deriving DecidableEq

def maxStreamShardEntries : Nat := 1024
def maxStreamEntryBytes : Nat := 64 * 1024

structure StreamEntry where
  offset : UInt64
  partition : Bytes
  payload : Bytes
deriving DecidableEq

/-- One shard of a stream; retained entries are oldest first. -/
structure StreamShardState where
  stream : FixedBytes 16
  shard : UInt32
  nextOffset : UInt64
  entries : List StreamEntry
deriving DecidableEq

inductive LogicalValue where
  | bytes (value : Bytes)
  | chunked (root : ChunkedRef)
  | fabric (root : FabricRef)
  | strictCounter (value : Int64)
  | commutativeCounter (value : Int64)
  | boundedCounter (state : BoundedCounterState)
  | semaphore (state : SemaphoreState)
  | lease (state : LeaseState)
  | streamShard (state : StreamShardState)
deriving DecidableEq

/-- The three physical forms of a byte value are one logical type. -/
def LogicalValue.objectType : LogicalValue → ObjectType
  | .bytes _ | .chunked _ | .fabric _ => .bytes
  | .strictCounter _ => .strictCounter
  | .commutativeCounter _ => .commutativeCounter
  | .boundedCounter _ => .boundedCounter
  | .semaphore _ => .semaphore
  | .lease _ => .lease
  | .streamShard _ => .streamShard

structure StoredObject where
  value : LogicalValue
  version : ObjectVersion
  expiry : Expiry
deriving DecidableEq

namespace StoredObject

def objectType (object : StoredObject) : ObjectType := object.value.objectType

def isExpired (object : StoredObject) (now : WallTimestamp) : Bool := object.expiry.isExpired now

end StoredObject

/-- The root a range write was staged against. -/
inductive RangeRoot (ρ : Type) where
  | absent
  | nonBytes
  | inline
  | chunked (reference : ρ)
  | fabric (reference : FabricRef)
deriving DecidableEq

structure RangeRootFence (ρ : Type) where
  objectVersion : Option ObjectVersion
  root : RangeRoot ρ
deriving DecidableEq

/-- Whether the live object still is the fenced root. -/
def RangeRootFence.matches (fence : RangeRootFence ChunkedRef) (current : Option StoredObject) :
    Bool :=
  match current with
  | none => decide (fence.root = .absent) && fence.objectVersion.isNone
  | some object =>
    decide (fence.objectVersion = some object.version) &&
      match fence.root, object.value with
      | .absent, _ => false
      | .nonBytes, .bytes _ | .nonBytes, .chunked _ | .nonBytes, .fabric _ => false
      | .nonBytes, _ => true
      | .inline, .bytes _ => true
      | .chunked reference, .chunked held => decide (held = reference)
      | .fabric reference, .fabric held => decide (held = reference)
      | _, _ => false

end Kivi.State
