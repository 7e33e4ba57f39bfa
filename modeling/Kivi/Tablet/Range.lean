import Kivi.Library.BitPrefix
import Kivi.Library.HalfOpen
import Kivi.State.Object

/-!
# Partition ranges

A tablet owns a node of the tree of partition hashes or a half-open interval of keys. Both kinds
of range are built by a checked constructor only, so that no prefix has bits beyond its length and
no interval is empty, and the overlap test of the directory is then exactly that some hash or some
key lies in both ranges.
-/

namespace Kivi.Tablet

open Library State

/-- A hash of a key, 128 bits. -/
abbrev PartitionHash := BitVec 128

inductive RangeError where
  | prefixTooLong (len : UInt8)
  | prefixUncanonical (bits : BitVec 128) (len : UInt8)
  | emptyOrderedRange
  | invalidSplitKey
  | notAdjacent
deriving DecidableEq

def maxPrefixLen : UInt8 := 128

/-! ### Hash prefixes -/

/-- The bits below a prefix of the given length. -/
def insignificant (len : UInt8) : BitVec 128 :=
  if len = maxPrefixLen then 0 else BitVec.allOnes 128 >>> len.toNat

/-- The hashes whose top bits are given. -/
structure HashPrefix where
  bits : BitVec 128
  len : UInt8
  len_le : len ≤ maxPrefixLen
  canonical : bits &&& insignificant len = 0
deriving DecidableEq

namespace HashPrefix

def new (bits : BitVec 128) (len : UInt8) : Except RangeError HashPrefix :=
  if hlong : maxPrefixLen < len then .error (.prefixTooLong len)
  else if hroot : len = 0 then
    if hbits : bits = 0 then
      .ok ⟨bits, len, UInt8.not_lt.mp hlong, by rw [hbits]; exact BitVec.zero_and⟩
    else .error (.prefixUncanonical bits len)
  else if hbits : bits &&& insignificant len = 0 then
    .ok ⟨bits, len, UInt8.not_lt.mp hlong, hbits⟩
  else .error (.prefixUncanonical bits len)

def check (node : HashPrefix) : Except RangeError Unit :=
  (new node.bits node.len).map fun _ ↦ ()

def contains (node : HashPrefix) (hash : PartitionHash) : Bool :=
  if node.len = 0 then true
  else
    let shift := maxPrefixLen - node.len
    hash >>> shift.toNat == node.bits >>> shift.toNat

def overlaps (node other : HashPrefix) : Bool :=
  let common := min node.len other.len
  if common = 0 then true
  else
    let shift := maxPrefixLen - common
    node.bits >>> shift.toNat == other.bits >>> shift.toNat

end HashPrefix

/-! ### Key intervals -/

/-- The keys from `start` up to but not including `stop`, or without an end. -/
structure OrderedRange where
  start : Key
  stop : Option Key
  below_stop : HalfOpen.below start stop = true
deriving DecidableEq

namespace OrderedRange

def new (start : Key) (stop : Option Key) : Except RangeError OrderedRange :=
  if h : HalfOpen.below start stop = true then .ok ⟨start, stop, h⟩
  else .error .emptyOrderedRange

def check (range : OrderedRange) : Except RangeError Unit :=
  (new range.start range.stop).map fun _ ↦ ()

def contains (range : OrderedRange) (key : Key) : Bool :=
  if HalfOpen.precedes key range.start then false else HalfOpen.below key range.stop

def overlaps (range other : OrderedRange) : Bool :=
  HalfOpen.below range.start other.stop && HalfOpen.below other.start range.stop

end OrderedRange

/-! ### Ranges of either kind -/

inductive PartitionKind where
  | hash
  | ordered
deriving DecidableEq

inductive PartitionRange where
  | hash (node : HashPrefix)
  | ordered (range : OrderedRange)
deriving DecidableEq

namespace PartitionRange

def kind : PartitionRange → PartitionKind
  | .hash _ => .hash
  | .ordered _ => .ordered

def check : PartitionRange → Except RangeError Unit
  | .hash node => node.check
  | .ordered range => range.check

def containsHash (range : PartitionRange) (hash : PartitionHash) : Bool :=
  match range with
  | .hash node => node.contains hash
  | .ordered _ => false

def containsKey (range : PartitionRange) (key : Key) : Bool :=
  match range with
  | .hash _ => false
  | .ordered range => range.contains key

def overlaps : PartitionRange → PartitionRange → Bool
  | .hash node, .hash other => node.overlaps other
  | .ordered range, .ordered other => range.overlaps other
  | _, _ => false

end PartitionRange

/-! ### The sets that ranges denote -/

theorem toNat_maxPrefixLen_sub {len : UInt8} (h : len ≤ maxPrefixLen) :
    (maxPrefixLen - len).toNat = 128 - len.toNat :=
  UInt8.toNat_sub_of_le _ _ h

theorem toNat_min (first second : UInt8) :
    (min first second).toNat = min first.toNat second.toNat := by
  show (if first ≤ second then first else second).toNat = _
  split_ifs with hle
  · rw [min_eq_left (UInt8.le_iff_toNat_le.mp hle)]
  · rw [min_eq_right (Nat.le_of_not_le fun h ↦ hle (UInt8.le_iff_toNat_le.mpr h))]

namespace HashPrefix

theorem contains_eq (node : HashPrefix) (hash : PartitionHash) :
    node.contains hash = BitPrefix.agree node.len.toNat hash node.bits := by
  rw [contains]
  split_ifs with hroot
  · rw [hroot]
    exact (BitPrefix.agree_zero _ _).symm
  · show (hash >>> (maxPrefixLen - node.len).toNat ==
      node.bits >>> (maxPrefixLen - node.len).toNat) = _
    rw [toNat_maxPrefixLen_sub node.len_le]
    rfl

theorem overlaps_eq (node other : HashPrefix) :
    node.overlaps other =
      BitPrefix.agree (min node.len.toNat other.len.toNat) node.bits other.bits := by
  have hcommon : (min node.len other.len).toNat = min node.len.toNat other.len.toNat :=
    toNat_min _ _
  have hle : min node.len other.len ≤ maxPrefixLen := by
    rw [UInt8.le_iff_toNat_le, hcommon]
    exact (min_le_left _ _).trans (UInt8.le_iff_toNat_le.mp node.len_le)
  rw [overlaps, ← hcommon]
  by_cases hroot : min node.len other.len = 0
  · rw [if_pos hroot, hroot]
    exact (BitPrefix.agree_zero _ _).symm
  · rw [if_neg hroot]
    show (node.bits >>> (maxPrefixLen - min node.len other.len).toNat ==
      other.bits >>> (maxPrefixLen - min node.len other.len).toNat) = _
    rw [toNat_maxPrefixLen_sub hle]
    rfl

/-- Two nodes overlap exactly if some hash lies under both. -/
theorem overlaps_iff (node other : HashPrefix) : node.overlaps other = true ↔
    ∃ hash, node.contains hash = true ∧ other.contains hash = true := by
  simp only [overlaps_eq, contains_eq, BitPrefix.exists_agree_iff]

end HashPrefix

namespace OrderedRange

theorem contains_eq (range : OrderedRange) (key : Key) :
    range.contains key = HalfOpen.inside range.start range.stop key := by
  rw [contains, HalfOpen.inside]
  cases HalfOpen.precedes key range.start <;> rfl

/-- Two intervals overlap exactly if some key lies in both. -/
theorem overlaps_iff (range other : OrderedRange) : range.overlaps other = true ↔
    ∃ key, range.contains key = true ∧ other.contains key = true := by
  simp only [overlaps, contains_eq, Bool.and_eq_true,
    HalfOpen.exists_inside_iff range.below_stop other.below_stop]

end OrderedRange

namespace PartitionRange

/-- Two ranges overlap exactly if some hash or some key lies in both. -/
theorem overlaps_iff_exists (range other : PartitionRange) : range.overlaps other = true ↔
    (∃ hash, range.containsHash hash = true ∧ other.containsHash hash = true) ∨
      ∃ key, range.containsKey key = true ∧ other.containsKey key = true := by
  cases range with
  | hash node =>
    cases other with
    | hash other => simp [overlaps, containsHash, containsKey, HashPrefix.overlaps_iff]
    | ordered other => simp [overlaps, containsHash, containsKey]
  | ordered range =>
    cases other with
    | hash other => simp [overlaps, containsHash, containsKey]
    | ordered other => simp [overlaps, containsHash, containsKey, OrderedRange.overlaps_iff]

theorem overlaps_comm (range other : PartitionRange) :
    range.overlaps other = other.overlaps range := by
  rw [Bool.eq_iff_iff, overlaps_iff_exists, overlaps_iff_exists]
  simp only [and_comm]

end PartitionRange

end Kivi.Tablet
