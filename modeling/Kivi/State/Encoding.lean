import Kivi.Library.Codec
import Kivi.Library.LastWins
import Kivi.State.Object

/-!
# Canonical bytes of typed states

The little-endian encodings that object states share between snapshots, records and scan
descriptors. An encoder that writes a length-prefixed blob panics above the frame bound, and so
gives no bytes there. Every decoder has a lemma that it reads back what its encoder wrote; the
states whose decoder checks more than the encoder does (`SemaphoreState`, `StreamShardState`) are
read back when they pass those checks.
-/

namespace Kivi.State

open Library Library.Bytes Library.Codec Library.Codec.Decoder

/-! ### Primitives -/

def maxFrameBytes : Nat := 16 * 1024 * 1024

inductive CodecError where
  | truncated (expected available : Nat)
  | trailingBytes (consumed total : Nat)
  | tooLarge (len max : Nat)
  | invalidBoolEncoding (byte : UInt8)
  | invalidTag (kind : String) (tag : UInt8)
deriving DecidableEq

/-- Decoders that report codec errors. -/
abbrev Decode (α : Type) := Decoder CodecError α

def decodeArray (n : Nat) : Decode (FixedBytes n) := fixed n (.truncated n)

def decodeU8 : Decode UInt8 := byte (.truncated 1)

def decodeU16 : Decode UInt16 := word16 (.truncated 2)

def decodeU32 : Decode UInt32 := word32 (.truncated 4)

def decodeU64 : Decode UInt64 := word64 (.truncated 8)

def decodeI64 : Decode Int64 := signed64 (.truncated 8)

/-- The eight little-endian bytes of a signed word. -/
def leI64 (word : Int64) : Bytes := (leU64 word.toUInt64).bytes

/-- A length as a 32-bit word, the top word standing for every longer one. -/
def u32OfLength (length : Nat) : UInt32 :=
  if length < 2 ^ 32 then UInt32.ofNat length else 0xFFFFFFFF

def leU32 (word : UInt32) : Bytes := leBytes 4 word.toNat

@[simp] theorem length_leI64 (word : Int64) : (leI64 word).length = 8 := FixedBytes.length_eq _

@[simp] theorem length_leU32 (word : UInt32) : (leU32 word).length = 4 := length_leBytes 4 _

def encodeBool (flag : Bool) : Bytes := [if flag then 1 else 0]

@[simp] theorem length_encodeBool (flag : Bool) : (encodeBool flag).length = 1 := rfl

def decodeBool : Decode Bool := do
  match ← decodeU8 with
  | 0 => return false
  | 1 => return true
  | other => fail (.invalidBoolEncoding other)

/-- A value behind a byte that says whether it is there. -/
def encodeOption {α : Type} (encode : α → Bytes) : Option α → Bytes
  | none => [0]
  | some value => 1 :: encode value

def decodeOption {α : Type} (decode : Decode α) : Decode (Option α) := do
  if ← decodeBool then return some (← decode) else return none

/-- A blob behind its length; none where the source panics, above the frame bound. -/
def encodeBytes (bytes : Bytes) : Option Bytes :=
  if bytes.length ≤ maxFrameBytes then some (leU32 (u32OfLength bytes.length) ++ bytes) else none

def decodeByteVec : Decode Bytes := fun input ↦
  match decodeU32 input with
  | .error error => .error error
  | .ok (len, rest) =>
    if maxFrameBytes < len.toNat then .error (.tooLarge len.toNat maxFrameBytes)
    else if rest.length < len.toNat then .error (.truncated (4 + len.toNat) input.length)
    else .ok (rest.take len.toNat, rest.drop len.toNat)

/-- The value of an input that has nothing behind it. -/
def decodeExact {α : Type} (decode : Decode α) (input : Bytes) : Except CodecError α :=
  match decode input with
  | .error error => .error error
  | .ok (value, rest) =>
    if rest = [] then .ok value
    else .error (.trailingBytes (input.length - rest.length) input.length)

variable {bytes : Bytes}

section Primitives

variable (rest : Bytes)

@[simp] theorem decodeArray_append {n : Nat} (raw : FixedBytes n) :
    decodeArray n (raw.bytes ++ rest) = .ok (raw, rest) := fixed_append raw rest

@[simp] theorem decodeU8_cons (first : UInt8) : decodeU8 (first :: rest) = .ok (first, rest) := rfl

@[simp] theorem decodeU16_append (word : UInt16) :
    decodeU16 (leBytes 2 word.toNat ++ rest) = .ok (word, rest) := word16_append word rest

@[simp] theorem decodeU32_append (word : UInt32) :
    decodeU32 (leU32 word ++ rest) = .ok (word, rest) := word32_append word rest

@[simp] theorem decodeU64_append (word : UInt64) :
    decodeU64 ((leU64 word).bytes ++ rest) = .ok (word, rest) := word64_append word rest

@[simp] theorem decodeI64_append (word : Int64) :
    decodeI64 (leI64 word ++ rest) = .ok (word, rest) := signed64_append word rest

@[simp] theorem decodeBool_append (flag : Bool) :
    decodeBool (encodeBool flag ++ rest) = .ok (flag, rest) := by
  cases flag <;> simp [decodeBool, encodeBool]

theorem decodeOption_append {α : Type} {encode : α → Bytes} {decode : Decode α}
    (h : ∀ value rest, decode (encode value ++ rest) = .ok (value, rest)) (value : Option α) :
    decodeOption decode (encodeOption encode value ++ rest) = .ok (value, rest) := by
  cases value <;> simp [decodeOption, encodeOption, decodeBool, h]

@[simp] theorem toNat_u32OfLength {length : Nat} (h : length < 2 ^ 32) :
    (u32OfLength length).toNat = length := by
  rw [u32OfLength, if_pos h]
  exact UInt32.toNat_ofNat_of_lt' h

variable {encoded : Bytes}

theorem encodeBytes_eq_some_iff :
    encodeBytes bytes = some encoded ↔
      bytes.length ≤ maxFrameBytes ∧ encoded = leU32 (u32OfLength bytes.length) ++ bytes := by
  unfold encodeBytes
  split_ifs with hlen
  · simp [hlen, eq_comm]
  · simp [hlen]

theorem encodeBytes_isSome_iff :
    (encodeBytes bytes).isSome = true ↔ bytes.length ≤ maxFrameBytes := by
  simp [Option.isSome_iff_exists, encodeBytes_eq_some_iff]

theorem length_encodeBytes (h : encodeBytes bytes = some encoded) :
    encoded.length = 4 + bytes.length := by
  obtain ⟨-, rfl⟩ := encodeBytes_eq_some_iff.mp h
  rw [List.length_append, length_leU32]

theorem reads_decodeByteVec (h : encodeBytes bytes = some encoded) :
    Reads decodeByteVec encoded bytes := by
  intro rest
  obtain ⟨hlen, rfl⟩ := encodeBytes_eq_some_iff.mp h
  have hword : (u32OfLength bytes.length).toNat = bytes.length :=
    toNat_u32OfLength (lt_of_le_of_lt hlen (by decide))
  have hmax : ¬maxFrameBytes < bytes.length := Nat.not_lt.mpr hlen
  simp [decodeByteVec, hword, hmax]

end Primitives

/-! ### Versions, expiries and the fixed-width states -/

def ObjectVersion.encode (version : ObjectVersion) : Bytes := (leU64 version.asU64).bytes

def ObjectVersion.decode : Decode ObjectVersion := ObjectVersion.mk <$> decodeU64

def FencingToken.encode (token : FencingToken) : Bytes := (leU64 token.asU64).bytes

def FencingToken.decode : Decode FencingToken := FencingToken.mk <$> decodeU64

def Expiry.encode (expiry : Expiry) : Bytes :=
  match expiry.deadline with
  | none => [0]
  | some when => 1 :: leI64 when

def Expiry.decode : Decode Expiry := do
  match ← decodeU8 with
  | 0 => return .never
  | 1 => return .expiresAt (← decodeI64)
  | other => fail (.invalidTag "expiry" other)

def ObjectType.encode : ObjectType → Bytes
  | .bytes => [1]
  | .strictCounter => [2]
  | .commutativeCounter => [3]
  | .boundedCounter => [4]
  | .semaphore => [5]
  | .lease => [6]
  | .streamShard => [7]

def ObjectType.decode : Decode ObjectType := do
  match ← decodeU8 with
  | 1 => return .bytes
  | 2 => return .strictCounter
  | 3 => return .commutativeCounter
  | 4 => return .boundedCounter
  | 5 => return .semaphore
  | 6 => return .lease
  | 7 => return .streamShard
  | other => fail (.invalidTag "object-type" other)

def ChunkedRef.encode (root : ChunkedRef) : Bytes :=
  root.manifest.bytes ++ (leU64 root.logicalLen).bytes

def ChunkedRef.decode : Decode ChunkedRef := do
  let manifest ← decodeArray 32
  let logicalLen ← decodeU64
  return ⟨manifest, logicalLen⟩

def FabricRef.encode (root : FabricRef) : Bytes :=
  (leU64 root.id).bytes ++ (leU64 root.logicalLen).bytes ++ (leU64 root.version).bytes

def FabricRef.decode : Decode FabricRef := do
  let id ← decodeU64
  let logicalLen ← decodeU64
  let version ← decodeU64
  return ⟨id, logicalLen, version⟩

def EscrowShare.encode (share : EscrowShare) : Bytes :=
  (leU64 share.holder).bytes ++ leI64 share.min ++ leI64 share.max

def EscrowShare.decode : Decode EscrowShare := do
  let holder ← decodeU64
  let min ← decodeI64
  let max ← decodeI64
  return ⟨holder, min, max⟩

def BoundedCounterState.encode (state : BoundedCounterState) : Bytes :=
  leI64 state.value ++ (leU64 state.capacity).bytes ++ state.share.encode

def BoundedCounterState.decode : Decode BoundedCounterState := do
  let value ← decodeI64
  let capacity ← decodeU64
  let share ← EscrowShare.decode
  return ⟨value, capacity, share⟩

def LeaseHolder.encode (holder : LeaseHolder) : Bytes :=
  (leU64 holder.owner).bytes ++ (leU64 holder.fencing.asU64).bytes ++ leI64 holder.expiresAt

def LeaseHolder.decode : Decode LeaseHolder := do
  let owner ← decodeU64
  let fencing ← FencingToken.decode
  let expiresAt ← decodeI64
  return ⟨owner, fencing, expiresAt⟩

def LeaseState.encode (state : LeaseState) : Bytes :=
  (match state.holder with
    | none => [0]
    | some holder => 1 :: holder.encode) ++ (leU64 state.nextFencing.asU64).bytes

def LeaseState.decode : Decode LeaseState := do
  let holder ← match ← decodeU8 with
    | 0 => pure none
    | 1 => do pure (some (← LeaseHolder.decode))
    | other => fail (.invalidTag "lease-holder" other)
  let nextFencing ← FencingToken.decode
  return ⟨holder, nextFencing⟩

section FixedWidth

variable (rest : Bytes)

@[simp] theorem ObjectVersion.decode_append (version : ObjectVersion) :
    ObjectVersion.decode (version.encode ++ rest) = .ok (version, rest) := by
  simp [decode, encode]

@[simp] theorem FencingToken.decode_append (token : FencingToken) :
    FencingToken.decode ((leU64 token.asU64).bytes ++ rest) = .ok (token, rest) := by
  simp [decode]

@[simp] theorem Expiry.decode_append (expiry : Expiry) :
    Expiry.decode (expiry.encode ++ rest) = .ok (expiry, rest) := by
  rcases expiry with ⟨_ | when⟩ <;> simp [decode, encode, never, expiresAt]

@[simp] theorem ObjectType.decode_append (objectType : ObjectType) :
    ObjectType.decode (objectType.encode ++ rest) = .ok (objectType, rest) := by
  cases objectType <;> simp [decode, encode]

@[simp] theorem ChunkedRef.decode_append (root : ChunkedRef) :
    ChunkedRef.decode (root.encode ++ rest) = .ok (root, rest) := by
  simp [decode, encode]

@[simp] theorem FabricRef.decode_append (root : FabricRef) :
    FabricRef.decode (root.encode ++ rest) = .ok (root, rest) := by
  simp [decode, encode]

@[simp] theorem EscrowShare.decode_append (share : EscrowShare) :
    EscrowShare.decode (share.encode ++ rest) = .ok (share, rest) := by
  simp [decode, encode]

@[simp] theorem BoundedCounterState.decode_append (state : BoundedCounterState) :
    BoundedCounterState.decode (state.encode ++ rest) = .ok (state, rest) := by
  simp [decode, encode]

@[simp] theorem LeaseHolder.decode_append (holder : LeaseHolder) :
    LeaseHolder.decode (holder.encode ++ rest) = .ok (holder, rest) := by
  simp [decode, encode]

@[simp] theorem LeaseState.decode_append (state : LeaseState) :
    LeaseState.decode (state.encode ++ rest) = .ok (state, rest) := by
  rcases state with ⟨_ | holder, nextFencing⟩ <;> simp [decode, encode]

end FixedWidth

/-! ### Semaphores -/

def PermitRecord.encode (permit : PermitRecord) : Bytes :=
  (leU64 permit.owner).bytes ++ (leU64 permit.qty).bytes

def PermitRecord.decode : Decode PermitRecord := do
  let owner ← decodeU64
  let qty ← decodeU64
  return ⟨owner, qty⟩

@[simp] theorem PermitRecord.decode_append (permit : PermitRecord) (rest : Bytes) :
    PermitRecord.decode (permit.encode ++ rest) = .ok (permit, rest) := by
  simp [decode, encode]

namespace SemaphoreState

def encodePermit (entry : PermitId × PermitRecord) : Bytes :=
  entry.1.bytes ++ entry.2.encode

def encode (state : SemaphoreState) : Bytes :=
  (leU64 state.capacity).bytes ++ leU32 (u32OfLength state.permits.size) ++
    state.permits.toList.flatMap encodePermit

/-- A permit that is read twice is an error. -/
def decodePermits : Nat → Std.ExtTreeMap PermitId PermitRecord →
    Decode (Std.ExtTreeMap PermitId PermitRecord)
  | 0, permits => return permits
  | count + 1, permits => do
    let id ← decodeArray 16
    let permit ← PermitRecord.decode
    if permits.contains id then fail (.invalidTag "semaphore-permit-id" 0xFD)
    else decodePermits count (permits.insert id permit)

def decode : Decode SemaphoreState := do
  let capacity ← decodeU64
  let count ← decodeU32
  if maxSemaphorePermits < count.toNat then fail (.invalidTag "semaphore-permits" 0xFE)
  else
    let permits ← decodePermits count.toNat ∅
    return ⟨capacity, permits⟩

theorem decodePermits_append (rest : Bytes) (items : List (PermitId × PermitRecord))
    (permits : Std.ExtTreeMap PermitId PermitRecord)
    (hkeys : items.Pairwise fun first second ↦ first.1 ≠ second.1)
    (hnew : ∀ item ∈ items, item.1 ∉ permits) :
    decodePermits items.length permits (items.flatMap encodePermit ++ rest) =
      .ok (items.foldl (fun map entry ↦ map.insert entry.1 entry.2) permits, rest) := by
  induction items generalizing permits with
  | nil => rfl
  | cons item items ih =>
    obtain ⟨hitem, hitems⟩ := List.pairwise_cons.mp hkeys
    have habsent : item.1 ∉ permits := hnew item List.mem_cons_self
    have hlater : ∀ other ∈ items, other.1 ∉ permits.insert item.1 item.2 := by
      intro other hmem hin
      rcases Std.ExtTreeMap.mem_insert.mp hin with hsame | hold
      · exact hitem other hmem (Std.compare_eq_iff_eq.mp hsame)
      · exact hnew other (List.mem_cons_of_mem _ hmem) hold
    simp [decodePermits, encodePermit, habsent, ih _ hitems hlater]

/-- A semaphore within its permit bound is read back. -/
theorem decode_append (state : SemaphoreState) (hsize : state.permits.size ≤ maxSemaphorePermits)
    (rest : Bytes) : decode (state.encode ++ rest) = .ok (state, rest) := by
  have hcount : (u32OfLength state.permits.size).toNat = state.permits.size :=
    toNat_u32OfLength (lt_of_le_of_lt hsize (by decide))
  have hbound : ¬maxSemaphorePermits < state.permits.size := Nat.not_lt.mpr hsize
  have hread := decodePermits_append rest state.permits.toList ∅
    (LastWins.pairwise_keys_toList state.permits) fun _ _ ↦ Std.ExtTreeMap.not_mem_empty
  rw [LastWins.foldl_insert_toList, Std.ExtTreeMap.length_toList] at hread
  simp [decode, encode, hcount, hbound, hread]

end SemaphoreState

/-! ### Stream shards -/

namespace StreamEntry

def encode (entry : StreamEntry) : Option Bytes := do
  let partition ← encodeBytes entry.partition
  let payload ← encodeBytes entry.payload
  return (leU64 entry.offset).bytes ++ partition ++ payload

def decode : Decode StreamEntry := do
  let offset ← decodeU64
  let partition ← decodeByteVec
  let payload ← decodeByteVec
  return ⟨offset, partition, payload⟩

theorem reads_decode {entry : StreamEntry} (h : entry.encode = some bytes) :
    Reads decode bytes entry := by
  intro rest
  obtain ⟨partition, hpartition, h⟩ := Option.bind_eq_some_iff.mp h
  obtain ⟨payload, hpayload, h⟩ := Option.bind_eq_some_iff.mp h
  cases h
  simp [decode, reads_decodeByteVec hpartition _, reads_decodeByteVec hpayload _]

end StreamEntry

namespace StreamShardState

def encode (state : StreamShardState) : Option Bytes := do
  let entries ← encodeEach StreamEntry.encode state.entries
  return state.stream.bytes ++ leU32 state.shard ++ (leU64 state.nextOffset).bytes ++
    leU32 (u32OfLength state.entries.length) ++ entries

/-- Entries with a payload beyond the bound, or out of order, are errors. -/
def decodeEntries : Nat → Option UInt64 → Decode (List StreamEntry)
  | 0, _ => return []
  | count + 1, previous => do
    let entry ← StreamEntry.decode
    if maxStreamEntryBytes < entry.payload.length then fail (.invalidTag "stream-entry" 0xFD)
    else if previous.any fun offset ↦ decide (entry.offset ≤ offset) then
      fail (.invalidTag "stream-offset" 0xFC)
    else
      let entries ← decodeEntries count (some entry.offset)
      return entry :: entries

def decode : Decode StreamShardState := do
  let stream ← decodeArray 16
  let shard ← decodeU32
  let nextOffset ← decodeU64
  let count ← decodeU32
  if maxStreamShardEntries < count.toNat then fail (.invalidTag "stream-entries" 0xFE)
  else
    let entries ← decodeEntries count.toNat none
    return ⟨stream, shard, nextOffset, entries⟩

/-- Stream entries in the order of their offsets are read back. -/
theorem reads_decodeEntries {entries : List StreamEntry} {previous : Option UInt64}
    (hbytes : encodeEach StreamEntry.encode entries = some bytes)
    (hpayload : ∀ entry ∈ entries, entry.payload.length ≤ maxStreamEntryBytes)
    (hsorted : entries.Pairwise fun first second ↦ first.offset < second.offset)
    (hafter : ∀ entry ∈ entries, ∀ offset ∈ previous, offset < entry.offset) :
    Reads (decodeEntries entries.length previous) bytes entries := by
  induction entries generalizing previous bytes with
  | nil =>
    cases hbytes
    exact reads_pure []
  | cons entry entries ih =>
    intro rest
    obtain ⟨first, second, hfirst, hsecond, rfl⟩ := encodeEach_cons_eq_some.mp hbytes
    obtain ⟨hentry, hentries⟩ := List.pairwise_cons.mp hsorted
    have hbound : ¬maxStreamEntryBytes < entry.payload.length :=
      Nat.not_lt.mpr (hpayload entry List.mem_cons_self)
    have horder : (previous.any fun offset ↦ decide (entry.offset ≤ offset)) = false := by
      cases previous with
      | none => rfl
      | some offset =>
        exact decide_eq_false (UInt64.not_le.mpr (hafter entry List.mem_cons_self offset rfl))
    have hread : Reads (decodeEntries entries.length (some entry.offset)) second entries := by
      refine ih hsecond (fun other hmem ↦ hpayload other (List.mem_cons_of_mem _ hmem)) hentries ?_
      intro other hmem offset hoffset
      cases hoffset
      exact hentry other hmem
    simp [decodeEntries, StreamEntry.reads_decode hfirst _, hbound, horder, hread rest]

/-- A shard within its bounds and in order is read back. -/
theorem reads_decode {state : StreamShardState} (hbytes : state.encode = some bytes)
    (hlength : state.entries.length ≤ maxStreamShardEntries)
    (hpayload : ∀ entry ∈ state.entries, entry.payload.length ≤ maxStreamEntryBytes)
    (hsorted : state.entries.Pairwise fun first second ↦ first.offset < second.offset) :
    Reads decode bytes state := by
  intro rest
  obtain ⟨entries, hentries, hall⟩ := Option.bind_eq_some_iff.mp hbytes
  cases hall
  have hcount : (u32OfLength state.entries.length).toNat = state.entries.length :=
    toNat_u32OfLength (lt_of_le_of_lt hlength (by decide))
  have hbound : ¬maxStreamShardEntries < state.entries.length := Nat.not_lt.mpr hlength
  have hread : Reads (decodeEntries state.entries.length none) entries state.entries :=
    reads_decodeEntries hentries hpayload hsorted fun _ _ _ hnone ↦ nomatch hnone
  simp [decode, hcount, hbound, hread rest]

end StreamShardState

end Kivi.State
