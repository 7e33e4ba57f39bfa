import Kivi.Consensus.Tablet
import Kivi.Library.Cursor
import Kivi.State.Consumption
import Kivi.State.OrderedIndex
import Kivi.State.OutcomeEncoding

/-!
# The snapshot image of a tablet

A snapshot is a framed body: the identity of the replica, its objects in key order, its sessions
with their retained answers, the flag of the key index and the reservations. Writing a blob above
the frame bound panics, so `encodeSnapshot` may give no image; decoding re-checks every count,
size and invariant. The membership section, which no apply reads, is in `RaftMetadata`.
-/

namespace Kivi.Consensus

open Library Library.Bytes Library.Codec Library.Codec.Decoder State

/-! ### Faults -/

/-- What is wrong with a frame or with one of its objects. -/
inductive ImageFault where
  | truncated
  | badMagic (found : UInt32)
  | unsupportedVersion (found : UInt16)
  | badCrc (found computed : UInt32)
  | badKey
  | badBytes
  | badValueTag (tag : UInt8)
  | badOutcome
  | badVersion
  | badExpiry
  | badChunkedRef
  | badFabricRef
  | oversized (len : Nat)
  | badAddress
deriving DecidableEq

/-- The part of an image that a fault names. -/
inductive CorruptDetail where
  | framingInvalid (fault : ImageFault)
  | imageInvalid (fault : ImageFault)
  | objectInvalid (fault : ImageFault)
  | bodyTruncated
  | outcomeBlobInvalid
  | orderedIndexTagInvalid
  | intentCountAbsurd
  | intentKeyInvalid
  | intentExpectationInvalid
  | intentWriteInvalid
  | intentObservedTagInvalid
  | intentVersionInvalid
  | trailingBytes
  | membershipTagInvalid
  | membershipInvalid (fault : ImageFault)
  | controlImageInvalid
deriving DecidableEq

inductive SnapshotFault where
  | corruptImage (detail : CorruptDetail)
  | misrouted (namespaceId : NamespaceId) (tablet : TabletId) (expectedNamespace : NamespaceId)
      (expectedTablet : TabletId)
deriving DecidableEq

/-! ### Frames -/

def snapshotMagic : UInt32 := 0x4D53564B
def snapshotVersion : UInt16 := 2

section Frames

variable (crc32c : Checksum)

def frameImage (magic : UInt32) (version : UInt16) (body : Bytes) : Bytes :=
  leU32 magic ++ leBytes 2 version.toNat ++ body ++ leU32 (crc32c body)

def unframeImage (input : Bytes) (magic : UInt32) (version : UInt16) :
    Except ImageFault Bytes :=
  if input.length < 4 + 2 + 4 then .error .truncated
  else
    let foundMagic := UInt32.ofNat (ofLeBytes (input.take 4))
    let foundVersion := UInt16.ofNat (ofLeBytes ((input.drop 4).take 2))
    let body := (input.drop 6).take (input.length - 4 - 6)
    let foundCrc := UInt32.ofNat (ofLeBytes (input.drop (input.length - 4)))
    if foundMagic ≠ magic then .error (.badMagic foundMagic)
    else if foundVersion ≠ version then .error (.unsupportedVersion foundVersion)
    else if foundCrc ≠ crc32c body then .error (.badCrc foundCrc (crc32c body))
    else .ok body

/-- A framed body is read back. -/
theorem unframeImage_frameImage (magic : UInt32) (version : UInt16) (body : Bytes) :
    unframeImage crc32c (frameImage crc32c magic version body) magic version = .ok body := by
  set input := frameImage crc32c magic version body with hinput
  have hlength : input.length = body.length + 10 := by
    simp [hinput, frameImage]
    omega
  have hmagic : input.take 4 = leU32 magic := by
    rw [hinput, frameImage, List.append_assoc, List.append_assoc]
    exact List.take_left' (length_leU32 magic)
  have hversion : (input.drop 4).take 2 = leBytes 2 version.toNat := by
    rw [hinput, frameImage, List.append_assoc, List.append_assoc,
      List.drop_left' (length_leU32 magic)]
    exact List.take_left' (length_leBytes 2 _)
  have hbody : (input.drop 6).take (input.length - 4 - 6) = body := by
    have hfront : (leU32 magic ++ leBytes 2 version.toNat).length = 6 := by simp
    have hrest : input.drop 6 = body ++ leU32 (crc32c body) := by
      rw [hinput, frameImage, List.append_assoc _ body]
      exact List.drop_left' hfront
    rw [hrest]
    exact List.take_left' (by omega)
  have hcrc : input.drop (input.length - 4) = leU32 (crc32c body) := by
    have hfront : (leU32 magic ++ leBytes 2 version.toNat ++ body).length = input.length - 4 := by
      simp
      omega
    exact List.drop_left' hfront
  have hword32 (word : UInt32) : UInt32.ofNat (ofLeBytes (leU32 word)) = word := by
    rw [leU32, ofLeBytes_leBytes 4 _ word.toNat_lt, UInt32.ofNat_toNat]
  have hword16 : UInt16.ofNat (ofLeBytes (leBytes 2 version.toNat)) = version := by
    rw [ofLeBytes_leBytes 2 _ version.toNat_lt, UInt16.ofNat_toNat]
  have hshort : ¬input.length < 4 + 2 + 4 := by omega
  simp only [unframeImage, if_neg hshort, hmagic, hversion, hbody, hcrc, hword32, hword16, ne_eq,
    not_true_eq_false, if_false]

end Frames

/-! ### Objects -/

/-- A value behind its tag. -/
def encodeValue : LogicalValue → Option Bytes
  | .bytes bytes => (encodeBytes bytes).map (1 :: ·)
  | .chunked root => some (2 :: root.encode)
  | .fabric root => some (9 :: root.encode)
  | .strictCounter value => some (3 :: leI64 value)
  | .commutativeCounter value => some (4 :: leI64 value)
  | .boundedCounter state => some (5 :: state.encode)
  | .semaphore state => some (6 :: state.encode)
  | .lease state => some (7 :: state.encode)
  | .streamShard shard => shard.encode.map (8 :: ·)

def encodeObject (object : StoredObject) : Option Bytes := do
  let value ← encodeValue object.value
  return value ++ object.version.encode ++ object.expiry.encode

/-- What follows the tag of a value; bounded counters and semaphores must pass their own check. -/
def decodeValue : UInt8 → Decoder ImageFault LogicalValue
  | 1 => do return .bytes (← decodeByteVec.mapError fun _ ↦ .badBytes)
  | 2 => do return .chunked (← ChunkedRef.decode.mapError fun _ ↦ .badChunkedRef)
  | 9 => do return .fabric (← FabricRef.decode.mapError fun _ ↦ .badFabricRef)
  | 3 => do return .strictCounter (← signed64 fun _ ↦ .truncated)
  | 4 => do return .commutativeCounter (← signed64 fun _ ↦ .truncated)
  | 5 => do
    let state ← BoundedCounterState.decode.mapError fun _ ↦ .badBytes
    if state.invariantHolds then return .boundedCounter state else fail (.badValueTag 5)
  | 6 => do
    let state ← SemaphoreState.decode.mapError fun _ ↦ .badBytes
    if state.invariantHolds then return .semaphore state else fail (.badValueTag 6)
  | 7 => do return .lease (← LeaseState.decode.mapError fun _ ↦ .badBytes)
  | 8 => do return .streamShard (← StreamShardState.decode.mapError fun _ ↦ .badBytes)
  | tag => fail (.badValueTag tag)

def decodeObject : Decoder ImageFault StoredObject := do
  let tag ← byte fun _ ↦ .truncated
  let value ← decodeValue tag
  let version ← ObjectVersion.decode.mapError fun _ ↦ .badVersion
  let expiry ← Expiry.decode.mapError fun _ ↦ .badExpiry
  return ⟨value, version, expiry⟩

theorem consumes_decodeValue (tag : UInt8) : Consumes (decodeValue tag) := by
  unfold decodeValue
  split
  · exact consumes_bind consumes_decodeByteVec.mapError fun _ ↦ consumes_pure _
  · exact consumes_bind ChunkedRef.consumes_decode.mapError fun _ ↦ consumes_pure _
  · exact consumes_bind FabricRef.consumes_decode.mapError fun _ ↦ consumes_pure _
  · exact consumes_bind (consumes_signed64 _) fun _ ↦ consumes_pure _
  · exact consumes_bind (consumes_signed64 _) fun _ ↦ consumes_pure _
  · refine consumes_bind BoundedCounterState.consumes_decode.mapError fun state ↦ ?_
    split_ifs
    · exact consumes_pure _
    · exact consumes_fail _
  · refine consumes_bind SemaphoreState.consumes_decode.mapError fun state ↦ ?_
    split_ifs
    · exact consumes_pure _
    · exact consumes_fail _
  · exact consumes_bind LeaseState.consumes_decode.mapError fun _ ↦ consumes_pure _
  · exact consumes_bind StreamShardState.consumes_decode.mapError fun _ ↦ consumes_pure _
  · exact consumes_fail _

/-- What follows an object in an image is left to the sections behind it. -/
theorem consumes_decodeObject : Consumes decodeObject :=
  consumes_bind (consumes_byte _) fun tag ↦ consumes_bind (consumes_decodeValue tag) fun _ ↦
    consumes_bind ObjectVersion.consumes_decode.mapError fun _ ↦
      consumes_bind Expiry.consumes_decode.mapError fun _ ↦ consumes_pure _

/-! ### Sections of the body -/

/-- Reads a section at a position of the body, which it moves on. -/
abbrev SnapshotReader (α : Type) := Reader SnapshotFault α

def snapTake (n : Nat) (hn : n ≤ 2 ^ 63) : SnapshotReader (FixedBytes n) :=
  .take n hn (.corruptImage .bodyTruncated)

def snapTakeU64 : SnapshotReader UInt64 :=
  (fun raw ↦ UInt64.ofNat (ofLeBytes raw.bytes)) <$> snapTake 8 (by norm_num)

def snapTakeI64 : SnapshotReader Int64 := UInt64.toInt64 <$> snapTakeU64

def snapTakeTag : SnapshotReader UInt8 :=
  (fun raw ↦ raw.bytes.headD 0) <$> snapTake 1 (by norm_num)

def snapTakeCount : SnapshotReader Nat := UInt64.toNat <$> snapTakeU64

/-- A length as the machine word it is written as. -/
def leCount (count : Nat) : Bytes := (leU64 (UInt64.ofNat count)).bytes

def encodeEntry (entry : Key × StoredObject) : Option Bytes := do
  let key ← encodeBytes entry.1
  let object ← encodeObject entry.2
  return key ++ object

def decodeEntry : SnapshotReader (Key × StoredObject) := do
  let key ← .nested decodeByteVec consumes_decodeByteVec fun _ ↦
    .corruptImage (.imageInvalid .badKey)
  let object ← .nested decodeObject consumes_decodeObject fun fault ↦
    .corruptImage (.objectInvalid fault)
  return (key, object)

def decodeSnapshotObjects : SnapshotReader (List (Key × StoredObject)) := do
  decodeEntry.many (← snapTakeCount)

def encodeOutcome (entry : RequestSeq × RetainedOutcome) : Option Bytes := do
  let outcome ← entry.2.outcome.encode
  let blob ← encodeBytes outcome
  return (leU64 entry.1).bytes ++ (leU64 entry.2.commit).bytes ++ [entry.2.opcode] ++ blob

def decodeOutcome : SnapshotReader (RequestSeq × RetainedOutcome) := do
  let seq ← snapTakeU64
  let commit ← snapTakeU64
  let opcode ← snapTakeTag
  let blob ← .nested decodeByteVec consumes_decodeByteVec fun _ ↦
    .corruptImage .outcomeBlobInvalid
  match decodeExact DurableOutcome.decode blob with
  | .ok outcome => return (seq, ⟨commit, opcode, outcome⟩)
  | .error _ => .fail (.corruptImage (.imageInvalid .badOutcome))

def encodeSession (entry : SessionId × SessionState) : Option Bytes := do
  let outcomes ← encodeEach encodeOutcome entry.2.outcomes.toList
  return leBytes 16 entry.1.toNat ++ (leU64 entry.2.floor).bytes ++
    leCount entry.2.outcomes.size ++ outcomes

def decodeSession : SnapshotReader (SessionId × SessionState) := do
  let raw ← snapTake 16 (by norm_num)
  let floor ← snapTakeU64
  let outcomes ← decodeOutcome.many (← snapTakeCount)
  return (BitVec.ofNat 128 (ofLeBytes raw.bytes),
    ⟨floor, outcomes.foldl (fun map entry ↦ map.insert entry.1 entry.2) ∅⟩)

def decodeSnapshotSessions : SnapshotReader (List (SessionId × SessionState)) := do
  decodeSession.many (← snapTakeCount)

def encodeIntent (intent : TxnIntent) : Option Bytes := do
  let key ← encodeBytes intent.key
  let kind ← intent.write.kind.encode
  return intent.id.bytes ++ (leU64 intent.coordinator).bytes ++ key ++ intent.write.expect.encode ++
    kind ++ intent.digest.bytes ++
    (match intent.observed with
      | none => [0]
      | some version => 1 :: version.encode) ++ leI64 intent.preparedAt

/-- The version a reservation observed. -/
def decodeObserved : SnapshotReader (Option ObjectVersion) := do
  match ← snapTakeTag with
  | 0 => return none
  | 1 => return some (← .nested ObjectVersion.decode ObjectVersion.consumes_decode fun _ ↦
      .corruptImage .intentVersionInvalid)
  | _ => .fail (.corruptImage .intentObservedTagInvalid)

/-- The write of a decoded reservation is on the key of the reservation. -/
def decodeIntent : SnapshotReader TxnIntent := do
  let id ← snapTake 16 (by norm_num)
  let coordinator ← snapTakeU64
  let key ← .nested decodeByteVec consumes_decodeByteVec fun _ ↦ .corruptImage .intentKeyInvalid
  let expect ← .nested TxnExpect.decode TxnExpect.consumes_decode fun _ ↦
    .corruptImage .intentExpectationInvalid
  let kind ← .nested TxnWriteKind.decode TxnWriteKind.consumes_decode fun _ ↦
    .corruptImage .intentWriteInvalid
  let digest ← snapTake 32 (by norm_num)
  let observed ← decodeObserved
  let preparedAt ← snapTakeI64
  return ⟨id, coordinator, key, ⟨key, kind, expect⟩, digest, observed, preparedAt⟩

/-! ### The whole image -/

def maxSnapshotIntents : Nat := 1000000

structure DecodedSnapshot where
  epoch : UInt64
  guard : UInt64
  applied : Option LogId
  objects : List (Key × StoredObject)
  sessions : List (SessionId × SessionState)
  orderedIndex : Bool
  intents : List TxnIntent

namespace ReplicatedTablet

/-- The identity of the replica and the last entry it applied; a tablet that has applied nothing
writes zeros. -/
def encodeHead (tablet : ReplicatedTablet) : Bytes :=
  let applied := tablet.applied.getD ⟨0, 0, 0⟩
  (leU64 tablet.namespaceId).bytes ++ (leU64 tablet.tablet).bytes ++
    (leU64 tablet.authority.epoch).bytes ++ (leU64 tablet.authority.guard).bytes ++
    (leU64 applied.term).bytes ++ (leU64 applied.leader).bytes ++ (leU64 applied.index).bytes

def encodeSnapshotBody (tablet : ReplicatedTablet) : Option Bytes := do
  let objects ← encodeEach encodeEntry tablet.store.objects.toList
  let sessions ← encodeEach encodeSession tablet.sessions.toList
  let intents ← encodeEach encodeIntent (tablet.store.intents.toList.map Prod.snd)
  return tablet.encodeHead ++
    (leCount tablet.store.objects.size ++ objects) ++ (leCount tablet.sessions.size ++ sessions) ++
    encodeBool tablet.store.ordered.isSome ++ (leCount tablet.store.intents.size ++ intents)

def encodeSnapshot (crc32c : Checksum) (tablet : ReplicatedTablet) :
    Option Bytes :=
  tablet.encodeSnapshotBody.map (frameImage crc32c snapshotMagic snapshotVersion)

end ReplicatedTablet

structure SnapshotHead where
  epoch : UInt64
  guard : UInt64
  applied : LogId

/-- The identity of an image, which must be that of the replica it is meant for. -/
def decodeSnapshotHead (namespaceId : NamespaceId) (tablet : TabletId) :
    SnapshotReader SnapshotHead := do
  let foundNamespace ← snapTakeU64
  let foundTablet ← snapTakeU64
  if foundNamespace ≠ namespaceId ∨ foundTablet ≠ tablet then
    .fail (.misrouted foundNamespace foundTablet namespaceId tablet)
  else
    let epoch ← snapTakeU64
    let guard ← snapTakeU64
    let term ← snapTakeU64
    let leader ← snapTakeU64
    let index ← snapTakeU64
    return ⟨epoch, guard, ⟨term, leader, index⟩⟩

def decodeOrderedIndex : SnapshotReader Bool := do
  match ← snapTakeTag with
  | 0 => return false
  | 1 => return true
  | _ => .fail (.corruptImage .orderedIndexTagInvalid)

def decodeSnapshotIntents : SnapshotReader (List TxnIntent) := do
  let count ← snapTakeCount
  if maxSnapshotIntents < count then .fail (.corruptImage .intentCountAbsurd)
  else decodeIntent.many count

/-- What follows the membership. -/
def decodeSnapshotSections (head : SnapshotHead) : SnapshotReader DecodedSnapshot := do
  let objects ← decodeSnapshotObjects
  let sessions ← decodeSnapshotSessions
  let orderedIndex ← decodeOrderedIndex
  let intents ← decodeSnapshotIntents
  let applied := if head.applied = ⟨0, 0, 0⟩ then none else some head.applied
  return ⟨head.epoch, head.guard, applied, objects, sessions, orderedIndex, intents⟩

def decodeSnapshotBody (namespaceId : NamespaceId) (tablet : TabletId) :
    SnapshotReader DecodedSnapshot := do
  let head ← decodeSnapshotHead namespaceId tablet
  decodeSnapshotSections head

def decodeSnapshot (crc32c : Checksum) (bytes : Bytes)
    (namespaceId : NamespaceId) (tablet : TabletId) : Except SnapshotFault DecodedSnapshot :=
  match unframeImage crc32c bytes snapshotMagic snapshotVersion with
  | .error fault => .error (.corruptImage (.framingInvalid fault))
  | .ok body =>
    match decodeSnapshotBody namespaceId tablet body with
    | .error fault => .error fault
    | .ok (decoded, rest) =>
      if rest = [] then .ok decoded else .error (.corruptImage .trailingBytes)

/-- Replace the state of a replica by a decoded one; its identity and authority stay. -/
def ReplicatedTablet.installDecoded (tablet : ReplicatedTablet) (decoded : DecodedSnapshot) :
    ReplicatedTablet :=
  { tablet with
    store := ObjectStore.installDecoded decoded.objects decoded.intents decoded.orderedIndex
    sessions := decoded.sessions.foldl (fun map entry ↦ map.insert entry.1 entry.2) ∅
    applied := decoded.applied }

end Kivi.Consensus
