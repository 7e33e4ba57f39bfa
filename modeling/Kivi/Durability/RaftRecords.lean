import Kivi.Consensus.RaftMetadata

/-!
# Consensus records of the write-ahead log

The bodies of the five kinds of records in which a replica's Raft log is kept on disk: votes,
entries, truncation and purge markers and the commit pointer. The encoder takes any record whose
blobs fit a 32-bit length. The decoder refuses an empty command and a node address above one
mebibyte, so it reads back exactly the records that are `Minted`.
-/

namespace Kivi.Durability

open Library Library.Bytes Library.Codec Library.Codec.Decoder
open State (TabletId leU32 length_leU32)
open Consensus (NamespaceId addressBytes addressOf leCount)

abbrev NodeId := UInt64

/-- Allocation guard for one batch body. -/
def walMaxBodyBytes : Nat := 256 * 1024 * 1024

/-- Allocation guard for the address of one node. -/
def maxAddressBytes : Nat := 1024 * 1024

/-! ### Errors -/

inductive ConfigReason where
  | blobExceedsU32
  | raftBlobExceedsU32
  | recordExceedsU32
  | recordCount
  | batchExceedsGuard
  | raftBatchExceedsGuard
  | bodyExceedsU32
  | countExceedsU16
  | activeSegment
deriving DecidableEq

inductive FileOperation where
  | appendToFailedLane
  | appendBatch
  | createSegment
  | publishHeader
  | reopenSegment
deriving DecidableEq

inductive DurabilityError where
  | invalidConfig (reason : ConfigReason)
  | io (operation : FileOperation)
deriving DecidableEq

inductive RecordReason where
  | mutationIdentity
  | mutationTrailing
  | mutationUndecodable
  | mutationIrTrailing
  | expectedUndecodable
  | expectedTrailing
  | outcomeIdentity
  | outcomeTrailing
  | outcomeUndecodable
  | outcomeIrTrailing
  | materialTablet
  | materialCommit
  | materialId
  | materialVersion
  | materialTruncatedChecksum
  | materialTrailing
  | materialChecksum
  | malformedVote
  | trailingBlank
  | trailingCommand
  | emptyCommand
  | trailingMembership
  | payloadTag
  | malformedTruncate
  | malformedPurge
  | malformedCommitted
  | addressNotUtf8
deriving DecidableEq

inductive RecordContext where
  | recordPrefix
  | recordBlob
  | raftWord
  | raftTag
  | raftBlob
deriving DecidableEq

/-- What is wrong with a record, without its place in the file. -/
inductive RecordFault where
  | corrupt (reason : RecordReason)
  | unknown (kind version : UInt16)
  | oversized (len : Nat)
  | truncated (context : RecordContext)
  | unsupportedVersion
deriving DecidableEq

abbrev RecordDecoder (α : Type) := Decoder RecordFault α

/-! ### Records -/

structure RaftVote where
  namespaceId : NamespaceId
  group : TabletId
  term : UInt64
  candidate : NodeId
  committed : Bool
deriving DecidableEq

structure RaftMembership where
  voters : List UInt64
  nodes : List (UInt64 × String)
deriving DecidableEq

inductive RaftEntryPayload where
  | blank
  | normal (command : Bytes)
  | membership (config : RaftMembership)
deriving DecidableEq

structure RaftEntry where
  namespaceId : NamespaceId
  group : TabletId
  index : UInt64
  term : UInt64
  leader : NodeId
  payload : RaftEntryPayload
deriving DecidableEq

structure RaftTruncate where
  namespaceId : NamespaceId
  group : TabletId
  fromIndex : UInt64
deriving DecidableEq

structure RaftPurge where
  namespaceId : NamespaceId
  group : TabletId
  term : UInt64
  leader : NodeId
  throughIndex : UInt64
deriving DecidableEq

structure RaftCommitted where
  namespaceId : NamespaceId
  group : TabletId
  term : UInt64
  leader : NodeId
  index : UInt64
deriving DecidableEq

inductive RaftRecord where
  | vote (granted : RaftVote)
  | entry (stored : RaftEntry)
  | truncate (marker : RaftTruncate)
  | purge (marker : RaftPurge)
  | committed (pointer : RaftCommitted)
deriving DecidableEq

namespace RaftRecord

def kind : RaftRecord → UInt16
  | vote _ => 10
  | entry _ => 11
  | truncate _ => 12
  | purge _ => 13
  | committed _ => 14

end RaftRecord

def isRaftKind (kind : UInt16) : Bool :=
  kind == 10 || kind == 11 || kind == 12 || kind == 13 || kind == 14

/-! ### Writing -/

/-- Words one after the other. -/
def pushWords (words : List UInt64) : Bytes := words.flatMap fun word ↦ (leU64 word).bytes

@[simp] theorem length_pushWords (words : List UInt64) :
    (pushWords words).length = 8 * words.length := by
  induction words with
  | nil => rfl
  | cons word rest ih =>
    have hword : (leU64 word).bytes.length = 8 := (leU64 word).length_eq
    simp only [pushWords, List.flatMap_cons, List.length_append, List.length_cons] at ih ⊢
    omega

def pushBlob (bytes : Bytes) : Result DurabilityError Bytes :=
  if bytes.length < 2 ^ 32 then .ok (leU32 (UInt32.ofNat bytes.length) ++ bytes)
  else .err (.invalidConfig .raftBlobExceedsU32)

def encodeRaftNode (node : UInt64 × String) : Result DurabilityError Bytes := do
  let address ← pushBlob (addressBytes node.2)
  return (leU64 node.1).bytes ++ address

def RaftEntryPayload.encode : RaftEntryPayload → Result DurabilityError Bytes
  | blank => .ok [0]
  | normal command => do return 1 :: (← pushBlob command)
  | .membership config => do
    let nodes ← writeEach encodeRaftNode config.nodes
    return 2 :: ((leCount config.voters.length ++ pushWords config.voters) ++
      (leCount config.nodes.length ++ nodes))

def encodeRaftBody : RaftRecord → Result DurabilityError Bytes
  | .vote vote =>
    .ok (pushWords [vote.namespaceId, vote.group, vote.term, vote.candidate] ++
      [if vote.committed then 1 else 0])
  | .entry entry => do
    let payload ← entry.payload.encode
    return pushWords [entry.namespaceId, entry.group, entry.index, entry.term, entry.leader] ++
      payload
  | .truncate marker => .ok (pushWords [marker.namespaceId, marker.group, marker.fromIndex])
  | .purge marker =>
    .ok (pushWords
      [marker.namespaceId, marker.group, marker.term, marker.leader, marker.throughIndex])
  | .committed pointer =>
    .ok (pushWords
      [pointer.namespaceId, pointer.group, pointer.term, pointer.leader, pointer.index])

/-! ### Reading -/

/-- The source's `take_u64`. -/
def takeWord : RecordDecoder UInt64 := word64 fun _ ↦ .truncated .raftWord

/-- The source's `take_u8`. -/
def takeTag : RecordDecoder UInt8 := byte fun _ ↦ .truncated .raftTag

/-- Nothing is left. -/
def finish (reason : RecordReason) : RecordDecoder Unit := fun input ↦
  if input = [] then .ok ((), []) else .error (.corrupt reason)

/-- The next `len` bytes, if they are within `bound`. -/
def takeWithin (len bound : Nat) : RecordDecoder Bytes := fun input ↦
  if bound < len ∨ input.length < len then .error (.oversized len)
  else .ok (input.take len, input.drop len)

def takeBlob (bound : Nat) : RecordDecoder Bytes := do
  let len ← word32 fun _ ↦ .truncated .raftBlob
  takeWithin len.toNat bound

def checkRemaining (need : Nat) : RecordDecoder Unit := fun input ↦
  if input.length < need then .error (.oversized need) else .ok ((), input)

/-- A count of items of at least `stride` bytes each, refused if the input has not that many; the
product saturates. -/
def takeCount (stride : Nat) : RecordDecoder Nat := do
  let count ← UInt64.toNat <$> takeWord
  checkRemaining (min (count * stride) (2 ^ 64 - 1))
  return count

def takeCounted : RecordDecoder (List UInt64) := do takeWord.many (← takeCount 8)

def takeNode : RecordDecoder (UInt64 × String) := do
  let id ← takeWord
  match addressOf (← takeBlob maxAddressBytes) with
  | some address => return (id, address)
  | none => fail (.corrupt .addressNotUtf8)

def takeNodes : RecordDecoder (List (UInt64 × String)) := do takeNode.many (← takeCount 12)

def decodeVote : RecordDecoder RaftRecord := do
  let namespaceId ← takeWord
  let group ← takeWord
  let term ← takeWord
  let candidate ← takeWord
  let committed ← takeTag
  finish .malformedVote
  if 1 < committed then fail (.corrupt .malformedVote)
  else return .vote ⟨namespaceId, group, term, candidate, committed == 1⟩

def decodePayload : RecordDecoder RaftEntryPayload := do
  match ← takeTag with
  | 0 =>
    finish .trailingBlank
    return .blank
  | 1 =>
    let command ← takeBlob walMaxBodyBytes
    finish .trailingCommand
    if command = [] then fail (.corrupt .emptyCommand) else return .normal command
  | 2 =>
    let voters ← takeCounted
    let nodes ← takeNodes
    finish .trailingMembership
    return .membership ⟨voters, nodes⟩
  | _ => fail (.corrupt .payloadTag)

def decodeEntry : RecordDecoder RaftRecord := do
  let namespaceId ← takeWord
  let group ← takeWord
  let index ← takeWord
  let term ← takeWord
  let leader ← takeWord
  let payload ← decodePayload
  return .entry ⟨namespaceId, group, index, term, leader, payload⟩

def decodeTruncate : RecordDecoder RaftRecord := do
  let namespaceId ← takeWord
  let group ← takeWord
  let fromIndex ← takeWord
  finish .malformedTruncate
  return .truncate ⟨namespaceId, group, fromIndex⟩

def decodePurge : RecordDecoder RaftRecord := do
  let namespaceId ← takeWord
  let group ← takeWord
  let term ← takeWord
  let leader ← takeWord
  let throughIndex ← takeWord
  finish .malformedPurge
  return .purge ⟨namespaceId, group, term, leader, throughIndex⟩

def decodeCommitted : RecordDecoder RaftRecord := do
  let namespaceId ← takeWord
  let group ← takeWord
  let term ← takeWord
  let leader ← takeWord
  let index ← takeWord
  finish .malformedCommitted
  return .committed ⟨namespaceId, group, term, leader, index⟩

def decodeRaftKind : UInt16 → RecordDecoder RaftRecord
  | 10 => decodeVote
  | 11 => decodeEntry
  | 12 => decodeTruncate
  | 13 => decodePurge
  | 14 => decodeCommitted
  | kind => fail (.unknown kind 1)

/-- Every one of the decoders leaves nothing behind. -/
def decodeRaftBody (kind version : UInt16) (body : Bytes) : Except RecordFault RaftRecord :=
  if version ≠ 1 then .error .unsupportedVersion
  else (decodeRaftKind kind body).map Prod.fst

/-! ### What is read back -/

/-- What the decoder allows: a command has bytes, and no address is too long. -/
def RaftEntryPayload.Minted : RaftEntryPayload → Prop
  | blank => True
  | normal command => command ≠ []
  | .membership config => ∀ node ∈ config.nodes, (addressBytes node.2).length ≤ maxAddressBytes

instance : DecidablePred RaftEntryPayload.Minted
  | .blank => inferInstanceAs (Decidable True)
  | .normal command => inferInstanceAs (Decidable (command ≠ []))
  | .membership config => inferInstanceAs
    (Decidable (∀ node ∈ config.nodes, (addressBytes node.2).length ≤ maxAddressBytes))

def RaftRecord.Minted : RaftRecord → Prop
  | .entry stored => stored.payload.Minted
  | _ => True

instance : DecidablePred RaftRecord.Minted
  | .entry stored => inferInstanceAs (Decidable stored.payload.Minted)
  | .vote _ => inferInstanceAs (Decidable True)
  | .truncate _ => inferInstanceAs (Decidable True)
  | .purge _ => inferInstanceAs (Decidable True)
  | .committed _ => inferInstanceAs (Decidable True)

@[simp] theorem finish_nil (reason : RecordReason) : finish reason [] = .ok ((), []) := rfl

@[simp] theorem takeWord_append (word : UInt64) (rest : Bytes) :
    takeWord ((leU64 word).bytes ++ rest) = .ok (word, rest) := word64_append word rest

@[simp] theorem takeWord_bytes (word : UInt64) : takeWord (leU64 word).bytes = .ok (word, []) :=
  Reads.whole (takeWord_append word)

@[simp] theorem takeTag_cons (tag : UInt8) (rest : Bytes) :
    takeTag (tag :: rest) = .ok (tag, rest) := rfl

theorem pushBlob_eq_ok_iff {bytes encoded : Bytes} :
    pushBlob bytes = .ok encoded ↔
      bytes.length < 2 ^ 32 ∧ leU32 (UInt32.ofNat bytes.length) ++ bytes = encoded :=
  Result.ite_eq_ok_iff

/-- A blob within both bounds is read back after its length. -/
theorem reads_sized {bytes : Bytes} {bound : Nat} {short : Nat → RecordFault}
    (hfits : bytes.length < 2 ^ 32) (hbound : bytes.length ≤ bound) :
    Reads (do let len ← word32 short; takeWithin len.toNat bound)
      (leU32 (UInt32.ofNat bytes.length) ++ bytes) bytes := by
  intro rest
  have hread : word32 short (leU32 (UInt32.ofNat bytes.length) ++ (bytes ++ rest)) =
      .ok (UInt32.ofNat bytes.length, bytes ++ rest) := word32_append _ _
  rw [bind_apply, List.append_assoc, hread]
  dsimp only
  have hthere : ¬(bound < bytes.length ∨ (bytes ++ rest).length < bytes.length) := by
    rw [List.length_append]
    omega
  rw [UInt32.toNat_ofNat_of_lt' hfits, takeWithin, if_neg hthere, List.take_left, List.drop_left]

theorem reads_takeBlob {bytes encoded : Bytes} {bound : Nat} (hbound : bytes.length ≤ bound)
    (h : pushBlob bytes = .ok encoded) : Reads (takeBlob bound) encoded bytes := by
  obtain ⟨hfits, rfl⟩ := pushBlob_eq_ok_iff.mp h
  exact reads_sized hfits hbound

theorem takeCount_append {stride count : Nat} {items : Bytes} (hcount : count < 2 ^ 64)
    (hitems : stride * count ≤ items.length) :
    takeCount stride (leCount count ++ items) = .ok (count, items) := by
  have hword : (UInt64.ofNat count).toNat = count := UInt64.toNat_ofNat_of_lt' hcount
  have hneed : min (count * stride) (2 ^ 64 - 1) ≤ items.length := by
    rw [Nat.mul_comm] at hitems
    exact le_trans (min_le_left _ _) hitems
  have hcheck : checkRemaining (min (count * stride) (2 ^ 64 - 1)) items = .ok ((), items) :=
    if_neg (Nat.not_lt.mpr hneed)
  simp only [takeCount, leCount, bind_apply, map_apply, takeWord_append, hword, hcheck,
    pure_apply]

theorem reads_takeNode {node : UInt64 × String} {bytes : Bytes}
    (hshort : (addressBytes node.2).length ≤ maxAddressBytes)
    (h : encodeRaftNode node = .ok bytes) : Reads takeNode bytes node := by
  obtain ⟨address, haddress, hbytes⟩ := Result.bind_eq_ok_iff.mp h
  cases hbytes
  intro rest
  simp [takeNode, reads_takeBlob hshort haddress rest]

theorem le_length_encodeRaftNode {node : UInt64 × String} {bytes : Bytes}
    (h : encodeRaftNode node = .ok bytes) : 12 ≤ bytes.length := by
  obtain ⟨address, haddress, hbytes⟩ := Result.bind_eq_ok_iff.mp h
  obtain ⟨-, rfl⟩ := pushBlob_eq_ok_iff.mp haddress
  cases hbytes
  simp only [List.length_append, FixedBytes.length_eq, length_leU32]
  omega

theorem reads_takeCounted {voters : List UInt64} (hcount : voters.length < 2 ^ 64) :
    Reads takeCounted (leCount voters.length ++ pushWords voters) voters := by
  have hencode : encodeEach (fun word ↦ some (leU64 word).bytes) voters = some (pushWords voters) :=
    encodeEach_some _ voters
  intro rest
  have htake := @takeCount_append 8 voters.length (pushWords voters ++ rest) hcount
    (by rw [List.length_append, length_pushWords]; omega)
  rw [takeCounted, bind_apply, List.append_assoc, htake]
  refine Reads.many (fun word _ bytes hbytes tail ↦ ?_) hencode rest
  cases hbytes
  exact takeWord_append word tail

theorem reads_takeNodes {nodes : List (UInt64 × String)} {bytes : Bytes}
    (hshort : ∀ node ∈ nodes, (addressBytes node.2).length ≤ maxAddressBytes)
    (hcount : nodes.length < 2 ^ 64) (h : writeEach encodeRaftNode nodes = .ok bytes) :
    Reads takeNodes (leCount nodes.length ++ bytes) nodes := by
  have hencode := encodeEach_of_writeEach h
  have hlength := le_length_encodeEach
    (fun node bytes hnode ↦ le_length_encodeRaftNode (Result.toOption_eq_some_iff.mp hnode)) hencode
  intro rest
  have htake := @takeCount_append 12 nodes.length (bytes ++ rest) hcount
    (by rw [List.length_append]; omega)
  rw [takeNodes, bind_apply, List.append_assoc, htake]
  exact Reads.many (fun node hmem bytes hnode ↦
    reads_takeNode (hshort node hmem) (Result.toOption_eq_some_iff.mp hnode)) hencode rest

/-- The payload of an entry that fits a batch is read back exactly if it is minted. -/
theorem decodePayload_encode {payload : RaftEntryPayload} {bytes : Bytes}
    (h : payload.encode = .ok bytes) (hsize : bytes.length ≤ walMaxBodyBytes)
    (hminted : payload.Minted) : decodePayload bytes = .ok (payload, []) := by
  cases payload with
  | blank =>
    cases h
    rfl
  | normal command =>
    obtain ⟨blob, hblob, hbytes⟩ := Result.bind_eq_ok_iff.mp h
    cases hbytes
    have hcommand : command.length ≤ walMaxBodyBytes := by
      obtain ⟨-, rfl⟩ := pushBlob_eq_ok_iff.mp hblob
      simp only [List.length_cons, List.length_append] at hsize
      omega
    have hread := (reads_takeBlob hcommand hblob).whole
    have hnonempty : command ≠ [] := hminted
    simp [decodePayload, hread, hnonempty]
  | membership config =>
    obtain ⟨nodes, hnodes, hbytes⟩ := Result.bind_eq_ok_iff.mp h
    cases hbytes
    have hvoters : config.voters.length < 2 ^ 64 := by
      simp only [List.length_cons, List.length_append, length_pushWords] at hsize
      unfold walMaxBodyBytes at hsize
      omega
    have hnodes' : config.nodes.length < 2 ^ 64 := by
      have hlength := le_length_encodeEach
        (fun node bytes hnode ↦ le_length_encodeRaftNode (Result.toOption_eq_some_iff.mp hnode))
        (encodeEach_of_writeEach hnodes)
      simp only [List.length_cons, List.length_append] at hsize
      unfold walMaxBodyBytes at hsize
      omega
    have hread := (reads_takeNodes hminted hnodes' hnodes).whole
    have hcounted := reads_takeCounted hvoters (leCount config.nodes.length ++ nodes)
    rw [List.append_assoc] at hcounted
    simp [decodePayload, hcounted, hread]

/-- A record that fits a batch is read back if it is minted. -/
theorem decodeRaftBody_encode {record : RaftRecord} {body : Bytes}
    (h : encodeRaftBody record = .ok body) (hsize : body.length ≤ walMaxBodyBytes)
    (hminted : record.Minted) : decodeRaftBody record.kind 1 body = .ok record := by
  cases record with
  | vote granted =>
    cases h
    rcases granted with ⟨namespaceId, group, term, candidate, _ | _⟩ <;>
      simp [decodeRaftBody, decodeRaftKind, RaftRecord.kind, decodeVote, pushWords, Except.map]
  | entry stored =>
    obtain ⟨payload, hpayload, hbody⟩ := Result.bind_eq_ok_iff.mp h
    cases hbody
    have hread : decodePayload payload = .ok (stored.payload, []) := by
      refine decodePayload_encode hpayload ?_ hminted
      rw [List.length_append] at hsize
      omega
    simp [decodeRaftBody, decodeRaftKind, RaftRecord.kind, decodeEntry, pushWords, hread,
      Except.map]
  | truncate | purge | committed =>
    cases h
    simp [decodeRaftBody, decodeRaftKind, RaftRecord.kind, decodeTruncate, decodePurge,
      decodeCommitted, pushWords, Except.map]

theorem isRaftKind_kind (record : RaftRecord) : isRaftKind record.kind = true := by
  cases record <;> rfl

end Kivi.Durability
