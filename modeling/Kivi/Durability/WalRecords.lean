import Kivi.Consensus.EnvelopeEncoding
import Kivi.Durability.RaftRecords

/-!
# Records and batch bodies of the write-ahead log

A batch body is a sequence of records, each behind its kind, its version and its length. Tablet
batches hold mutations, terminal outcomes and bulk values; consensus batches hold the records of
`RaftRecords`. `takeRecords_encode` says that the scanner reads back the records of every batch
the encoder accepts whose records are `Minted`: the encoder also accepts local commits with no or
too many writes, outcomes with too long lists and bulk values whose checksum is not theirs, which
the decoder refuses.
-/

namespace Kivi.Durability

open Library Library.Bytes Library.Codec Library.Codec.Decoder
open State (TabletId WallTimestamp Mutation OperationResult DurableOutcome Decode decodeU8 decodeU64
  leU32 leI64)
open Consensus (NamespaceId CommitPosition MutationIdentity)
open Consensus.VersionedEnvelope (encodeSessionId decodeSessionId decodeSessionId_eq_ok_iff)

/-- Allocation guard for records per batch. -/
def walMaxRecordsPerBatch : Nat := 4096

/-! ### Records -/

/-- What mutation and outcome records start with. -/
structure RecordPrefix where
  namespaceId : NamespaceId
  tablet : TabletId
  epoch : UInt64
  guard : UInt64
  commit : CommitPosition
  now : WallTimestamp
  opcode : UInt8
deriving DecidableEq

structure MutationRecord where
  head : RecordPrefix
  identity : Option MutationIdentity
  mutation : Mutation
  expected : OperationResult
deriving DecidableEq

structure OutcomeRecord where
  head : RecordPrefix
  identity : Option MutationIdentity
  outcome : DurableOutcome
deriving DecidableEq

/-- A bulk value that a mutation of the same batch installs by reference. -/
structure MaterialRecord where
  tablet : TabletId
  fabricId : UInt64
  commit : CommitPosition
  version : UInt64
  checksum : UInt32
  bytes : Bytes
deriving DecidableEq

inductive WalRecord where
  | mutation (record : MutationRecord)
  | outcome (record : OutcomeRecord)
  | material (record : MaterialRecord)
deriving DecidableEq

namespace WalRecord

def tablet : WalRecord → TabletId
  | mutation record => record.head.tablet
  | outcome record => record.head.tablet
  | material record => record.tablet

def commit : WalRecord → CommitPosition
  | mutation record => record.head.commit
  | outcome record => record.head.commit
  | material record => record.commit

end WalRecord

inductive WalEntry where
  | tablet (record : WalRecord)
  | consensus (record : RaftRecord)
deriving DecidableEq

/-- An entry with the number of the batch it arrived in. -/
structure RecoveredRecord where
  batchSeq : UInt64
  entry : WalEntry
deriving DecidableEq

/-! ### Errors of a scan -/

inductive SegmentReason where
  | unreadableFile
  | unreadableHeader
  | unreadableBatchHeader
  | unreadableFooter
  | shortHeader
  | segmentMagic
  | segmentChecksum
  | truncatedBatchHeader
  | batchMagic
  | batchFlags
  | batchSequence
  | batchChecksum
  | recordCount
  | truncatedBatch
  | batchFooter
  | bodyChecksum
  | footerChecksum
  | recordFraming
  | trailingBody
  | endsMidHeader
  | record (reason : RecordReason)
deriving DecidableEq

inductive Misdirection where
  | floorLane
  | segmentIdentity
  | futureIncarnation
  | batchPlace
deriving DecidableEq

inductive VersionContext where
  | segment
  | batch
  | record
deriving DecidableEq

inductive RecoveryError where
  | segmentGap (lane : UInt16) (expected found : UInt64)
  | corruptSegment (lane : UInt16) (segment : UInt64) (reason : SegmentReason)
  | misdirected (reason : Misdirection)
  | unsupportedVersion (major minor : UInt16) (context : VersionContext)
  | unknownRecord (kind version : UInt16)
  | oversized (len max : Nat)
  | truncated (context : RecordContext)
deriving DecidableEq

/-- The fault of a record with its place in the file; the source's `RecordFault::at`. -/
def RecordFault.located (fault : RecordFault) (lane : UInt16) (segment : UInt64) : RecoveryError :=
  match fault with
  | corrupt reason => .corruptSegment lane segment (.record reason)
  | unknown kind version => .unknownRecord kind version
  | oversized len => .oversized len walMaxBodyBytes
  | truncated context => .truncated context
  | unsupportedVersion => .unsupportedVersion 1 0 .record

/-! ### Writing -/

/-- The two little-endian bytes of a word. -/
def leU16 (word : UInt16) : Bytes := leBytes 2 word.toNat

@[simp] theorem length_leU16 (word : UInt16) : (leU16 word).length = 2 := length_leBytes 2 _

def RecordPrefix.encode (head : RecordPrefix) : Bytes :=
  pushWords [head.namespaceId, head.tablet, head.epoch, head.guard, head.commit] ++
    (leI64 head.now ++ [head.opcode])

def encodeIdentityPrefix : Option MutationIdentity → Bytes
  | none => [0]
  | some identity =>
    1 :: (encodeSessionId identity.client.session ++
      pushWords [identity.client.seq, identity.ackFloor])

def pushWalBlob (bytes : Bytes) : Result DurabilityError Bytes :=
  if bytes.length < 2 ^ 32 then .ok (leU32 (UInt32.ofNat bytes.length) ++ bytes)
  else .err (.invalidConfig .blobExceedsU32)

def encodeRecordBody : WalRecord → Result DurabilityError Bytes
  | .mutation record => do
    let mutation ← pushWalBlob (← .orPanic record.mutation.encode)
    let expected ← pushWalBlob (← .orPanic record.expected.encode)
    return record.head.encode ++ (encodeIdentityPrefix record.identity ++ (mutation ++ expected))
  | .outcome record => do
    let outcome ← pushWalBlob (← .orPanic record.outcome.encode)
    return record.head.encode ++ (encodeIdentityPrefix record.identity ++ outcome)
  | .material record => do
    let value ← pushWalBlob record.bytes
    return pushWords [record.tablet, record.commit, record.fabricId, record.version] ++
      (leU32 record.checksum ++ value)

namespace WalEntry

def kind : WalEntry → UInt16
  | tablet (.mutation _) => 1
  | tablet (.outcome _) => 2
  | tablet (.material _) => 3
  | consensus record => record.kind

def encodeBody : WalEntry → Result DurabilityError Bytes
  | tablet record => encodeRecordBody record
  | consensus record => encodeRaftBody record

end WalEntry

def frameRecord (entry : WalEntry) : Result DurabilityError Bytes := do
  let body ← entry.encodeBody
  if body.length < 2 ^ 32 then
    return leU16 entry.kind ++ (leU16 1 ++ (leU32 (UInt32.ofNat body.length) ++ body))
  else .err (.invalidConfig .recordExceedsU32)

/-- One physical durability unit: records of tablets or of consensus groups, never both. -/
inductive Batch where
  | tablet (records : List WalRecord)
  | consensus (records : List RaftRecord)
deriving DecidableEq

namespace Batch

def entries : Batch → List WalEntry
  | tablet records => records.map .tablet
  | consensus records => records.map .consensus

def oversize : Batch → ConfigReason
  | tablet _ => .batchExceedsGuard
  | consensus _ => .raftBatchExceedsGuard

end Batch

def checkBatchBody (count : Nat) (body : Bytes) (what : ConfigReason) :
    Result DurabilityError Unit :=
  if count = 0 ∨ walMaxRecordsPerBatch < count then .err (.invalidConfig .recordCount)
  else if walMaxBodyBytes < body.length then .err (.invalidConfig what)
  else .ok ()

/-- The source's `encode_batch_body` and `encode_raft_batch`. -/
def Batch.encode (batch : Batch) : Result DurabilityError Bytes := do
  let body ← writeEach frameRecord batch.entries
  checkBatchBody batch.entries.length body batch.oversize
  return body

/-! ### Reading -/

def decodeFixedPrefix : RecordDecoder RecordPrefix := do
  let namespaceId ← word64 fun _ ↦ .truncated .recordPrefix
  let tablet ← word64 fun _ ↦ .truncated .recordPrefix
  let epoch ← word64 fun _ ↦ .truncated .recordPrefix
  let guard ← word64 fun _ ↦ .truncated .recordPrefix
  let commit ← word64 fun _ ↦ .truncated .recordPrefix
  let now ← signed64 fun _ ↦ .truncated .recordPrefix
  let opcode ← byte fun _ ↦ .truncated .recordPrefix
  return ⟨namespaceId, tablet, epoch, guard, commit, now, opcode⟩

def decodeIdentityPrefix : Decode (Option MutationIdentity) := do
  match ← decodeU8 with
  | 0 => return none
  | 1 =>
    let session ← decodeSessionId
    let seq ← decodeU64
    let ack ← decodeU64
    return some ⟨⟨session, seq⟩, ack⟩
  | flag => fail (.invalidTag "wal-identity" flag)

def decodeBlobPrefix : RecordDecoder Bytes := do
  let len ← word32 fun _ ↦ .truncated .recordBlob
  takeWithin len.toNat walMaxBodyBytes

/-- The value of a blob that holds nothing else. -/
def decodeWhole {α : Type} (decode : Decode α) (undecodable trailing : RecordReason)
    (bytes : Bytes) : RecordDecoder α := fun input ↦
  match decode bytes with
  | .error _ => .error (.corrupt undecodable)
  | .ok (value, rest) => if rest = [] then .ok (value, input) else .error (.corrupt trailing)

def decodeMutationRecord : RecordDecoder WalRecord := do
  let head ← decodeFixedPrefix
  let identity ← decodeIdentityPrefix.mapError fun _ ↦ .corrupt .mutationIdentity
  let mutationBytes ← decodeBlobPrefix
  let expectedBytes ← decodeBlobPrefix
  finish .mutationTrailing
  let mutation ←
    decodeWhole Mutation.decode .mutationUndecodable .mutationIrTrailing mutationBytes
  let expected ←
    decodeWhole OperationResult.decode .expectedUndecodable .expectedTrailing expectedBytes
  return .mutation ⟨head, identity, mutation, expected⟩

def decodeOutcomeRecord : RecordDecoder WalRecord := do
  let head ← decodeFixedPrefix
  let identity ← decodeIdentityPrefix.mapError fun _ ↦ .corrupt .outcomeIdentity
  let outcomeBytes ← decodeBlobPrefix
  finish .outcomeTrailing
  let outcome ←
    decodeWhole DurableOutcome.decode .outcomeUndecodable .outcomeIrTrailing outcomeBytes
  return .outcome ⟨head, identity, outcome⟩

section Checksums

variable (crc32c : Checksum)

def decodeMaterialRecord : RecordDecoder WalRecord := do
  let tablet ← word64 fun _ ↦ .corrupt .materialTablet
  let commit ← word64 fun _ ↦ .corrupt .materialCommit
  let fabricId ← word64 fun _ ↦ .corrupt .materialId
  let version ← word64 fun _ ↦ .corrupt .materialVersion
  let checksum ← word32 fun _ ↦ .corrupt .materialTruncatedChecksum
  let value ← decodeBlobPrefix
  finish .materialTrailing
  if crc32c value ≠ checksum then fail (.corrupt .materialChecksum)
  else return .material ⟨tablet, fabricId, commit, version, checksum, value⟩

def decodeTabletKind (version : UInt16) : UInt16 → RecordDecoder WalRecord
  | 1 => decodeMutationRecord
  | 2 => decodeOutcomeRecord
  | 3 => decodeMaterialRecord crc32c
  | kind => fail (.unknown kind version)

def decodeRecordBody (kind version : UInt16) (body : Bytes) : Except RecordFault WalEntry :=
  if isRaftKind kind then (decodeRaftBody kind version body).map .consensus
  else if version ≠ 1 then .error .unsupportedVersion
  else (decodeTabletKind crc32c version kind body).map fun read ↦ .tablet read.1

/-- The body of a record, which must be there. -/
def takeBody (len : Nat) : Decoder RecoveryError Bytes := fun input ↦
  if walMaxBodyBytes < len ∨ input.length < len then .error (.oversized len walMaxBodyBytes)
  else .ok (input.take len, input.drop len)

/-- One round of the scanner's loop over a batch body. -/
def takeRecord (lane : UInt16) (segment batchSeq : UInt64) :
    Decoder RecoveryError RecoveredRecord := do
  let kind ← word16 fun _ ↦ .corruptSegment lane segment .recordFraming
  let version ← word16 fun _ ↦ .corruptSegment lane segment .recordFraming
  let len ← word32 fun _ ↦ .corruptSegment lane segment .recordFraming
  let body ← takeBody len.toNat
  match decodeRecordBody crc32c kind version body with
  | .error fault => fail (fault.located lane segment)
  | .ok entry => return ⟨batchSeq, entry⟩

/-! ### What is read back -/

theorem reads_decodeFixedPrefix (head : RecordPrefix) :
    Reads decodeFixedPrefix head.encode head := by
  intro rest
  simp [decodeFixedPrefix, RecordPrefix.encode, pushWords, leI64]

theorem reads_decodeIdentityPrefix (identity : Option MutationIdentity) :
    Reads decodeIdentityPrefix (encodeIdentityPrefix identity) identity := by
  intro rest
  cases identity with
  | none => rfl
  | some identity =>
    have hsession (tail : Bytes) :
        decodeSessionId (encodeSessionId identity.client.session ++ tail) =
          .ok (identity.client.session, tail) := decodeSessionId_eq_ok_iff.mpr rfl
    simp [decodeIdentityPrefix, encodeIdentityPrefix, pushWords, decodeU8, decodeU64, hsession]

variable {bytes : Bytes}

theorem reads_decodeBlobPrefix {encoded : Bytes} (h : pushWalBlob bytes = .ok encoded)
    (hsize : encoded.length ≤ walMaxBodyBytes) : Reads decodeBlobPrefix encoded bytes := by
  obtain ⟨hfits, rfl⟩ := Result.ite_eq_ok_iff.mp h
  rw [List.length_append] at hsize
  exact reads_sized hfits (by omega)

theorem decodeWhole_of_reads {α : Type} {decode : Decode α} {value : α}
    (h : Reads decode bytes value) (undecodable trailing : RecordReason) (input : Bytes) :
    decodeWhole decode undecodable trailing bytes input = .ok (value, input) := by
  rw [decodeWhole, h.whole]
  exact if_pos rfl

/-- What the decoder allows. -/
def WalRecord.Minted : WalRecord → Prop
  | .mutation record => record.mutation.WellCounted ∧ record.expected.Bounded
  | .outcome record => record.outcome.Bounded
  | .material record => crc32c record.bytes = record.checksum

def WalEntry.Minted : WalEntry → Prop
  | .tablet record => record.Minted crc32c
  | .consensus record => record.Minted

variable {crc32c} {body : Bytes}

theorem decodeMutationRecord_encode {record : MutationRecord}
    (h : encodeRecordBody (.mutation record) = .ok body) (hsize : body.length ≤ walMaxBodyBytes)
    (hcounted : record.mutation.WellCounted) (hbounded : record.expected.Bounded) :
    decodeMutationRecord body = .ok (.mutation record, []) := by
  obtain ⟨mutation, hmutation, h⟩ := Result.bind_eq_ok_iff.mp h
  obtain ⟨mutationBlob, hfirst, h⟩ := Result.bind_eq_ok_iff.mp h
  obtain ⟨expected, hexpected, h⟩ := Result.bind_eq_ok_iff.mp h
  obtain ⟨expectedBlob, hsecond, h⟩ := Result.bind_eq_ok_iff.mp h
  cases h
  simp only [List.length_append] at hsize
  have hreadFirst := reads_decodeBlobPrefix hfirst (by omega) expectedBlob
  have hreadSecond := (reads_decodeBlobPrefix hsecond (by omega)).whole
  have hwholeFirst := decodeWhole_of_reads
    (Mutation.reads_decode hcounted (Result.orPanic_eq_ok_iff.mp hmutation))
    .mutationUndecodable .mutationIrTrailing []
  have hwholeSecond := decodeWhole_of_reads
    (OperationResult.reads_decode (Result.orPanic_eq_ok_iff.mp hexpected) hbounded)
    .expectedUndecodable .expectedTrailing []
  simp [decodeMutationRecord, reads_decodeFixedPrefix record.head _,
    reads_decodeIdentityPrefix record.identity _, hreadFirst, hreadSecond, hwholeFirst,
    hwholeSecond]

theorem decodeOutcomeRecord_encode {record : OutcomeRecord}
    (h : encodeRecordBody (.outcome record) = .ok body) (hsize : body.length ≤ walMaxBodyBytes)
    (hbounded : record.outcome.Bounded) :
    decodeOutcomeRecord body = .ok (.outcome record, []) := by
  obtain ⟨outcome, houtcome, h⟩ := Result.bind_eq_ok_iff.mp h
  obtain ⟨blob, hblob, h⟩ := Result.bind_eq_ok_iff.mp h
  cases h
  simp only [List.length_append] at hsize
  have hread := (reads_decodeBlobPrefix hblob (by omega)).whole
  have hwhole := decodeWhole_of_reads
    (DurableOutcome.reads_decode (Result.orPanic_eq_ok_iff.mp houtcome) hbounded)
    .outcomeUndecodable .outcomeIrTrailing []
  simp [decodeOutcomeRecord, reads_decodeFixedPrefix record.head _,
    reads_decodeIdentityPrefix record.identity _, hread, hwhole]

theorem decodeMaterialRecord_encode {record : MaterialRecord}
    (h : encodeRecordBody (.material record) = .ok body) (hsize : body.length ≤ walMaxBodyBytes)
    (hsum : crc32c record.bytes = record.checksum) :
    decodeMaterialRecord crc32c body = .ok (.material record, []) := by
  obtain ⟨value, hvalue, h⟩ := Result.bind_eq_ok_iff.mp h
  cases h
  simp only [List.length_append] at hsize
  have hread := (reads_decodeBlobPrefix hvalue (by omega)).whole
  have hchecksum (tail : Bytes) :
      word32 (fun _ ↦ RecordFault.corrupt .materialTruncatedChecksum)
        (leU32 record.checksum ++ tail) = .ok (record.checksum, tail) := word32_append _ _
  simp [decodeMaterialRecord, pushWords, hchecksum, hread, hsum]

variable {entry : WalEntry}

/-- A record that fits a batch is read back if it is minted. -/
theorem decodeRecordBody_encode (h : entry.encodeBody = .ok body)
    (hsize : body.length ≤ walMaxBodyBytes) (hminted : entry.Minted crc32c) :
    decodeRecordBody crc32c entry.kind 1 body = .ok entry := by
  cases entry with
  | consensus record =>
    have hread := decodeRaftBody_encode h hsize hminted
    simp only [decodeRecordBody, WalEntry.kind, isRaftKind_kind, if_true, hread]
    rfl
  | tablet record =>
    have hread : decodeTabletKind crc32c 1 (WalEntry.tablet record).kind body =
        .ok (record, []) := by
      cases record with
      | mutation record => exact decodeMutationRecord_encode h hsize hminted.1 hminted.2
      | outcome record => exact decodeOutcomeRecord_encode h hsize hminted
      | material record => exact decodeMaterialRecord_encode h hsize hminted
    have hkind : isRaftKind (WalEntry.tablet record).kind = false := by cases record <;> rfl
    simp [decodeRecordBody, hkind, hread, Except.map]

theorem reads_takeRecord {frame : Bytes} (h : frameRecord entry = .ok frame)
    (hsize : frame.length ≤ walMaxBodyBytes) (hminted : entry.Minted crc32c) (lane : UInt16)
    (segment batchSeq : UInt64) :
    Reads (takeRecord crc32c lane segment batchSeq) frame ⟨batchSeq, entry⟩ := by
  obtain ⟨body, hbody, hframe⟩ := Result.bind_eq_ok_iff.mp h
  split_ifs at hframe with hfits
  cases hframe
  have hlen : (UInt32.ofNat body.length).toNat = body.length := UInt32.toNat_ofNat_of_lt' hfits
  have hbound : body.length ≤ walMaxBodyBytes := by
    simp only [List.length_append] at hsize
    omega
  have hdecode := decodeRecordBody_encode hbody hbound hminted
  intro rest
  simp only [takeRecord, leU16, leU32, List.append_assoc, bind_apply, word16_append,
    word32_append]
  have hthere : ¬(walMaxBodyBytes < body.length ∨ (body ++ rest).length < body.length) := by
    rw [List.length_append]
    omega
  rw [hlen, takeBody, if_neg hthere, List.take_left, List.drop_left]
  simp only [hdecode, pure_apply]

theorem reads_takeRecords {entries : List WalEntry} (h : writeEach frameRecord entries = .ok body)
    (hsize : body.length ≤ walMaxBodyBytes) (hminted : ∀ entry ∈ entries, entry.Minted crc32c)
    (lane : UInt16) (segment batchSeq : UInt64) :
    Reads ((takeRecord crc32c lane segment batchSeq).many entries.length) body
      (entries.map (RecoveredRecord.mk batchSeq)) := by
  induction entries generalizing body with
  | nil =>
    cases h
    exact reads_pure []
  | cons entry rest ih =>
    obtain ⟨first, hfirst, hothers⟩ := Result.bind_eq_ok_iff.mp h
    obtain ⟨second, hsecond, hall⟩ := Result.bind_eq_ok_iff.mp hothers
    cases hall
    rw [List.length_append] at hsize
    have hentry := reads_takeRecord hfirst (by omega) (hminted entry List.mem_cons_self) lane
      segment batchSeq
    have hrest := ih hsecond (by omega) fun other hmem ↦ hminted other (List.mem_cons_of_mem _ hmem)
    have hboth : Reads ((takeRecord crc32c lane segment batchSeq).many (rest.length + 1))
        (first ++ (second ++ [])) (⟨batchSeq, entry⟩ :: rest.map (RecoveredRecord.mk batchSeq)) :=
      hentry.bind (hrest.bind (reads_pure _))
    rwa [List.append_nil] at hboth

theorem Batch.encode_eq_ok_iff {batch : Batch} :
    batch.encode = .ok body ↔
      writeEach frameRecord batch.entries = .ok body ∧ batch.entries.length ≠ 0 ∧
        batch.entries.length ≤ walMaxRecordsPerBatch ∧ body.length ≤ walMaxBodyBytes := by
  rw [Batch.encode, Result.bind_eq_ok_iff]
  constructor
  · rintro ⟨written, hwritten, h⟩
    obtain ⟨_, hcheck, hbody⟩ := Result.bind_eq_ok_iff.mp h
    cases hbody
    unfold checkBatchBody at hcheck
    split_ifs at hcheck with hcount hsize
    push Not at hcount hsize
    exact ⟨hwritten, hcount.1, hcount.2, hsize⟩
  · rintro ⟨hwritten, hnonempty, hcount, hsize⟩
    refine ⟨body, hwritten, Result.bind_eq_ok_iff.mpr ⟨(), ?_, rfl⟩⟩
    rw [checkBatchBody, if_neg (by omega), if_neg (by omega)]

/-- The scanner reads back the records of a batch if they are minted. -/
theorem takeRecords_encode {batch : Batch} (h : batch.encode = .ok body)
    (hminted : ∀ entry ∈ batch.entries, entry.Minted crc32c) (lane : UInt16)
    (segment batchSeq : UInt64) :
    (takeRecord crc32c lane segment batchSeq).many batch.entries.length body =
      .ok (batch.entries.map (RecoveredRecord.mk batchSeq), []) := by
  obtain ⟨hwritten, -, -, hsize⟩ := Batch.encode_eq_ok_iff.mp h
  exact (reads_takeRecords hwritten hsize hminted lane segment batchSeq).whole

end Checksums

end Kivi.Durability
