import Kivi.Durability.WalRecords
import Kivi.Library.FramedScan

/-!
# Segment files of the write-ahead log

A segment file is a header of 56 bytes and then batches back to back: a header of 40 bytes, the
body and a footer of 20 bytes. `scanSegment` validates a file as recovery does. It reads the
batches of a file written by `segmentHeader` and `frame` (`scanSegment_whole`), and drops what
follows them if the file is the last one and ends inside a batch (`scanSegment_torn`).
-/

namespace Kivi.Durability

open Library Library.Bytes Library.Codec Library.Codec.Decoder
open Library.FramedScan
open State (leU32 length_leU32)

def walMagicSegment : UInt32 := 0x4C57564B

def walMagicBatch : UInt32 := 0x4257564B

def walMagicFooter : UInt32 := 0x4557564B

def segmentHeaderLen : Nat := 56

def batchHeaderLen : Nat := 40

def batchFooterLen : Nat := 20

/-- What the log stamps into every segment it writes. -/
structure LaneIdentity where
  cluster : BitVec 128
  node : NodeId
  incarnation : UInt64
deriving DecidableEq

/-! ### Layouts -/

/-- The fields of a segment header that its checksum covers. -/
structure SegmentHeader where
  magic : UInt32
  major : UInt16
  minor : UInt16
  cluster : BitVec 128
  node : UInt64
  incarnation : UInt64
  lane : UInt16
  segmentSeq : UInt64
  reserved : UInt16

/-- The fields of a batch header that its checksum covers. -/
structure BatchHeader where
  magic : UInt32
  major : UInt16
  minor : UInt16
  batchSeq : UInt64
  bodyLen : UInt32
  recordCount : UInt16
  flags : UInt16
  lane : UInt16
  segmentSeq : UInt64
  reserved : UInt16

/-- The fields of a batch footer that its checksum covers. -/
structure BatchFooter where
  magic : UInt32
  batchSeq : UInt64
  bodyCrc : UInt32

def SegmentHeader.covered (header : SegmentHeader) : Bytes :=
  leU32 header.magic ++ (leU16 header.major ++ (leU16 header.minor ++
    (leBytes 16 header.cluster.toNat ++ ((leU64 header.node).bytes ++
      ((leU64 header.incarnation).bytes ++ (leU16 header.lane ++
        ((leU64 header.segmentSeq).bytes ++ leU16 header.reserved)))))))

def BatchHeader.covered (header : BatchHeader) : Bytes :=
  leU32 header.magic ++ (leU16 header.major ++ (leU16 header.minor ++
    ((leU64 header.batchSeq).bytes ++ (leU32 header.bodyLen ++ (leU16 header.recordCount ++
      (leU16 header.flags ++ (leU16 header.lane ++ ((leU64 header.segmentSeq).bytes ++
        leU16 header.reserved))))))))

def BatchFooter.covered (footer : BatchFooter) : Bytes :=
  leU32 footer.magic ++ ((leU64 footer.batchSeq).bytes ++ leU32 footer.bodyCrc)

section Reading

variable {ε : Type} (unreadable : ε)

def readCluster : Decoder ε (BitVec 128) :=
  (fun raw ↦ BitVec.ofNat 128 (ofLeBytes raw.bytes)) <$> fixed 16 fun _ ↦ unreadable

def readSegmentHeader : Decoder ε (SegmentHeader × UInt32) := do
  let magic ← word32 fun _ ↦ unreadable
  let major ← word16 fun _ ↦ unreadable
  let minor ← word16 fun _ ↦ unreadable
  let cluster ← readCluster unreadable
  let node ← word64 fun _ ↦ unreadable
  let incarnation ← word64 fun _ ↦ unreadable
  let lane ← word16 fun _ ↦ unreadable
  let segmentSeq ← word64 fun _ ↦ unreadable
  let reserved ← word16 fun _ ↦ unreadable
  let headerCrc ← word32 fun _ ↦ unreadable
  return (⟨magic, major, minor, cluster, node, incarnation, lane, segmentSeq, reserved⟩, headerCrc)

def readBatchHeader : Decoder ε (BatchHeader × UInt32) := do
  let magic ← word32 fun _ ↦ unreadable
  let major ← word16 fun _ ↦ unreadable
  let minor ← word16 fun _ ↦ unreadable
  let batchSeq ← word64 fun _ ↦ unreadable
  let bodyLen ← word32 fun _ ↦ unreadable
  let recordCount ← word16 fun _ ↦ unreadable
  let flags ← word16 fun _ ↦ unreadable
  let lane ← word16 fun _ ↦ unreadable
  let segmentSeq ← word64 fun _ ↦ unreadable
  let reserved ← word16 fun _ ↦ unreadable
  let headerCrc ← word32 fun _ ↦ unreadable
  return (⟨magic, major, minor, batchSeq, bodyLen, recordCount, flags, lane, segmentSeq,
    reserved⟩, headerCrc)

def readBatchFooter : Decoder ε (BatchFooter × UInt32) := do
  let magic ← word32 fun _ ↦ unreadable
  let batchSeq ← word64 fun _ ↦ unreadable
  let bodyCrc ← word32 fun _ ↦ unreadable
  let footerCrc ← word32 fun _ ↦ unreadable
  return (⟨magic, batchSeq, bodyCrc⟩, footerCrc)

end Reading

/-! ### What the layouts read back -/

@[simp] theorem length_covered_segmentHeader (header : SegmentHeader) :
    header.covered.length = 52 := by
  simp only [SegmentHeader.covered, List.length_append, length_leU32, length_leU16, length_leBytes,
    FixedBytes.length_eq]

@[simp] theorem length_covered_batchHeader (header : BatchHeader) : header.covered.length = 36 := by
  simp only [BatchHeader.covered, List.length_append, length_leU32, length_leU16,
    FixedBytes.length_eq]

@[simp] theorem length_covered_batchFooter (footer : BatchFooter) : footer.covered.length = 16 := by
  simp only [BatchFooter.covered, List.length_append, length_leU32, FixedBytes.length_eq]

section Layouts

variable {ε : Type} {unreadable : ε} {bytes rest : Bytes} {stored : UInt32}

theorem readCluster_eq_ok_iff {cluster : BitVec 128} :
    readCluster unreadable bytes = .ok (cluster, rest) ↔
      bytes = leBytes 16 cluster.toNat ++ rest := by
  have hpow : 256 ^ 16 = 2 ^ 128 := by norm_num
  have hleft (raw : FixedBytes 16) :
      leBytes 16 (BitVec.ofNat 128 (ofLeBytes raw.bytes)).toNat = raw.bytes := by
    have hfits : ofLeBytes raw.bytes < 2 ^ 128 := hpow ▸ raw.ofLeBytes_lt
    rw [BitVec.toNat_ofNat, Nat.mod_eq_of_lt hfits, raw.leBytes_ofLeBytes]
  refine map_fixed_eq_ok_iff (fun cluster : BitVec 128 ↦ leBytes 16 cluster.toNat) hleft ?_
  intro cluster rest
  have hfits : cluster.toNat < 256 ^ 16 := hpow ▸ cluster.isLt
  obtain ⟨raw, hread, hvalue⟩ :=
    @fixed_leBytes ε (fun _ ↦ unreadable) 16 cluster.toNat hfits rest
  simp [hread, hvalue]

theorem readSegmentHeader_eq_ok_iff {header : SegmentHeader} :
    readSegmentHeader unreadable bytes = .ok ((header, stored), rest) ↔
      bytes = header.covered ++ (leU32 stored ++ rest) := by
  constructor
  · intro h
    simp only [readSegmentHeader, bind_eq_ok_iff, word32_eq_ok_iff, word16_eq_ok_iff,
      word64_eq_ok_iff, readCluster_eq_ok_iff, pure_eq_ok_iff, Prod.mk.injEq] at h
    obtain ⟨_, _, rfl, _, _, rfl, _, _, rfl, _, _, rfl, _, _, rfl, _, _, rfl, _, _, rfl, _, _, rfl,
      _, _, rfl, _, _, rfl, ⟨rfl, rfl⟩, rfl⟩ := h
    simp only [SegmentHeader.covered, leU32, leU16, List.append_assoc]
  · rintro rfl
    have hcluster (tail : Bytes) :
        readCluster unreadable (leBytes 16 header.cluster.toNat ++ tail) =
          .ok (header.cluster, tail) := readCluster_eq_ok_iff.mpr rfl
    simp only [readSegmentHeader, SegmentHeader.covered, leU32, leU16, List.append_assoc,
      bind_apply, word32_append, word16_append, word64_append, hcluster, pure_apply]

theorem readBatchHeader_eq_ok_iff {header : BatchHeader} :
    readBatchHeader unreadable bytes = .ok ((header, stored), rest) ↔
      bytes = header.covered ++ (leU32 stored ++ rest) := by
  constructor
  · intro h
    simp only [readBatchHeader, bind_eq_ok_iff, word32_eq_ok_iff, word16_eq_ok_iff,
      word64_eq_ok_iff, pure_eq_ok_iff, Prod.mk.injEq] at h
    obtain ⟨_, _, rfl, _, _, rfl, _, _, rfl, _, _, rfl, _, _, rfl, _, _, rfl, _, _, rfl, _, _, rfl,
      _, _, rfl, _, _, rfl, _, _, rfl, ⟨rfl, rfl⟩, rfl⟩ := h
    simp only [BatchHeader.covered, leU32, leU16, List.append_assoc]
  · rintro rfl
    simp only [readBatchHeader, BatchHeader.covered, leU32, leU16, List.append_assoc,
      bind_apply, word32_append, word16_append, word64_append, pure_apply]

theorem readBatchFooter_eq_ok_iff {footer : BatchFooter} :
    readBatchFooter unreadable bytes = .ok ((footer, stored), rest) ↔
      bytes = footer.covered ++ (leU32 stored ++ rest) := by
  constructor
  · intro h
    simp only [readBatchFooter, bind_eq_ok_iff, word32_eq_ok_iff, word64_eq_ok_iff,
      pure_eq_ok_iff, Prod.mk.injEq] at h
    obtain ⟨_, _, rfl, _, _, rfl, _, _, rfl, _, _, rfl, ⟨rfl, rfl⟩, rfl⟩ := h
    simp only [BatchFooter.covered, leU32, List.append_assoc]
  · rintro rfl
    simp only [readBatchFooter, BatchFooter.covered, leU32, List.append_assoc, bind_apply,
      word32_append, word64_append, pure_apply]

end Layouts

/-! ### Writing -/

section Checksums

variable (crc32c : Checksum)

/-- Bytes behind which their checksum follows. -/
def sealed (covered : Bytes) : Bytes := covered ++ leU32 (crc32c covered)

variable (lane : UInt16)

def segmentHeader (identity : LaneIdentity) (segment : UInt64) : Bytes :=
  sealed crc32c (SegmentHeader.covered ⟨walMagicSegment, 1, 0, identity.cluster, identity.node,
    identity.incarnation, lane, segment, 0⟩)

/-- The bytes of one batch on disk. -/
def frame (segment batchSeq : UInt64) (body : Bytes) (count : Nat) : Bytes :=
  sealed crc32c (BatchHeader.covered ⟨walMagicBatch, 1, 0, batchSeq, UInt32.ofNat body.length,
    UInt16.ofNat count, 0, lane, segment, 0⟩) ++
  (body ++ sealed crc32c (BatchFooter.covered ⟨walMagicFooter, batchSeq, crc32c body⟩))

/-! ### Scanning -/

/-- The checks of `scan_segment` before its loop. -/
def checkSegmentHeader (identity : LaneIdentity) (segment : UInt64) (bytes : Bytes) :
    Except RecoveryError Unit := do
  let ((header, stored), _) ←
    readSegmentHeader (.corruptSegment lane segment .unreadableHeader) bytes
  if header.magic ≠ walMagicSegment then
    throw (.corruptSegment lane segment .segmentMagic)
  if header.major ≠ 1 ∨ header.minor ≠ 0 then
    throw (.unsupportedVersion header.major header.minor .segment)
  if header.cluster ≠ identity.cluster ∨ header.node ≠ identity.node ∨ header.lane ≠ lane ∨
      header.segmentSeq ≠ segment then
    throw (.misdirected .segmentIdentity)
  if identity.incarnation < header.incarnation then
    throw (.misdirected .futureIncarnation)
  if crc32c (bytes.take (segmentHeaderLen - 4)) ≠ stored then
    throw (.corruptSegment lane segment .segmentChecksum)

/-- The number the next batch must carry, and what was read so far. -/
structure ScanState where
  expected : UInt64
  records : List RecoveredRecord

/-- The checks on a batch header before its lengths are trusted. -/
def checkBatchHeader (segment expected : UInt64) (bytes : Bytes) :
    Except RecoveryError BatchHeader := do
  let ((header, stored), _) ←
    readBatchHeader (.corruptSegment lane segment .unreadableBatchHeader) bytes
  if header.magic ≠ walMagicBatch then
    throw (.corruptSegment lane segment .batchMagic)
  if header.major ≠ 1 ∨ header.minor ≠ 0 then
    throw (.unsupportedVersion header.major header.minor .batch)
  if header.flags ≠ 0 then
    throw (.corruptSegment lane segment .batchFlags)
  if header.lane ≠ lane ∨ header.segmentSeq ≠ segment then
    throw (.misdirected .batchPlace)
  if header.batchSeq ≠ expected then
    throw (.corruptSegment lane segment .batchSequence)
  if crc32c (bytes.take (batchHeaderLen - 4)) ≠ stored then
    throw (.corruptSegment lane segment .batchChecksum)
  if walMaxBodyBytes < header.bodyLen.toNat then
    throw (.oversized header.bodyLen.toNat walMaxBodyBytes)
  if header.recordCount.toNat = 0 ∨ walMaxRecordsPerBatch < header.recordCount.toNat then
    throw (.corruptSegment lane segment .recordCount)
  return header

/-- The checks on the body and footer of a batch that is there as a whole, and its records. -/
def readBatch (segment batchSeq : UInt64) (count : Nat) (body footerBytes : Bytes) :
    Except RecoveryError (List RecoveredRecord) := do
  let ((footer, stored), _) ←
    readBatchFooter (.corruptSegment lane segment .unreadableFooter) footerBytes
  if footer.magic ≠ walMagicFooter ∨ footer.batchSeq ≠ batchSeq then
    throw (.corruptSegment lane segment .batchFooter)
  if crc32c body ≠ footer.bodyCrc then
    throw (.corruptSegment lane segment .bodyChecksum)
  if crc32c (footerBytes.take (batchFooterLen - 4)) ≠ stored then
    throw (.corruptSegment lane segment .footerChecksum)
  let (records, left) ← (takeRecord crc32c lane segment batchSeq).many count body
  if left ≠ [] then
    throw (.corruptSegment lane segment .trailingBody)
  return records

/-- One round of the loop of `scan_segment`. -/
def parseBatch (segment : UInt64) (state : ScanState) (bytes : Bytes) :
    Except RecoveryError (Parsed ScanState SegmentReason) := do
  if bytes.length < batchHeaderLen then
    return .torn .truncatedBatchHeader
  let header ← checkBatchHeader crc32c lane segment state.expected bytes
  let need := batchHeaderLen + header.bodyLen.toNat + batchFooterLen
  if bytes.length < need then
    return .torn .truncatedBatch
  let rest := bytes.drop batchHeaderLen
  let records ← readBatch crc32c lane segment header.batchSeq header.recordCount.toNat
    (rest.take header.bodyLen.toNat) ((rest.drop header.bodyLen.toNat).take batchFooterLen)
  return .item ⟨state.expected + 1, state.records ++ records⟩ need

/-- What a scan keeps of a file and what it drops. -/
structure ScannedSegment where
  kept : Nat
  truncated : Nat
  state : ScanState

def scanSegment (identity : LaneIdentity) (segment : UInt64) (bytes : Bytes)
    (isLast : Bool) (state : ScanState) : Except RecoveryError ScannedSegment := do
  if bytes.length < segmentHeaderLen then
    if isLast then return ⟨0, bytes.length, state⟩
    else throw (.corruptSegment lane segment .shortHeader)
  checkSegmentHeader crc32c lane identity segment bytes
  let scanned ← scan (parseBatch crc32c lane segment) bytes.length state segmentHeaderLen
    (bytes.drop segmentHeaderLen)
  match scanned.torn with
  | none => return ⟨scanned.kept, 0, scanned.state⟩
  | some reason =>
    if isLast then return ⟨scanned.kept, bytes.length - scanned.kept, scanned.state⟩
    else throw (.corruptSegment lane segment reason)

/-! ### What the checks accept -/

/-- The header belongs to this file of this lane and was not written by a later process. -/
structure SegmentHeader.Accepted (header : SegmentHeader) (lane : UInt16)
    (identity : LaneIdentity) (segment : UInt64) : Prop where
  magic : header.magic = walMagicSegment
  major : header.major = 1
  minor : header.minor = 0
  cluster : header.cluster = identity.cluster
  node : header.node = identity.node
  lane : header.lane = lane
  segmentSeq : header.segmentSeq = segment
  incarnation : ¬identity.incarnation < header.incarnation

/-- The header stands in this file, carries the expected number and announces sane lengths. -/
structure BatchHeader.Accepted (header : BatchHeader) (lane : UInt16)
    (segment expected : UInt64) : Prop where
  magic : header.magic = walMagicBatch
  major : header.major = 1
  minor : header.minor = 0
  flags : header.flags = 0
  lane : header.lane = lane
  segmentSeq : header.segmentSeq = segment
  batchSeq : header.batchSeq = expected
  bodyLen : header.bodyLen.toNat ≤ walMaxBodyBytes
  recordCount : header.recordCount.toNat ≠ 0
  recordCount_le : header.recordCount.toNat ≤ walMaxRecordsPerBatch

variable {crc32c}

@[simp] theorem length_sealed (covered : Bytes) :
    (sealed crc32c covered).length = covered.length + 4 := by
  rw [sealed, List.length_append, length_leU32]

theorem sealed_append (covered rest : Bytes) :
    sealed crc32c covered ++ rest = covered ++ (leU32 (crc32c covered) ++ rest) :=
  List.append_assoc _ _ _

theorem take_sealed {covered : Bytes} {len : Nat} (h : covered.length = len)
    (rest : Bytes) : (sealed crc32c covered ++ rest).take len = covered := by
  rw [sealed_append]
  exact List.take_left' h

variable {lane : UInt16} {identity : LaneIdentity} {segment : UInt64} {bytes : Bytes}

theorem checkSegmentHeader_eq_ok_iff :
    checkSegmentHeader crc32c lane identity segment bytes = .ok () ↔
      ∃ header : SegmentHeader, header.Accepted lane identity segment ∧
        ∃ rest, bytes = sealed crc32c header.covered ++ rest := by
  simp only [checkSegmentHeader, bind, Except.bind, throw, throwThe, MonadExceptOf.throw, pure,
    Except.pure]
  constructor
  · intro h
    split at h
    · cases h
    next read hread =>
      obtain ⟨⟨header, stored⟩, rest⟩ := read
      obtain rfl := readSegmentHeader_eq_ok_iff.mp hread
      split_ifs at h with hmagic hversion hplace hfuture hsum
      push Not at hmagic hversion hplace hsum
      rw [List.take_left' (by rw [length_covered_segmentHeader]; rfl)] at hsum
      refine ⟨header, ⟨hmagic, hversion.1, hversion.2, hplace.1, hplace.2.1, hplace.2.2.1,
        hplace.2.2.2, hfuture⟩, rest, ?_⟩
      rw [sealed, hsum, List.append_assoc]
  · rintro ⟨header, haccepted, rest, rfl⟩
    have hlen : header.covered.length = segmentHeaderLen - 4 := length_covered_segmentHeader header
    rw [readSegmentHeader_eq_ok_iff.mpr (sealed_append _ _)]
    cases haccepted
    simp [take_sealed hlen, *]

theorem checkBatchHeader_eq_ok_iff {expected : UInt64} {header : BatchHeader} :
    checkBatchHeader crc32c lane segment expected bytes = .ok header ↔
      header.Accepted lane segment expected ∧
        ∃ rest, bytes = sealed crc32c header.covered ++ rest := by
  simp only [checkBatchHeader, bind, Except.bind, throw, throwThe, MonadExceptOf.throw, pure,
    Except.pure]
  constructor
  · intro h
    split at h
    · cases h
    next read hread =>
      obtain ⟨⟨found, stored⟩, rest⟩ := read
      obtain rfl := readBatchHeader_eq_ok_iff.mp hread
      split_ifs at h with hmagic hversion hflags hplace hnumber hsum hsize hcount
      cases h
      push Not at hmagic hversion hflags hplace hnumber hsum hsize hcount
      rw [List.take_left' (by rw [length_covered_batchHeader]; rfl)] at hsum
      refine ⟨⟨hmagic, hversion.1, hversion.2, hflags, hplace.1, hplace.2, hnumber, hsize,
        hcount.1, hcount.2⟩, rest, ?_⟩
      rw [sealed, hsum, List.append_assoc]
  · rintro ⟨haccepted, rest, rfl⟩
    have hlen : header.covered.length = batchHeaderLen - 4 := length_covered_batchHeader header
    rw [readBatchHeader_eq_ok_iff.mpr (sealed_append _ _)]
    cases haccepted
    simp [take_sealed hlen, ← Nat.not_le, *]

/-- A batch is read if its footer fits and its records fill the body. -/
theorem readBatch_eq_ok_iff {batchSeq : UInt64} {count : Nat} {body footerBytes : Bytes}
    {records : List RecoveredRecord} :
    readBatch crc32c lane segment batchSeq count body footerBytes = .ok records ↔
      (∃ rest, footerBytes = sealed crc32c
          (BatchFooter.covered ⟨walMagicFooter, batchSeq, crc32c body⟩) ++ rest) ∧
        (takeRecord crc32c lane segment batchSeq).many count body = .ok (records, []) := by
  simp only [readBatch, bind, Except.bind, throw, throwThe, MonadExceptOf.throw, pure,
    Except.pure]
  constructor
  · intro h
    split at h
    · cases h
    next read hread =>
      obtain ⟨⟨⟨magic, number, sum⟩, stored⟩, rest⟩ := read
      obtain rfl := readBatchFooter_eq_ok_iff.mp hread
      split_ifs at h with hplace hbody hsum
      push Not at hplace hbody hsum
      rw [List.take_left' (by rw [length_covered_batchFooter]; rfl)] at hsum
      split at h
      · cases h
      next taken hrecords =>
        obtain ⟨found, left⟩ := taken
        split_ifs at h with hleft
        cases h
        push Not at hleft
        dsimp only at hplace hbody hleft
        obtain ⟨rfl, rfl⟩ := hplace
        subst hbody hleft hsum
        refine ⟨⟨rest, ?_⟩, hrecords⟩
        rw [sealed, List.append_assoc]
  · rintro ⟨⟨rest, rfl⟩, hrecords⟩
    have hlen : (BatchFooter.covered ⟨walMagicFooter, batchSeq, crc32c body⟩).length =
        batchFooterLen - 4 := length_covered_batchFooter _
    rw [readBatchFooter_eq_ok_iff.mpr (sealed_append _ _)]
    simp [take_sealed hlen, hrecords]

/-! ### Batches that are there as a whole, and a batch that is cut off -/

/-- The records of a batch as recovery returns them. -/
def Batch.records (batch : Batch) (batchSeq : UInt64) : List RecoveredRecord :=
  batch.entries.map (RecoveredRecord.mk batchSeq)

/-- A batch that the encoder accepts and the decoder reads back, with its body. -/
structure WrittenBatch (crc32c : Checksum) where
  batch : Batch
  body : Bytes
  encode_eq : batch.encode = .ok body
  minted : ∀ entry ∈ batch.entries, entry.Minted crc32c

namespace WrittenBatch

def frame (written : WrittenBatch crc32c) (lane : UInt16) (segment batchSeq : UInt64) :
    Bytes :=
  Durability.frame crc32c lane segment batchSeq written.body written.batch.entries.length

end WrittenBatch

@[simp] theorem length_frame (lane : UInt16) (segment batchSeq : UInt64) (body : Bytes)
    (count : Nat) :
    (frame crc32c lane segment batchSeq body count).length =
      batchHeaderLen + body.length + batchFooterLen := by
  simp only [frame, List.length_append, length_sealed, length_covered_batchHeader,
    length_covered_batchFooter, batchHeaderLen, batchFooterLen]
  omega

variable {state : ScanState}

/-- Behind an accepted header, the batch is torn, refused or read. -/
theorem parseBatch_of_header {header : BatchHeader} {rest : Bytes}
    (haccepted : header.Accepted lane segment state.expected) :
    parseBatch crc32c lane segment state (sealed crc32c header.covered ++ rest) =
      if rest.length < header.bodyLen.toNat + batchFooterLen then .ok (.torn .truncatedBatch)
      else match readBatch crc32c lane segment header.batchSeq header.recordCount.toNat
          (rest.take header.bodyLen.toNat)
          ((rest.drop header.bodyLen.toNat).take batchFooterLen) with
        | .error error => .error error
        | .ok records => .ok (.item ⟨state.expected + 1, state.records ++ records⟩
            (batchHeaderLen + header.bodyLen.toNat + batchFooterLen)) := by
  have hheader : (sealed crc32c header.covered).length = batchHeaderLen := by
    rw [length_sealed, length_covered_batchHeader]
    rfl
  have hlength : (sealed crc32c header.covered ++ rest).length = batchHeaderLen + rest.length := by
    rw [List.length_append, hheader]
  have hcheck : checkBatchHeader crc32c lane segment state.expected
      (sealed crc32c header.covered ++ rest) = .ok header :=
    checkBatchHeader_eq_ok_iff.mpr ⟨haccepted, rest, rfl⟩
  simp only [parseBatch, bind, Except.bind, pure, Except.pure, hlength, hcheck,
    List.drop_left' hheader]
  rw [if_neg (by omega)]
  by_cases hcut : rest.length < header.bodyLen.toNat + batchFooterLen
  · rw [if_pos hcut, if_pos (by omega)]
  · rw [if_neg hcut, if_neg (by omega)]
    cases readBatch crc32c lane segment header.batchSeq header.recordCount.toNat
        (rest.take header.bodyLen.toNat)
        ((rest.drop header.bodyLen.toNat).take batchFooterLen) with
    | error error => rfl
    | ok records => rfl

/-- The header that a frame starts with. -/
theorem accepted_of_sizes {body : Bytes} {count : Nat} (hsize : body.length ≤ walMaxBodyBytes)
    (hcount : count ≠ 0) (hbound : count ≤ walMaxRecordsPerBatch) (lane : UInt16)
    (segment batchSeq : UInt64) :
    BatchHeader.Accepted ⟨walMagicBatch, 1, 0, batchSeq, UInt32.ofNat body.length,
      UInt16.ofNat count, 0, lane, segment, 0⟩ lane segment batchSeq ∧
      (UInt32.ofNat body.length).toNat = body.length ∧ (UInt16.ofNat count).toNat = count := by
  have hlen : (UInt32.ofNat body.length).toNat = body.length :=
    UInt32.toNat_ofNat_of_lt' (lt_of_le_of_lt hsize (by decide))
  have hrecords : (UInt16.ofNat count).toNat = count :=
    UInt16.toNat_ofNat_of_lt' (lt_of_le_of_lt hbound (by decide))
  refine ⟨⟨rfl, rfl, rfl, rfl, rfl, rfl, rfl, ?_, ?_, ?_⟩, hlen, hrecords⟩
  · rw [hlen]
    exact hsize
  · rw [hrecords]
    exact hcount
  · rw [hrecords]
    exact hbound

namespace WrittenBatch

variable (written : WrittenBatch crc32c)

/-- A written batch is read back. -/
theorem parseBatch_frame (lane : UInt16) (segment : UInt64) (state : ScanState)
    (rest : Bytes) :
    parseBatch crc32c lane segment state (written.frame lane segment state.expected ++ rest) =
      .ok (.item ⟨state.expected + 1, state.records ++ written.batch.records state.expected⟩
        (written.frame lane segment state.expected).length) := by
  obtain ⟨-, hcount, hbound, hsize⟩ := Batch.encode_eq_ok_iff.mp written.encode_eq
  obtain ⟨haccepted, hlen, hrecords⟩ :=
    accepted_of_sizes hsize hcount hbound lane segment state.expected
  have hread := takeRecords_encode written.encode_eq written.minted lane segment state.expected
  rw [frame, length_frame, Durability.frame, List.append_assoc, parseBatch_of_header haccepted]
  simp only [hlen, hrecords]
  set footer := sealed crc32c
    (BatchFooter.covered ⟨walMagicFooter, state.expected, crc32c written.body⟩) with hfooter
  have hfooterLength : footer.length = batchFooterLen := by
    rw [hfooter, length_sealed, length_covered_batchFooter]
    rfl
  have hthere :
      ¬(written.body ++ footer ++ rest).length < written.body.length + batchFooterLen := by
    simp only [List.length_append, hfooterLength]
    omega
  have hbatch : readBatch crc32c lane segment state.expected written.batch.entries.length
      written.body footer = .ok (written.batch.records state.expected) :=
    readBatch_eq_ok_iff.mpr ⟨⟨[], (List.append_nil _).symm⟩, hread⟩
  rw [if_neg hthere, List.append_assoc, List.take_left, List.drop_left,
    List.take_left' hfooterLength, hbatch]

/-- A file that ends inside a batch is torn there. -/
theorem parseBatch_cut {lane : UInt16} {segment : UInt64} {state : ScanState} {part : Bytes}
    (hpart : part <+: written.frame lane segment state.expected)
    (hcut : part.length < (written.frame lane segment state.expected).length) :
    ∃ reason, parseBatch crc32c lane segment state part = .ok (.torn reason) := by
  obtain ⟨-, hcount, hbound, hsize⟩ := Batch.encode_eq_ok_iff.mp written.encode_eq
  obtain ⟨haccepted, hlen, -⟩ :=
    accepted_of_sizes hsize hcount hbound lane segment state.expected
  by_cases hshort : part.length < batchHeaderLen
  · exact ⟨_, if_pos hshort⟩
  · have hheader : sealed crc32c (BatchHeader.covered ⟨walMagicBatch, 1, 0, state.expected,
        UInt32.ofNat written.body.length, UInt16.ofNat written.batch.entries.length, 0, lane,
        segment, 0⟩) <+: part := by
      refine List.prefix_of_prefix_length_le (List.prefix_append _ _) hpart ?_
      rw [length_sealed, length_covered_batchHeader]
      exact Nat.not_lt.mp hshort
    obtain ⟨rest, rfl⟩ := hheader
    rw [frame, length_frame, List.length_append, length_sealed, length_covered_batchHeader] at hcut
    have hless : rest.length < written.body.length + batchFooterLen := by
      unfold batchHeaderLen at hcut
      omega
    refine ⟨.truncatedBatch, ?_⟩
    rw [parseBatch_of_header haccepted, hlen, if_pos hless]

end WrittenBatch

/-! ### Whole files -/

/-- Batches back to back, numbered from the given one. -/
def framesOf (lane : UInt16) (segment : UInt64) : UInt64 → List (WrittenBatch crc32c) → Bytes
  | _, [] => []
  | batchSeq, written :: rest =>
    written.frame lane segment batchSeq ++ framesOf lane segment (batchSeq + 1) rest

/-- The records of batches numbered from the given one. -/
def recordsOf : UInt64 → List Batch → List RecoveredRecord
  | _, [] => []
  | batchSeq, batch :: rest => batch.records batchSeq ++ recordsOf (batchSeq + 1) rest

/-- What the batches hold. -/
def batchesOf (batches : List (WrittenBatch crc32c)) : List Batch := batches.map (·.batch)

@[simp] theorem length_batchesOf (batches : List (WrittenBatch crc32c)) :
    (batchesOf batches).length = batches.length := List.length_map _

@[simp] theorem batchesOf_append (front back : List (WrittenBatch crc32c)) :
    batchesOf (front ++ back) = batchesOf front ++ batchesOf back := List.map_append

/-- Less than a whole batch with the given number. -/
def CutOff (crc32c : Checksum) (lane : UInt16) (segment batchSeq : UInt64)
    (part : Bytes) : Prop :=
  part = [] ∨ ∃ written : WrittenBatch crc32c, part <+: written.frame lane segment batchSeq ∧
    part.length < (written.frame lane segment batchSeq).length

/-- The process that wrote a file is this one or an earlier one of the same node. -/
structure LaneIdentity.Precedes (writer identity : LaneIdentity) : Prop where
  cluster : writer.cluster = identity.cluster
  node : writer.node = identity.node
  incarnation : writer.incarnation ≤ identity.incarnation

theorem succ_add_ofNat (first : UInt64) (count : Nat) :
    first + 1 + UInt64.ofNat count = first + UInt64.ofNat (count + 1) := by
  rw [UInt64.add_assoc, UInt64.add_comm 1, ← UInt64.ofNat_one, ← UInt64.ofNat_add]

theorem add_length_nil {α : Type} (number : UInt64) :
    number + UInt64.ofNat ([] : List α).length = number :=
  UInt64.add_zero number

theorem succ_ne_self (number : UInt64) : number + 1 ≠ number := by
  intro h
  exact absurd ((UInt64.add_right_inj number).mp (h.trans (UInt64.add_zero number).symm))
    (by decide)

theorem framesOf_append (lane : UInt16) (segment first : UInt64)
    (front back : List (WrittenBatch crc32c)) :
    framesOf lane segment first (front ++ back) =
      framesOf lane segment first front ++
        framesOf lane segment (first + UInt64.ofNat front.length) back := by
  induction front generalizing first with
  | nil => simp [framesOf]
  | cons written rest ih =>
    rw [List.cons_append, framesOf, framesOf, ih, List.append_assoc, List.length_cons,
      succ_add_ofNat]

theorem recordsOf_append (first : UInt64) (front back : List Batch) :
    recordsOf first (front ++ back) =
      recordsOf first front ++ recordsOf (first + UInt64.ofNat front.length) back := by
  induction front generalizing first with
  | nil => simp [recordsOf]
  | cons written rest ih =>
    rw [List.cons_append, recordsOf, recordsOf, ih, List.append_assoc, List.length_cons,
      succ_add_ofNat]

/-- The state of a scan once it has read these batches. -/
def ScanState.past (state : ScanState) (batches : List (WrittenBatch crc32c)) : ScanState :=
  ⟨state.expected + UInt64.ofNat batches.length,
    state.records ++ recordsOf state.expected (batchesOf batches)⟩

theorem ScanState.past_append (state : ScanState) (front back : List (WrittenBatch crc32c)) :
    (state.past front).past back = state.past (front ++ back) := by
  simp only [past, List.length_append, batchesOf_append, recordsOf_append, length_batchesOf,
    List.append_assoc, UInt64.ofNat_add, UInt64.add_assoc]

theorem WrittenBatch.frame_ne_nil (written : WrittenBatch crc32c) (lane : UInt16)
    (segment batchSeq : UInt64) : written.frame lane segment batchSeq ≠ [] := by
  refine List.ne_nil_of_length_pos ?_
  rw [WrittenBatch.frame, length_frame, batchHeaderLen]
  omega

variable {batches : List (WrittenBatch crc32c)}

theorem scans_framesOf {kept : Nat} {tail : Bytes}
    {result : Except RecoveryError (Scanned ScanState SegmentReason)}
    (htail : Scans (parseBatch crc32c lane segment) (state.past batches)
      (kept + (framesOf lane segment state.expected batches).length) tail result) :
    Scans (parseBatch crc32c lane segment) state kept
      (framesOf lane segment state.expected batches ++ tail) result := by
  induction batches generalizing state kept with
  | nil => simpa [ScanState.past, framesOf, batchesOf, recordsOf] using htail
  | cons written rest ih =>
    rw [framesOf, List.append_assoc]
    refine Scans.item (written.frame_ne_nil lane segment state.expected)
      (written.parseBatch_frame lane segment state _) (ih ?_)
    rw [ScanState.past] at htail ⊢
    dsimp only
    rwa [succ_add_ofNat, List.append_assoc, Nat.add_assoc, ← List.length_append]

variable {writer : LaneIdentity}

theorem checkSegmentHeader_segmentHeader (h : writer.Precedes identity) (lane : UInt16)
    (segment : UInt64) (rest : Bytes) :
    checkSegmentHeader crc32c lane identity segment
      (segmentHeader crc32c lane writer segment ++ rest) = .ok () := by
  refine checkSegmentHeader_eq_ok_iff.mpr ⟨⟨walMagicSegment, 1, 0, writer.cluster, writer.node,
    writer.incarnation, lane, segment, 0⟩, ?_, rest, rfl⟩
  exact ⟨rfl, rfl, rfl, h.cluster, h.node, rfl, rfl, UInt64.not_lt.mpr h.incarnation⟩

@[simp] theorem length_segmentHeader (lane : UInt16) (writer : LaneIdentity) (segment : UInt64) :
    (segmentHeader crc32c lane writer segment).length = segmentHeaderLen := by
  rw [segmentHeader, length_sealed, length_covered_segmentHeader]
  rfl

theorem scanSegment_of_scans (h : writer.Precedes identity) {isLast : Bool} {rest : Bytes}
    {scanned : Scanned ScanState SegmentReason}
    (hscan : Scans (parseBatch crc32c lane segment) state segmentHeaderLen rest (.ok scanned)) :
    scanSegment crc32c lane identity segment (segmentHeader crc32c lane writer segment ++ rest)
        isLast state =
      match scanned.torn with
      | none => .ok ⟨scanned.kept, 0, scanned.state⟩
      | some reason =>
        if isLast then
          .ok ⟨scanned.kept, segmentHeaderLen + rest.length - scanned.kept, scanned.state⟩
        else .error (.corruptSegment lane segment reason) := by
  have hlength : (segmentHeader crc32c lane writer segment ++ rest).length =
      segmentHeaderLen + rest.length := by rw [List.length_append, length_segmentHeader]
  have hthere : ¬(segmentHeader crc32c lane writer segment ++ rest).length < segmentHeaderLen := by
    rw [hlength]
    omega
  have hscanned := hscan (segmentHeader crc32c lane writer segment ++ rest).length (by omega)
  rw [hlength] at hthere hscanned
  simp only [scanSegment, bind, Except.bind, pure, Except.pure, throw, throwThe,
    MonadExceptOf.throw, if_neg hthere, checkSegmentHeader_segmentHeader h,
    List.drop_left' (length_segmentHeader lane writer segment), hscanned, hlength]

/-- A file of whole batches is read to its end. -/
theorem scanSegment_whole (h : writer.Precedes identity) (lane : UInt16) (segment : UInt64)
    (isLast : Bool) (state : ScanState) (batches : List (WrittenBatch crc32c)) :
    scanSegment crc32c lane identity segment
        (segmentHeader crc32c lane writer segment ++ framesOf lane segment state.expected batches)
        isLast state =
      .ok ⟨segmentHeaderLen + (framesOf lane segment state.expected batches).length, 0,
        state.past batches⟩ := by
  have hend : Scans (parseBatch crc32c lane segment) (state.past batches)
      (segmentHeaderLen + (framesOf lane segment state.expected batches).length) [] _ :=
    scans_nil _ _
  have hscan := scans_framesOf hend
  rw [List.append_nil] at hscan
  exact scanSegment_of_scans h hscan

/-- Of the last file, what follows the whole batches is dropped. -/
theorem scanSegment_torn (h : writer.Precedes identity) {part : Bytes}
    (hpart : CutOff crc32c lane segment (state.expected + UInt64.ofNat batches.length) part) :
    scanSegment crc32c lane identity segment
        (segmentHeader crc32c lane writer segment ++
          (framesOf lane segment state.expected batches ++ part)) true state =
      .ok ⟨segmentHeaderLen + (framesOf lane segment state.expected batches).length, part.length,
        state.past batches⟩ := by
  by_cases hempty : part = []
  · subst hempty
    rw [List.append_nil]
    exact scanSegment_whole h lane segment true state batches
  · obtain ⟨written, hpart, hcut⟩ := hpart.resolve_left hempty
    obtain ⟨reason, hparse⟩ := @WrittenBatch.parseBatch_cut crc32c written lane segment
      (state.past batches) part hpart hcut
    have hend : Scans (parseBatch crc32c lane segment) _
        (segmentHeaderLen + (framesOf lane segment state.expected batches).length) part _ :=
      scans_torn hempty hparse
    rw [scanSegment_of_scans h (scans_framesOf hend)]
    simp only [if_true, List.length_append]
    congr 2
    omega

theorem scanSegment_short {lane : UInt16} {identity : LaneIdentity} {segment : UInt64}
    {bytes : Bytes} (h : bytes.length < segmentHeaderLen) (state : ScanState) :
    scanSegment crc32c lane identity segment bytes true state = .ok ⟨0, bytes.length, state⟩ := by
  simp only [scanSegment, if_pos h, bind, Except.bind, pure, Except.pure, if_true]

end Checksums

end Kivi.Durability
