import Kivi.Durability.Segments

/-!
# One lane of the write-ahead log

The lane appends batches to its active segment file, moves on to a new file when a batch would
overflow the target size, and recovers from the files it finds. Each file operation may fail after
any part of its bytes: an `IoScript` says which ones do. A file keeps the number of its bytes that
are known to be on stable storage.
-/

namespace Kivi.Durability

open Library

inductive StorageHealth where
  | healthy
  | readOnly
  | failed
deriving DecidableEq

/-- The one kind of write error the lane survives, and the others. -/
inductive IoKind where
  | storageFull
  | other
deriving DecidableEq

structure SegmentFile where
  bytes : Bytes
  synced : Nat
deriving DecidableEq

/-- The segment files of a lane by their number. -/
abbrev LaneDirectory := Std.ExtTreeMap UInt64 SegmentFile

/-- Where recovery resumes after reclamation. -/
structure LaneFloor where
  lane : UInt16
  firstSegment : UInt64
  firstBatch : UInt64
  nextBatch : UInt64
deriving DecidableEq

def LaneFloor.forLane (lane : UInt16) : LaneFloor := ⟨lane, 1, 1, 1⟩

structure LocalWalLane where
  lane : UInt16
  identity : LaneIdentity
  targetBytes : UInt64
  isOpen : Bool
  segmentSeq : UInt64
  segmentBytes : Nat
  activeFirstBatch : UInt64
  nextBatchSeq : UInt64
  health : StorageHealth

/-- The source's `open`; what it finds in the directory is read again by recovery. -/
def LocalWalLane.new (lane : UInt16) (identity : LaneIdentity) (targetBytes : UInt64) :
    LocalWalLane :=
  ⟨lane, identity, targetBytes, false, 0, 0, 1, 1, .healthy⟩

/-- Whether a new file cannot be created, or its header fails after how many bytes. -/
structure RotationScript where
  create : Bool
  header : Option Nat

/-- Which file operations of an append fail, and after how many bytes: opening the active file
again or starting the first one, moving on to a new file, and writing the batch. -/
structure IoScript where
  reopen : Bool
  opening : RotationScript
  rotation : RotationScript
  frame : Option (Nat × IoKind)

def IoScript.clean : IoScript := ⟨false, ⟨false, none⟩, ⟨false, none⟩, none⟩

/-- What a call returns, and the lane and the files it leaves. -/
structure LaneStep (α : Type) where
  outcome : Result DurabilityError α
  lane : LocalWalLane
  files : LaneDirectory

section Checksums

variable (crc32c : Checksum)

namespace LocalWalLane

/-! ### Appending -/

def rotate (script : RotationScript) (lane : LocalWalLane) (files : LaneDirectory) :
    LaneStep Unit :=
  -- the old file is closed before the new one is there
  let closed := { lane with isOpen := false }
  let seq := lane.segmentSeq + 1
  let header := segmentHeader crc32c lane.lane lane.identity seq
  if script.create ∨ seq ∈ files then ⟨.err (.io .createSegment), closed, files⟩
  else match script.header with
    | some written =>
      ⟨.err (.io .publishHeader), closed, files.insert seq ⟨header.take written, 0⟩⟩
    | none =>
      ⟨.ok (), { closed with
        isOpen := true
        segmentSeq := seq
        segmentBytes := segmentHeaderLen
        activeFirstBatch := lane.nextBatchSeq }, files.insert seq ⟨header, header.length⟩⟩

variable (script : IoScript)

def ensureOpen (lane : LocalWalLane) (files : LaneDirectory) : LaneStep Unit :=
  if lane.isOpen then ⟨.ok (), lane, files⟩
  else if lane.segmentSeq = 0 then lane.rotate crc32c script.opening files
  else match files[lane.segmentSeq]? with
    | none => ⟨.err (.io .reopenSegment), lane, files⟩
    | some file =>
      if script.reopen then ⟨.err (.io .reopenSegment), lane, files⟩
      else ⟨.ok (), { lane with isOpen := true, segmentBytes := file.bytes.length }, files⟩

/-- Whether a batch of the given length needs a new file. -/
def needsRotation (lane : LocalWalLane) (batchLen : Nat) : Bool :=
  !lane.isOpen || (0 < lane.segmentBytes && lane.targetBytes.toNat < lane.segmentBytes + batchLen)

/-- The checked write and the barrier of `seal_encoded_body`. -/
def writeFrame (bytes : Bytes) (lane : LocalWalLane) (files : LaneDirectory) :
    LaneStep UInt64 :=
  let file := files[lane.segmentSeq]?.getD ⟨[], 0⟩
  match script.frame with
  | some (written, kind) =>
    ⟨.err (.io .appendBatch),
      { lane with health := if kind = .storageFull then .readOnly else .failed },
      files.insert lane.segmentSeq ⟨file.bytes ++ bytes.take written, file.synced⟩⟩
  | none =>
    ⟨.ok lane.nextBatchSeq, { lane with
      segmentBytes := lane.segmentBytes + bytes.length
      nextBatchSeq := lane.nextBatchSeq + 1
      health := if lane.health = .readOnly then .healthy else lane.health },
      files.insert lane.segmentSeq ⟨file.bytes ++ bytes, (file.bytes ++ bytes).length⟩⟩

def sealEncodedBody (body : Bytes) (count : Nat) (lane : LocalWalLane)
    (files : LaneDirectory) : LaneStep UInt64 :=
  let room := if lane.needsRotation (batchHeaderLen + body.length + batchFooterLen)
    then lane.rotate crc32c script.rotation files else ⟨.ok (), lane, files⟩
  match room.outcome with
  | .err error => ⟨.err error, room.lane, room.files⟩
  | .panic => ⟨.panic, room.lane, room.files⟩
  | .ok () =>
    if 2 ^ 32 ≤ body.length then ⟨.err (.invalidConfig .bodyExceedsU32), room.lane, room.files⟩
    else if 2 ^ 16 ≤ count then ⟨.err (.invalidConfig .countExceedsU16), room.lane, room.files⟩
    else room.lane.writeFrame script
      (frame crc32c room.lane.lane room.lane.segmentSeq room.lane.nextBatchSeq body count)
      room.files

/-- The source's `append_records` and `append_raft_records`. -/
def appendRecords (batch : Batch) (lane : LocalWalLane) (files : LaneDirectory) : LaneStep UInt64 :=
  if lane.health = .failed then ⟨.err (.io .appendToFailedLane), lane, files⟩
  else match batch.encode with
    | .ok body => lane.sealEncodedBody crc32c script body batch.entries.length files
    | .err error => ⟨.err error, lane, files⟩
    | .panic => ⟨.panic, lane, files⟩

/-- Append a batch; `ok` acknowledges it under its number. Only the tablet path reopens the active
file first, a consensus batch on a lane without an open file goes to a new one. -/
def append (batch : Batch) (lane : LocalWalLane) (files : LaneDirectory) : LaneStep UInt64 :=
  match batch with
  | .consensus _ => lane.appendRecords crc32c script batch files
  | .tablet _ =>
    let opened := lane.ensureOpen crc32c script files
    match opened.outcome with
    | .ok () => opened.lane.appendRecords crc32c script batch opened.files
    | .err error => ⟨.err error, opened.lane, opened.files⟩
    | .panic => ⟨.panic, opened.lane, opened.files⟩

/-! ### Recovery -/

/-- The largest file `read_segment_capped` reads. -/
def readCap (targetBytes : UInt64) : Nat :=
  max
    (min (min (targetBytes.toNat * 4) (2 ^ 64 - 1) + (walMaxBodyBytes + 1024 * 1024)) (2 ^ 64 - 1))
    (64 * 1024 * 1024)

/-- The retained segments follow one another. -/
def checkGaps (lane : UInt16) : UInt64 → List UInt64 → Except RecoveryError Unit
  | _, [] => .ok ()
  | expected, found :: rest =>
    if found ≠ expected then .error (.segmentGap lane expected found)
    else checkGaps lane (expected + 1) rest

/-- What the loop over the retained segments has found so far. -/
structure RecoveryScan where
  state : ScanState
  activeFirstBatch : UInt64
  truncated : Nat
  files : LaneDirectory

/-- The loop of `recover_from`: only the last file may be cut. -/
def scanRetained (lane : LocalWalLane) :
    List UInt64 → RecoveryScan → Except RecoveryError RecoveryScan
  | [], found => .ok found
  | seq :: rest, found => do
    let file := found.files[seq]?.getD ⟨[], 0⟩
    if readCap lane.targetBytes < file.bytes.length then
      throw (.corruptSegment lane.lane seq .unreadableFile)
    let scanned ← scanSegment crc32c lane.lane lane.identity seq file.bytes rest.isEmpty found.state
    scanRetained lane rest
      { state := scanned.state
        activeFirstBatch := if rest.isEmpty then found.state.expected else found.activeFirstBatch
        truncated := found.truncated + scanned.truncated
        files := if 0 < scanned.truncated
          then found.files.insert seq ⟨file.bytes.take scanned.kept, scanned.kept⟩
          else found.files }

structure LaneRecovery where
  records : List RecoveredRecord
  segmentsScanned : Nat
  truncatedBytes : Nat

def recoverFrom (floor : LaneFloor) (lane : LocalWalLane) (files : LaneDirectory) :
    Except RecoveryError (LaneRecovery × LocalWalLane × LaneDirectory) := do
  if floor.lane ≠ lane.lane then
    throw (.misdirected .floorLane)
  let retained := files.keys.filter fun seq ↦ decide (floor.firstSegment ≤ seq)
  checkGaps lane.lane floor.firstSegment retained
  let found ← lane.scanRetained crc32c retained
    ⟨⟨max floor.firstBatch 1, []⟩, lane.activeFirstBatch, 0, files⟩
  -- numbering continues past everything that was seen
  let nextBatchSeq := max found.state.expected (max floor.nextBatch 1)
  let below := if floor.firstSegment = 0 then 0 else floor.firstSegment - 1
  let highest := max (files.keys.getLast?.getD 0) below
  return (⟨found.state.records, retained.length, found.truncated⟩,
    { lane with
      segmentSeq := retained.getLast?.getD highest
      nextBatchSeq
      activeFirstBatch := if retained.isEmpty then nextBatchSeq else found.activeFirstBatch },
    found.files)

end LocalWalLane

end Checksums

end Kivi.Durability
