import Kivi.Durability.LaneCrashes

/-!
# Reclaiming sealed segments

A checkpoint promises that the commits of a tablet up to a cut are in it. The planner reads the
summaries of the sealed segments in order: those whose commits are all promised and that hold no
bytes of a live bulk value are obsolete, and the floor moves to the first that is not. On files of
whole batches the plan drops a front of them (`planSegments_summaries`), and all records in it are
covered.
-/

namespace Kivi.Durability

open Library Library.OrderedMaps
open State (TabletId)
open Consensus (CommitPosition)
open Std (ExtTreeMap)
open Segment

/-! ### Summaries -/

/-- What the planner is told of a sealed segment. -/
structure SealedSegmentSummary where
  segment : UInt64
  firstBatchSeq : Option UInt64
  records : List (TabletId × CommitPosition)
  fabricIds : List UInt64
deriving DecidableEq

/-- The commit that a record belongs to; consensus records have none. -/
def RecoveredRecord.position (record : RecoveredRecord) : Option (TabletId × CommitPosition) :=
  match record.entry with
  | .tablet stored => some (stored.tablet, stored.commit)
  | .consensus _ => none

/-- The bulk value whose bytes a record holds. -/
def RecoveredRecord.fabricId (record : RecoveredRecord) : Option UInt64 :=
  match record.entry with
  | .tablet (.material material) => some material.fabricId
  | _ => none

/-- Where the lane stands: the active segment, its first batch, and the next batch. -/
structure LaneFloorSnapshot where
  lane : UInt16
  activeSegment : UInt64
  activeFirstBatch : UInt64
  nextBatch : UInt64
deriving DecidableEq

namespace LocalWalLane

variable (crc32c : Checksum)

def floorSnapshot (lane : LocalWalLane) : LaneFloorSnapshot :=
  ⟨lane.lane, lane.segmentSeq, lane.activeFirstBatch, lane.nextBatchSeq⟩

/-- Move on to a new file, unless the active one holds no batch. -/
def sealActiveSegment (script : RotationScript) (lane : LocalWalLane) (files : LaneDirectory) :
    LaneStep Unit :=
  if !lane.isOpen || decide (lane.segmentBytes ≤ segmentHeaderLen) then ⟨.ok (), lane, files⟩
  else lane.rotate crc32c script files

def scanSealed (lane : LocalWalLane) (files : LaneDirectory) (segment : UInt64) :
    Except RecoveryError SealedSegmentSummary :=
  match files[segment]? with
  | none => .error (.corruptSegment lane.lane segment .unreadableFile)
  | some file => do
    if readCap lane.targetBytes < file.bytes.length then
      throw (.corruptSegment lane.lane segment .unreadableFile)
    if file.bytes.length = segmentHeaderLen then
      let _ ← scanSegment crc32c lane.lane lane.identity segment file.bytes false ⟨1, []⟩
      return ⟨segment, none, [], []⟩
    if file.bytes.length < segmentHeaderLen + batchHeaderLen then
      throw (.corruptSegment lane.lane segment .endsMidHeader)
    let ((header, _), _) ← readBatchHeader
      (.corruptSegment lane.lane segment .unreadableBatchHeader) (file.bytes.drop segmentHeaderLen)
    let scanned ← scanSegment crc32c lane.lane lane.identity segment file.bytes false
      ⟨header.batchSeq, []⟩
    return ⟨segment, some header.batchSeq, scanned.state.records.filterMap (·.position),
      scanned.state.records.filterMap (·.fabricId)⟩

/-- The lane's command: it scans the segments in order and fails with the first that fails. -/
def scanAllSealed (lane : LocalWalLane) (files : LaneDirectory) (segments : List UInt64) :
    Except RecoveryError (List SealedSegmentSummary) :=
  segments.mapM (lane.scanSealed crc32c files)

/-- The lane's command: it deletes the segments in order and stops where one cannot be deleted,
here after the given number. The active segment is refused. -/
def deleteSegments (lane : LocalWalLane) : List UInt64 → Nat → LaneDirectory → LaneDirectory
  | [], _, files => files
  | segment :: rest, possible, files =>
    if segment = lane.segmentSeq then files
    else match possible with
      | 0 => files
      | possible + 1 => deleteSegments lane rest possible (files.erase segment)

end LocalWalLane

/-- The files in the directory of the lane but the active one. -/
def listSealedSegments (files : LaneDirectory) (active : UInt64) : List UInt64 :=
  files.keys.filter fun seq ↦ decide (seq ≠ active)

/-! ### The planner -/

/-- The cut that is promised for each tablet. -/
abbrev Promises := ExtTreeMap TabletId UInt64

structure LaneReclaim where
  floor : LaneFloor
  obsolete : List UInt64
deriving DecidableEq

namespace SealedSegmentSummary

variable (summary : SealedSegmentSummary)

/-- The highest commit of each tablet. -/
def maxPerTablet : ExtTreeMap TabletId UInt64 :=
  summary.records.foldl (fun highest record ↦
    highest.insert record.1 (max ((highest[record.1]?).getD 0) record.2)) ∅

def covered (floors : Promises) : Bool :=
  summary.maxPerTablet.toList.all fun entry ↦
    match floors[entry.1]? with
    | some floor => decide (entry.2 ≤ floor)
    | none => false

/-- Without an answer, all bulk values are taken for live. -/
def holdsLiveFabric (live : Option (List UInt64)) : Bool :=
  if summary.fabricIds.isEmpty then false
  else match live with
    | none => true
    | some live => summary.fabricIds.any fun id ↦ decide (id ∈ live)

def firstBatch (watermark : UInt64) : UInt64 := max (summary.firstBatchSeq.getD watermark) 1

end SealedSegmentSummary

/-- The loop over the sealed segments: the obsolete ones, and the first that stays with its first
batch. -/
def planSegments (active watermark : UInt64) (floors : Promises) (live : Option (List UInt64)) :
    List SealedSegmentSummary → List UInt64 × Option (UInt64 × UInt64)
  | [] => ([], none)
  | summary :: rest =>
    if summary.segment ≠ active ∧ summary.covered floors ∧ ¬summary.holdsLiveFabric live then
      let (obsolete, retained) := planSegments active watermark floors live rest
      (summary.segment :: obsolete, retained)
    else ([], some (summary.segment, summary.firstBatch watermark))

/-- The plan of `plan_reclaim` for one lane. -/
def planReclaim (summaries : List SealedSegmentSummary) (snapshot : LaneFloorSnapshot)
    (floors : Promises) (live : Option (List UInt64)) : LaneReclaim :=
  let watermark := max snapshot.nextBatch 1
  let (obsolete, retained) :=
    planSegments snapshot.activeSegment watermark floors live summaries
  let (firstSegment, firstBatch) :=
    retained.getD (max snapshot.activeSegment 1, max snapshot.activeFirstBatch 1)
  ⟨⟨snapshot.lane, firstSegment, firstBatch, watermark⟩, obsolete⟩

/-! ### Covered records -/

/-- The commit of a record is promised. -/
def RecoveredRecord.Promised (cuts : TabletId → Option UInt64) (record : RecoveredRecord) : Prop :=
  ∀ position ∈ record.position, ∃ cut ∈ cuts position.1, position.2 ≤ cut

/-- A record that the planner may drop: its commit is promised, and the bulk value whose bytes it
holds is known not to be live. -/
structure RecoveredRecord.Covered (floors : Promises) (live : Option (List UInt64))
    (record : RecoveredRecord) : Prop where
  promised : record.Promised fun tablet ↦ floors[tablet]?
  dead : ∀ id ∈ record.fabricId, ∃ ids ∈ live, id ∉ ids

variable {first : UInt64}

theorem max_le_iff {second bound : UInt64} :
    max first second ≤ bound ↔ first ≤ bound ∧ second ≤ bound := by
  change (if first ≤ second then second else first) ≤ bound ↔ _
  split_ifs with hle
  · exact ⟨fun h ↦ ⟨UInt64.le_trans hle h, h⟩, And.right⟩
  · have hlt := UInt64.le_of_lt (UInt64.not_le.mp hle)
    exact ⟨fun h ↦ ⟨h, UInt64.le_trans hlt h⟩, And.left⟩

/-- A bound of the highest commits bounds every commit. -/
theorem foldl_max_le_iff (records : List (TabletId × CommitPosition))
    (highest : ExtTreeMap TabletId UInt64) (bound : TabletId → UInt64 → Prop)
    (hbound : ∀ tablet first second, bound tablet (max first second) ↔
      bound tablet first ∧ bound tablet second)
    (hzero : ∀ tablet commit, bound tablet commit → bound tablet 0) :
    (∀ entry ∈ (records.foldl (fun highest record ↦
        highest.insert record.1 (max ((highest[record.1]?).getD 0) record.2)) highest).toList,
        bound entry.1 entry.2) ↔
      (∀ entry ∈ highest.toList, bound entry.1 entry.2) ∧
        ∀ record ∈ records, bound record.1 record.2 := by
  induction records generalizing highest with
  | nil => simp
  | cons head rest ih =>
    rw [List.foldl_cons, ih, List.forall_mem_cons, ← and_assoc]
    refine and_congr_left fun _ ↦ ?_
    constructor
    · intro h
      have hhead := h (head.1, max ((highest[head.1]?).getD 0) head.2)
        (ExtTreeMap.mem_toList_iff_getElem?_eq_some.mpr ExtTreeMap.getElem?_insert_self)
      obtain ⟨hold, hnew⟩ := (hbound _ _ _).mp hhead
      refine ⟨fun entry hmem ↦ ?_, hnew⟩
      have hget := ExtTreeMap.mem_toList_iff_getElem?_eq_some.mp hmem
      by_cases hkey : head.1 = entry.1
      · rw [hkey, hget, Option.getD_some] at hold
        exact hold
      · refine h entry (ExtTreeMap.mem_toList_iff_getElem?_eq_some.mpr ?_)
        rw [ExtTreeMap.getElem?_insert, if_neg (by simpa using hkey)]
        exact hget
    · rintro ⟨hold, hnew⟩ entry hmem
      have hget := ExtTreeMap.mem_toList_iff_getElem?_eq_some.mp hmem
      rw [ExtTreeMap.getElem?_insert] at hget
      split_ifs at hget with hkey
      · have heq : head.1 = entry.1 := by simpa using hkey
        rw [← Option.some.inj hget, ← heq]
        refine (hbound _ _ _).mpr ⟨?_, hnew⟩
        cases hfound : highest[head.1]? with
        | none => exact hzero _ _ hnew
        | some value =>
          exact hold (head.1, value) (ExtTreeMap.mem_toList_iff_getElem?_eq_some.mpr hfound)
      · exact hold entry (ExtTreeMap.mem_toList_iff_getElem?_eq_some.mpr hget)

namespace SealedSegmentSummary

variable {summary : SealedSegmentSummary} {floors : Promises} {live : Option (List UInt64)}

theorem covered_iff : summary.covered floors = true ↔
    ∀ record ∈ summary.records, ∃ cut ∈ floors[record.1]?, record.2 ≤ cut := by
  have hmatch (tablet : TabletId) (commit : UInt64) :
      (match floors[tablet]? with
        | some floor => decide (commit ≤ floor)
        | none => false) = true ↔ ∃ cut ∈ floors[tablet]?, commit ≤ cut := by
    cases floors[tablet]? <;> simp
  rw [covered, List.all_eq_true]
  simp only [hmatch]
  rw [maxPerTablet, foldl_max_le_iff summary.records ∅
    (fun tablet commit ↦ ∃ cut ∈ floors[tablet]?, commit ≤ cut)]
  · simp
  · intro tablet first second
    cases floors[tablet]? with
    | none => simp
    | some cut => simp [max_le_iff]
  · rintro tablet commit ⟨cut, hcut, -⟩
    exact ⟨cut, hcut, UInt64.zero_le⟩

theorem holdsLiveFabric_eq_false_iff : summary.holdsLiveFabric live = false ↔
    ∀ id ∈ summary.fabricIds, ∃ ids ∈ live, id ∉ ids := by
  unfold holdsLiveFabric
  by_cases hnil : summary.fabricIds = []
  · simp [hnil]
  · obtain ⟨id, hid⟩ := List.exists_mem_of_ne_nil _ hnil
    rw [if_neg (by simpa using hnil)]
    cases live with
    | none => simpa using ⟨id, hid⟩
    | some ids => simp

end SealedSegmentSummary

/-! ### Summaries of files of whole batches -/

variable {crc32c : Checksum}

/-- The records of consecutive files. -/
def Segment.records (first : UInt64) (segments : List (Segment crc32c)) : List RecoveredRecord :=
  recordsOf first (batchesOf (allBatches segments))

namespace Segment

theorem records_append (first : UInt64) (front back : List (Segment crc32c)) :
    records first (front ++ back) = records first front ++
      records (first + UInt64.ofNat (allBatches front).length) back := by
  rw [records, allBatches_append, batchesOf_append, recordsOf_append, length_batchesOf]
  rfl

/-- What the scanner finds in a file of whole batches. -/
def summary (held : Segment crc32c) (seq first : UInt64) : SealedSegmentSummary :=
  ⟨seq, if held.batches = [] then none else some first,
    (records first [held]).filterMap (·.position), (records first [held]).filterMap (·.fabricId)⟩

def summaries : UInt64 → UInt64 → List (Segment crc32c) → List SealedSegmentSummary
  | _, _, [] => []
  | seq, first, held :: rest =>
    held.summary seq first ::
      summaries (seq + 1) (first + UInt64.ofNat held.batches.length) rest

theorem records_singleton (held : Segment crc32c) (first : UInt64) :
    records first [held] = recordsOf first (batchesOf held.batches) := by
  rw [records, allBatches_cons, allBatches_nil, List.append_nil]

end Segment

variable {held : Segment crc32c} {seq : UInt64}

/-- The scan of a whole segment sums up its batches. -/
theorem scanSealed_whole {walLane : LocalWalLane} {files : LaneDirectory} {synced : Nat}
    (hwriter : held.writer.Precedes walLane.identity)
    (hfile : files[seq]? = some ⟨held.bytes walLane.lane seq first, synced⟩)
    (hsize : (held.bytes walLane.lane seq first).length ≤
      LocalWalLane.readCap walLane.targetBytes) :
    walLane.scanSealed crc32c files seq = .ok (held.summary seq first) := by
  have hread : ¬LocalWalLane.readCap walLane.targetBytes <
      (held.bytes walLane.lane seq first).length := Nat.not_lt.mpr hsize
  rw [LocalWalLane.scanSealed, hfile]
  simp only [bind, Except.bind, pure, Except.pure, throw, throwThe, MonadExceptOf.throw,
    if_neg hread]
  by_cases hempty : held.batches = []
  · have hscan := scanSegment_whole hwriter walLane.lane seq false ⟨1, []⟩ held.batches
    have hbytes : held.bytes walLane.lane seq first =
        segmentHeader crc32c walLane.lane held.writer seq ++
          framesOf walLane.lane seq 1 held.batches := by
      rw [Segment.bytes, hempty]
      rfl
    have hlength : (held.bytes walLane.lane seq first).length = segmentHeaderLen := by
      rw [Segment.bytes, hempty, framesOf, List.append_nil, length_segmentHeader]
    rw [if_pos hlength, hbytes, hscan]
    simp [Segment.summary, Segment.records, hempty, batchesOf, recordsOf]
  · have hscan := scanSegment_whole hwriter walLane.lane seq false ⟨first, []⟩ held.batches
    obtain ⟨written, others, heq⟩ := List.exists_cons_of_ne_nil hempty
    -- The first batch header behind the segment header.
    obtain ⟨header, stored, rest, hheader, hfirst⟩ : ∃ header stored rest,
        readBatchHeader (RecoveryError.corruptSegment walLane.lane seq .unreadableBatchHeader)
          ((held.bytes walLane.lane seq first).drop segmentHeaderLen) =
          .ok ((header, stored), rest) ∧ header.batchSeq = first := by
      rw [Segment.bytes, List.drop_left' (length_segmentHeader _ _ _), heq, framesOf,
        WrittenBatch.frame, frame, sealed, List.append_assoc, List.append_assoc]
      exact ⟨_, _, _, readBatchHeader_eq_ok_iff.mpr rfl, rfl⟩
    have hlength : segmentHeaderLen + batchHeaderLen ≤
        (held.bytes walLane.lane seq first).length := by
      rw [Segment.bytes, List.length_append, length_segmentHeader, heq, framesOf,
        List.length_append, WrittenBatch.frame, length_frame]
      omega
    have hmore : ¬(held.bytes walLane.lane seq first).length = segmentHeaderLen := by
      unfold batchHeaderLen at hlength
      omega
    rw [if_neg hmore, if_neg (Nat.not_lt.mpr hlength), hheader]
    dsimp only
    rw [hfirst, Segment.bytes, hscan]
    simp [Segment.summary, records_singleton, ScanState.past, hempty]

theorem scanAllSealed_whole {walLane : LocalWalLane} {files : LaneDirectory}
    {segments : List (Segment crc32c)}
    (hwriters : ∀ held ∈ segments, held.writer.Precedes walLane.identity)
    (hfiles : ∀ entry ∈ Segment.files walLane.lane seq first segments,
      files[entry.1]? = some entry.2 ∧
        entry.2.bytes.length ≤ LocalWalLane.readCap walLane.targetBytes) :
    walLane.scanAllSealed crc32c files
        ((Segment.files walLane.lane seq first segments).map Prod.fst) =
      .ok (summaries seq first segments) := by
  rw [LocalWalLane.scanAllSealed]
  induction segments generalizing seq first with
  | nil => rfl
  | cons held rest ih =>
    rw [List.forall_mem_cons] at hwriters
    rw [Segment.files, List.forall_mem_cons] at hfiles
    obtain ⟨⟨hfile, hsize⟩, hfiles⟩ := hfiles
    rw [Segment.files, List.map_cons, List.mapM_cons, scanSealed_whole hwriters.1 hfile hsize,
      ih hwriters.2 hfiles]
    rfl

section Plan

variable {active watermark : UInt64} {floors : Promises} {live : Option (List UInt64)}

theorem Segment.droppable_iff :
    (held.summary seq first).covered floors ∧ ¬(held.summary seq first).holdsLiveFabric live ↔
      ∀ record ∈ records first [held], record.Covered floors live := by
  rw [Bool.not_eq_true, SealedSegmentSummary.covered_iff,
    SealedSegmentSummary.holdsLiveFabric_eq_false_iff]
  simp only [summary, List.mem_filterMap]
  constructor
  · rintro ⟨hpromised, hdead⟩ record hmem
    exact ⟨fun position hposition ↦ hpromised position ⟨record, hmem, hposition⟩,
      fun id hid ↦ hdead id ⟨record, hmem, hid⟩⟩
  · intro h
    constructor
    · rintro position ⟨record, hmem, hposition⟩
      exact (h record hmem).promised position hposition
    · rintro id ⟨record, hmem, hid⟩
      exact (h record hmem).dead id hid

/-- The plan drops a front of the files, and what it drops is covered. -/
theorem planSegments_summaries (segments : List (Segment crc32c)) (lane : UInt16)
    (seq first : UInt64)
    (hactive : ∀ key ∈ (Segment.files lane seq first segments).map Prod.fst, key ≠ active) :
    ∃ dropped kept, segments = dropped ++ kept ∧
      planSegments active watermark floors live (summaries seq first segments) =
        ((Segment.files lane seq first dropped).map Prod.fst,
          if kept = [] then none else some (seq + UInt64.ofNat dropped.length,
            max (first + UInt64.ofNat (allBatches dropped).length) 1)) ∧
      ∀ record ∈ Segment.records first dropped, record.Covered floors live := by
  induction segments generalizing seq first with
  | nil =>
    refine ⟨[], [], rfl, rfl, fun record hmem ↦ ?_⟩
    exact absurd hmem List.not_mem_nil
  | cons held rest ih =>
    rw [Segment.files, List.map_cons, List.forall_mem_cons] at hactive
    by_cases hdrop : ∀ record ∈ Segment.records first [held], record.Covered floors live
    · obtain ⟨dropped, kept, rfl, hplan, hcovered⟩ := ih (seq + 1)
        (first + UInt64.ofNat held.batches.length) hactive.2
      refine ⟨held :: dropped, kept, rfl, ?_, ?_⟩
      · rw [summaries, planSegments, if_pos ⟨hactive.1, droppable_iff.mpr hdrop⟩,
          hplan, Segment.files, List.map_cons, allBatches_cons, List.length_append,
          List.length_cons, succ_add_ofNat, ← add_ofNat_add first]
        rfl
      · have hsplit := records_append first [held] dropped
        rw [allBatches_cons, allBatches_nil, List.append_nil,
          List.singleton_append] at hsplit
        rw [hsplit, List.forall_mem_append]
        exact ⟨hdrop, hcovered⟩
    · refine ⟨[], held :: rest, rfl, ?_, fun record hmem ↦ absurd hmem List.not_mem_nil⟩
      have hbatches : held.batches ≠ [] := by
        rintro hnil
        refine hdrop fun record hmem ↦ absurd hmem ?_
        rw [records_singleton, hnil]
        exact List.not_mem_nil
      rw [summaries, planSegments, if_neg fun h ↦ hdrop (droppable_iff.mp h.2),
        if_neg (List.cons_ne_nil _ _), allBatches_nil, add_length_nil, add_length_nil]
      simp [Segment.files, SealedSegmentSummary.firstBatch, Segment.summary, hbatches]

end Plan

/-! ### The sealed files of a lane -/

section Lanes

variable {place : LanePlace} {incarnation base first : UInt64} {walLane : LocalWalLane}
  {files : LaneDirectory} {whole sealed : List (Segment crc32c)}
  {stub : List (UInt64 × SegmentFile)} {offered : Batch → Prop}

/-- The lane stands on the last whole file, or on a file without a header behind all of them. -/
inductive Stands (base first : UInt64) (walLane : LocalWalLane) (whole : List (Segment crc32c)) :
    List (UInt64 × SegmentFile) → Prop where
  | last (hseq : walLane.segmentSeq + 1 = base + UInt64.ofNat whole.length)
    (hfirst : walLane.activeFirstBatch = lastFirst first whole) :
    Stands base first walLane whole []
  | behind {file : SegmentFile} (hseq : walLane.segmentSeq = base + UInt64.ofNat whole.length)
    (hfirst : walLane.activeFirstBatch = first + UInt64.ofNat (allBatches whole).length)
    (hclosed : walLane.isOpen = false) :
    Stands base first walLane whole [(walLane.segmentSeq, file)]

/-- A lane with nothing behind its active file is ready. -/
theorem Running.stands (h : Running place offered base first files incarnation whole walLane)
    (htidy : walLane.Tidy files) (hbase : 1 ≤ base) :
    first.toNat + (allBatches whole).length < 2 ^ 64 ∧
      ∃ stub, Ready base first walLane files [] whole stub ∧
        Stands base first walLane whole stub := by
  rcases h.state with ⟨hroom, stub, hready⟩ | ⟨-, hspoiled⟩
  · refine ⟨hroom, stub, hready, ?_⟩
    rcases hready.active with ⟨hseq, hfirst⟩ | ⟨hseq, hfirst, hclosed, entry, hmem, hshort⟩
    · have hnil : stub = [] := by
        refine List.eq_nil_iff_forall_not_mem.mpr fun entry hmem ↦ ?_
        have hkey : entry.1 = walLane.segmentSeq + 1 :=
          (hready.behind.key_eq entry hmem).trans hseq.symm
        have hpos := UInt64.le_trans hbase (hready.base_le_of_mem hmem)
        have htop := htidy.topmost entry.1 (ExtTreeMap.isSome_getElem?_iff_mem.mp (by
          rw [hready.mem_files hmem]
          rfl))
        rw [hkey, UInt64.le_iff_toNat_le, UInt64.toNat_add, UInt64.toNat_one] at hpos htop
        have hlt := walLane.segmentSeq.toNat_lt
        omega
      subst hnil
      exact .last hseq hfirst
    · cases hready.behind with
      | nothing => exact absurd hmem List.not_mem_nil
      | @short file hfile =>
        rw [← hseq]
        exact .behind hseq hfirst hclosed
      | header hwriter =>
        rw [List.mem_singleton.mp hmem] at hshort
        exact absurd hshort (Nat.not_lt.mpr (length_segmentHeader _ _ _).ge)
  · obtain ⟨file, hfile, hlength⟩ := hspoiled.leftOver
    have hsame := htidy.level hspoiled.isOpen
    rw [LocalWalLane.activeFile_eq hfile] at hsame
    exact absurd hsame hlength

variable {settled : List (WrittenBatch crc32c)} {loose : List (UInt64 × SegmentFile)}
  {dropped : List (Segment crc32c)}

/-- A lane on its last whole file has nothing dropped up to there. -/
theorem behind_of_active (hactive : walLane.segmentSeq + 1 = base + UInt64.ofNat whole.length)
    (h : walLane.Anchors base dropped whole) : dropped = [] ∨ dropped.length < whole.length := by
  refine Or.imp_right (fun h ↦ h.resolve_right fun hstub ↦ ?_) h
  rw [← hstub.2] at hactive
  exact succ_ne_self _ hactive

theorem Stands.anchors_iff {kept : List (Segment crc32c)}
    (h : Stands base first walLane (dropped ++ kept) stub) :
    walLane.Anchors base dropped (dropped ++ kept) ↔ dropped = [] ∨ kept ≠ [] ∨ stub ≠ [] := by
  have hless : dropped.length < (dropped ++ kept).length ↔ kept ≠ [] := by
    rw [List.length_append, Nat.lt_add_right_iff_pos, List.length_pos_iff]
  rw [LocalWalLane.Anchors, hless]
  refine or_congr_right (or_congr_right ?_)
  cases h with
  | last hseq =>
    refine ⟨fun hstub ↦ ?_, fun hnil ↦ absurd rfl hnil⟩
    rw [← hstub.2] at hseq
    exact absurd hseq (succ_ne_self _)
  | behind hseq _ hclosed => exact ⟨fun _ ↦ List.cons_ne_nil _ _, fun _ ↦ ⟨hclosed, hseq⟩⟩

section

variable {lane : UInt16} {identity : LaneIdentity} {targetBytes : UInt64}
  (h : OnDisk offered lane identity targetBytes base first files [] whole settled loose)

include h

/-- A segment before others has a lower number. -/
theorem OnDisk.key_lt {front : List (Segment crc32c)} (hfront : front <+: whole)
    (hanchored : front.length < whole.length ∨ loose ≠ []) (hdropped : dropped <+: front)
    (hless : dropped.length < front.length) :
    base + UInt64.ofNat dropped.length < base + UInt64.ofNat front.length := by
  obtain ⟨rest, rfl⟩ := hfront
  obtain ⟨others, rfl⟩ := hdropped
  have hadvanced := h.advance (Or.inr (hanchored.imp_left fun hmore hnil ↦ by simp [hnil] at hmore))
  obtain ⟨held, others, rfl⟩ := List.exists_cons_of_ne_nil (fun hnil ↦ by simp [hnil] at hless :
    others ≠ [])
  have hbelow := hadvanced.below
  rw [files_append, Segment.files] at hbelow
  exact hbelow _ (List.mem_append_right _ List.mem_cons_self)

theorem OnDisk.base_mem (hthere : whole ≠ [] ∨ loose ≠ []) : base ∈ files := by
  obtain ⟨file, rest, hnext⟩ := @OnDisk.key_mem crc32c offered lane identity targetBytes base first
    files [] loose settled [] whole h hthere
  rw [allBatches_nil, add_length_nil, add_length_nil] at hnext
  have hmem : (base, file) ∈ files.toList := by
    rw [h.toList, List.nil_append, hnext]
    exact List.mem_cons_self
  rw [← ExtTreeMap.isSome_getElem?_iff_mem,
    ExtTreeMap.mem_toList_iff_getElem?_eq_some.mp hmem]
  rfl

end

/-- Where the lane stood when it was asked: behind the sealed files, or before there was any. -/
structure Snapshotted (base first : UInt64) (whole : List (Segment crc32c))
    (walLane : LocalWalLane) (snapshot : LaneFloorSnapshot) (sealed : List (Segment crc32c)) :
    Prop where
  lane : snapshot.lane = walLane.lane
  front : sealed <+: whole
  place : snapshot.activeSegment = base + UInt64.ofNat sealed.length ∧
      snapshot.activeFirstBatch = first + UInt64.ofNat (allBatches sealed).length ∨
    sealed = [] ∧ base = 1 ∧ first = 1 ∧ snapshot.activeSegment = 0 ∧ snapshot.activeFirstBatch = 1
  next : snapshot.nextBatch.toNat ≤ first.toNat + (allBatches whole).length
  behind : walLane.Anchors base sealed whole

/-- What the floor snapshot of a ready lane says of its files. -/
theorem Ready.snapshotted (h : Ready base first walLane files [] whole stub)
    (hstands : Stands base first walLane whole stub)
    (hroom : first.toNat + (allBatches whole).length < 2 ^ 64)
    (hfounded : base = 1 ∧ first = 1 ∨ base ∈ files) :
    ∃ sealed, Snapshotted base first whole walLane walLane.floorSnapshot sealed := by
  have hnext : walLane.nextBatchSeq.toNat ≤ first.toNat + (allBatches whole).length := by
    rw [h.next, toNat_add_ofNat hroom]
  cases hstands with
  | last hseq hfirst =>
    rcases List.eq_nil_or_concat whole with rfl | ⟨front, held, hconcat⟩
    · have hempty : files.toList = [] := h.disk.toList
      have hone : base = 1 ∧ first = 1 := by
        refine hfounded.resolve_right fun hmem ↦ ?_
        rw [ExtTreeMap.toList_eq_nil_iff.mp hempty] at hmem
        exact ExtTreeMap.not_mem_empty hmem
      obtain ⟨rfl, rfl⟩ := hone
      have hzero : walLane.segmentSeq = 0 :=
        (UInt64.add_left_inj 1).mp (hseq.trans (UInt64.add_zero 1 : (1 : UInt64) + 0 = 1))
      exact ⟨[], rfl, List.nil_prefix, Or.inr ⟨rfl, rfl, rfl, hzero, hfirst⟩, hnext, Or.inl rfl⟩
    · rw [List.concat_eq_append] at hconcat
      refine ⟨front, rfl, hconcat ▸ List.prefix_append _ _,
        Or.inl ⟨(h.split hseq hconcat).1, ?_⟩, hnext, Or.inr (Or.inl ?_)⟩
      · rw [← lastFirst_concat first front held, ← hconcat]
        exact hfirst
      · rw [hconcat, List.length_append]
        exact Nat.lt_succ_self _
  | behind hseq hfirst hclosed =>
    exact ⟨whole, rfl, List.prefix_rfl, Or.inl ⟨hseq, hfirst⟩, hnext,
      Or.inr (Or.inr ⟨hclosed, hseq⟩)⟩

/-- All keys but the last. -/
theorem listSealedSegments_concat {front : List (UInt64 × SegmentFile)} {last : UInt64}
    {file : SegmentFile} (h : files.toList = front ++ [(last, file)]) :
    listSealedSegments files last = front.map Prod.fst := by
  have hsorted := files.ordered_keys_toList
  rw [h] at hsorted
  rw [listSealedSegments, ← ExtTreeMap.map_fst_toList_eq_keys, h, List.map_append,
    List.filter_append, List.filter_eq_self.mpr]
  · simp
  · intro key hmem
    obtain ⟨entry, hentry, rfl⟩ := List.mem_map.mp hmem
    have hless := Std.compare_eq_lt.mp
      ((List.pairwise_append.mp hsorted).2.2 entry hentry _ List.mem_cons_self)
    refine decide_eq_true fun heq ↦ ?_
    rw [heq] at hless
    exact UInt64.lt_irrefl _ hless

section

variable {snapshot : LaneFloorSnapshot} (h : Snapshotted base first whole walLane snapshot sealed)

include h

/-- Unless the lane has moved on since, the files but the active one are the sealed ones. -/
theorem Snapshotted.listed (hready : Ready base first walLane files [] whole stub)
    (hstands : Stands base first walLane whole stub)
    (hsame : walLane.segmentSeq = snapshot.activeSegment) :
    listSealedSegments files snapshot.activeSegment =
      (Segment.files walLane.lane base first sealed).map Prod.fst := by
  rw [← hsame]
  -- the sealed files are all that come before the active one
  have hall {front : List (Segment crc32c)} (hfront : front <+: whole)
      (hanchored : front.length < whole.length ∨ stub ≠ [])
      (hplace : walLane.segmentSeq = base + UInt64.ofNat front.length)
      (hsealed : sealed <+: front) : sealed = front := by
    refine hsealed.eq_of_length_le (Nat.not_lt.mp fun hless ↦ ?_)
    have hlt := hready.disk.key_lt hfront hanchored hsealed hless
    rcases h.place with ⟨hactive, -⟩ | ⟨rfl, rfl, rfl, hactive, -⟩
    · rw [← hplace, hsame, hactive] at hlt
      exact UInt64.lt_irrefl _ hlt
    · rw [← hplace, hsame, hactive] at hlt
      exact absurd hlt (UInt64.not_lt.mpr UInt64.zero_le)
  cases hstands with
  | last hseq hfirst =>
    rcases List.eq_nil_or_concat whole with rfl | ⟨front, held, hconcat⟩
    · obtain rfl := List.prefix_nil.mp h.front
      have hempty : files.toList = [] := hready.disk.toList
      rw [listSealedSegments, ← ExtTreeMap.map_fst_toList_eq_keys, hempty]
      rfl
    · rw [List.concat_eq_append] at hconcat
      obtain ⟨hplace, htoList⟩ := hready.split hseq hconcat
      have hless : front.length < whole.length := by
        rw [hconcat, List.length_append]
        exact Nat.lt_succ_self _
      have hfront : front <+: whole := hconcat ▸ List.prefix_append _ _
      have hsealed : sealed <+: front := by
        refine List.prefix_of_prefix_length_le h.front hfront ?_
        rcases h.behind with rfl | hmore | ⟨-, hbehind⟩
        · exact Nat.zero_le _
        · rw [hconcat, List.length_append] at hmore
          exact Nat.lt_succ_iff.mp hmore
        · rw [← hbehind] at hseq
          exact absurd hseq (succ_ne_self _)
      rw [hall hfront (Or.inl hless) hplace hsealed]
      rw [List.nil_append] at htoList
      exact listSealedSegments_concat htoList
  | behind hseq hfirst hclosed =>
    rw [hall List.prefix_rfl (Or.inr (List.cons_ne_nil _ _)) hseq h.front]
    exact listSealedSegments_concat hready.disk.toList

theorem Snapshotted.extends {whole' : List (Segment crc32c)} {after : LocalWalLane}
    (hlane : after.lane = walLane.lane)
    (hactive : walLane.segmentSeq + 1 = base + UInt64.ofNat whole.length)
    (hextends : Segment.Extends whole whole')
    (hbatches : (allBatches whole).length ≤ (allBatches whole').length) :
    Snapshotted base first whole' after snapshot sealed := by
  obtain ⟨hfront, hbehind⟩ := hextends.keeps h.front (behind_of_active hactive h.behind)
  refine ⟨h.lane.trans hlane.symm, hfront, h.place, h.next.trans ?_, hbehind.imp_right Or.inl⟩
  omega

end

/-- The planned floor lies behind files whose records are all covered. -/
theorem Snapshotted.plan {snapshot : LaneFloorSnapshot} {floors : Promises}
    {live : Option (List UInt64)} (h : Snapshotted base first whole walLane snapshot sealed)
    (hready : Ready base first walLane files [] whole stub)
    (hstands : Stands base first walLane whole stub) (hlane : walLane.lane = place.lane)
    (hbase : 1 ≤ base) (hfirst : 1 ≤ first)
    (hroom : first.toNat + (allBatches whole).length < 2 ^ 64) :
    ∃ dropped, dropped <+: sealed ∧
      (planReclaim (summaries base first sealed) snapshot floors live).obsolete =
        (Segment.files place.lane base first dropped).map Prod.fst ∧
      (planReclaim (summaries base first sealed) snapshot floors live).floor.Above
        place base first dropped (allBatches whole) ∧
      ∀ record ∈ Segment.records first dropped, record.Covered floors live := by
  -- the file behind the sealed ones has a number above theirs
  have hbehind : sealed = [] ∨ sealed.length < whole.length ∨ stub ≠ [] := by
    refine h.behind.imp_right (Or.imp_right fun hstub ↦ ?_)
    cases hstands with
    | last hseq =>
      rw [← hstub.2] at hseq
      exact absurd hseq (succ_ne_self _)
    | behind => exact List.cons_ne_nil _ _
  obtain ⟨rest, hwhole⟩ := h.front
  have hdisk := hready.disk
  rw [← hwhole] at hdisk
  have hadvanced := hdisk.advance (hbehind.imp_right (Or.imp_left fun hless hnil ↦ by
    rw [← hwhole, hnil, List.append_nil] at hless
    exact Nat.lt_irrefl _ hless))
  have hkeys : ∀ key ∈ (Segment.files place.lane base first sealed).map Prod.fst,
      key ≠ snapshot.activeSegment := by
    intro key hmem
    rcases h.place with ⟨hactive, -⟩ | ⟨rfl, -⟩
    · obtain ⟨entry, hentry, rfl⟩ := List.mem_map.mp hmem
      rw [hactive]
      rw [← hlane] at hentry
      exact UInt64.ne_of_lt (hadvanced.below entry hentry)
    · exact absurd hmem List.not_mem_nil
  have hcount (dropped : List (Segment crc32c)) (hdropped : dropped <+: sealed) :
      1 ≤ first + UInt64.ofNat (allBatches dropped).length := by
    have hle : (allBatches dropped).length ≤ (allBatches whole).length := by
      obtain ⟨others, rfl⟩ := hdropped
      rw [← hwhole, allBatches_append, allBatches_append, List.append_assoc,
        List.length_append]
      exact Nat.le_add_right _ _
    rw [UInt64.le_iff_toNat_le, toNat_add_ofNat (by omega)]
    exact (UInt64.le_iff_toNat_le.mp hfirst).trans (Nat.le_add_right _ _)
  have hpos : 1 ≤ base + UInt64.ofNat sealed.length := by
    cases hsealed : sealed with
    | nil => exact UInt64.le_trans hbase (UInt64.le_of_eq (UInt64.add_zero base).symm)
    | cons held others =>
      refine UInt64.le_trans hbase (UInt64.le_of_lt ?_)
      rw [hsealed] at hadvanced
      exact hadvanced.below _ List.mem_cons_self
  obtain ⟨dropped, kept, hsealed, hplan, hcovered⟩ :=
    @planSegments_summaries crc32c snapshot.activeSegment (max snapshot.nextBatch 1) floors live
      sealed place.lane base first hkeys
  have hdropped : dropped <+: sealed := hsealed ▸ List.prefix_append _ _
  have hnext : (max snapshot.nextBatch 1).toNat ≤
      first.toNat + (allBatches whole).length := by
    change (if snapshot.nextBatch ≤ 1 then 1 else snapshot.nextBatch).toNat ≤ _
    split_ifs
    · exact (UInt64.le_iff_toNat_le.mp hfirst).trans (Nat.le_add_right _ _)
    · exact h.next
  refine ⟨dropped, hdropped, ?_, ⟨?_, ?_, ?_, ?_⟩, hcovered⟩
  · simp only [planReclaim, hplan]
  · exact h.lane.trans hlane
  · simp only [planReclaim, hplan]
    by_cases hkept : kept = []
    · rw [hkept, List.append_nil] at hsealed
      rw [if_pos hkept, Option.getD_none, ← hsealed]
      rcases h.place with ⟨hactive, -⟩ | ⟨rfl, rfl, -, hactive, -⟩
      · rw [hactive]
        exact max_eq_left_of_le hpos
      · rw [hactive]
        rfl
    · rw [if_neg hkept, Option.getD_some]
  · simp only [planReclaim, hplan]
    by_cases hkept : kept = []
    · rw [hkept, List.append_nil] at hsealed
      rw [if_pos hkept, Option.getD_none, ← hsealed]
      rcases h.place with ⟨-, hactive⟩ | ⟨rfl, -, rfl, -, hactive⟩
      · rw [hactive]
        exact max_eq_left_of_le (hcount sealed List.prefix_rfl)
      · rw [hactive]
        rfl
    · rw [if_neg hkept, Option.getD_some]
      exact max_eq_left_of_le (hcount dropped hdropped)
  · exact hnext

/-! ### Deleting the lowest files -/

variable {kept : List (Segment crc32c)}

theorem Stands.segmentSeq_ne (hstands : Stands base first walLane (held :: kept) stub)
    (hready : Ready base first walLane files [] (held :: kept) stub)
    (hkept : kept ≠ [] ∨ stub ≠ []) : walLane.segmentSeq ≠ base := by
  have hless {front : List (Segment crc32c)} (hfront : held :: front <+: held :: kept)
      (hanchored : (held :: front).length < (held :: kept).length ∨ stub ≠ []) :
      base < base + UInt64.ofNat (held :: front).length :=
    UInt64.lt_of_le_of_lt (UInt64.le_of_eq (UInt64.add_zero base).symm)
      (hready.disk.key_lt hfront hanchored List.nil_prefix (Nat.zero_lt_succ _))
  cases hstands with
  | last hseq hfirst =>
    obtain ⟨front, last, hconcat⟩ := (List.eq_nil_or_concat kept).resolve_left
      (hkept.resolve_right (· rfl))
    rw [List.concat_eq_append] at hconcat
    have hwhole : held :: kept = (held :: front) ++ [last] := by rw [hconcat, List.cons_append]
    rw [(hready.split hseq hwhole).1]
    refine (UInt64.ne_of_lt (hless (hwhole ▸ List.prefix_append _ _) (Or.inl ?_))).symm
    rw [hwhole, List.length_append]
    exact Nat.lt_succ_self _
  | behind hseq hfirst hclosed =>
    rw [hseq]
    exact (UInt64.ne_of_lt (hless List.prefix_rfl (Or.inr (List.cons_ne_nil _ _)))).symm

/-- The lowest file is gone, and the lane is as ready as it was. -/
theorem Ready.forget (h : Ready base first walLane files [] (held :: kept) stub)
    (hstands : Stands base first walLane (held :: kept) stub) (hkept : kept ≠ [] ∨ stub ≠ []) :
    Ready (base + 1) (first + UInt64.ofNat held.batches.length) walLane (files.erase base) []
        kept stub ∧
      Stands (base + 1) (first + UInt64.ofNat held.batches.length) walLane kept stub := by
  have hseq : base + UInt64.ofNat (held :: kept).length = base + 1 + UInt64.ofNat kept.length := by
    rw [List.length_cons, succ_add_ofNat]
  have hbatch : first + UInt64.ofNat (allBatches (held :: kept)).length =
      first + UInt64.ofNat held.batches.length + UInt64.ofNat (allBatches kept).length := by
    rw [allBatches_cons, List.length_append, add_ofNat_add]
  have htoList : files.toList =
      (base, ⟨held.bytes walLane.lane base first, (held.bytes walLane.lane base first).length⟩) ::
        (Segment.files walLane.lane (base + 1) (first + UInt64.ofNat held.batches.length) kept ++
          stub) := h.disk.toList
  have herase := toList_erase_head htoList
  have hne := hstands.segmentSeq_ne h hkept
  have hafter : Stands (base + 1) (first + UInt64.ofNat held.batches.length) walLane kept stub := by
    cases hstands with
    | last hplace hfirst =>
      obtain ⟨next, others, rfl⟩ := List.exists_cons_of_ne_nil (hkept.resolve_right (· rfl))
      refine .last (hplace.trans hseq) ?_
      rw [hfirst, lastFirst_cons]
    | behind hplace hfirst hclosed =>
      exact .behind (hplace.trans hseq) (hfirst.trans hbatch) hclosed
  refine ⟨⟨⟨herase, List.forall_mem_nil _,
    fun other hmem ↦ h.disk.writers other (List.mem_cons_of_mem _ hmem), ?_, ?_⟩, ?_, ?_, ?_, ?_⟩,
    hafter⟩
  · rw [← hseq, ← hbatch]
    exact h.disk.loose
  · intro entry hmem
    rw [herase] at hmem
    refine h.disk.sizes entry ?_
    rw [htoList]
    exact List.mem_cons_of_mem _ hmem
  · rw [← hseq]
    exact h.behind
  · rw [← hbatch]
    exact h.next
  · cases hafter with
    | last hplace hfirst => exact Or.inl ⟨hplace, hfirst⟩
    | behind hplace hfirst hclosed =>
      rcases h.active with ⟨hother, -⟩ | ⟨-, -, -, hshort⟩
      · rw [hseq, ← hplace] at hother
        exact absurd hother (succ_ne_self _)
      · exact Or.inr ⟨hplace, hfirst, hclosed, hshort⟩
  · intro hopen
    obtain ⟨-, file, hfile, hbytes⟩ := h.opened hopen
    refine ⟨?_, file, ?_, hbytes⟩
    · cases hstands with
      | last => exact hkept.resolve_right (· rfl)
      | behind hplace hfirst hclosed => exact absurd (hclosed.symm.trans hopen) Bool.false_ne_true
    · rw [ExtTreeMap.getElem?_erase, if_neg]
      · exact hfile
      · simpa using hne.symm

/-- The lane's command deletes a front of the files it is given. -/
theorem Ready.deleteSegments (h : Ready base first walLane files [] (dropped ++ kept) stub)
    (hstands : Stands base first walLane (dropped ++ kept) stub)
    (hanchored : dropped = [] ∨ kept ≠ [] ∨ stub ≠ []) (possible : Nat) :
    ∃ gone left, dropped = gone ++ left ∧
      Ready (base + UInt64.ofNat gone.length)
        (first + UInt64.ofNat (allBatches gone).length) walLane
        (walLane.deleteSegments ((Segment.files walLane.lane base first dropped).map Prod.fst)
          possible files) [] (left ++ kept) stub ∧
      Stands (base + UInt64.ofNat gone.length)
        (first + UInt64.ofNat (allBatches gone).length) walLane (left ++ kept) stub := by
  induction dropped generalizing base first files possible with
  | nil =>
    refine ⟨[], [], rfl, ?_⟩
    rw [allBatches_nil, add_length_nil, add_length_nil]
    exact ⟨h, hstands⟩
  | cons held rest ih =>
    have hanchored := hanchored.resolve_left (List.cons_ne_nil _ _)
    have hkept : rest ++ kept ≠ [] ∨ stub ≠ [] :=
      hanchored.imp_left fun hkept hnil ↦ hkept (List.append_eq_nil_iff.mp hnil).2
    have hne := (hstands.segmentSeq_ne h hkept).symm
    cases possible with
    | zero =>
      refine ⟨[], held :: rest, rfl, ?_⟩
      rw [allBatches_nil, add_length_nil, add_length_nil]
      simp only [Segment.files, List.map_cons, LocalWalLane.deleteSegments, if_neg hne]
      exact ⟨h, hstands⟩
    | succ possible =>
      obtain ⟨hforget, hstands'⟩ := h.forget hstands hkept
      obtain ⟨gone, left, rfl, hready, hstands''⟩ :=
        ih hforget hstands' (Or.inr hanchored) possible
      refine ⟨held :: gone, left, rfl, ?_⟩
      rw [List.length_cons, ← succ_add_ofNat, allBatches_cons, List.length_append,
        ← add_ofNat_add first]
      simp only [Segment.files, List.map_cons, LocalWalLane.deleteSegments, if_neg hne]
      exact ⟨hready, hstands''⟩

/-! ### Sealing -/

/-- What a rotation of an open lane leaves, whichever part of it fails. -/
theorem Ready.sealActiveSegment (h : Ready base first walLane files [] whole stub)
    (hbase : 1 ≤ base) (hmax : walLane.segmentSeq.toNat + 1 < 2 ^ 64) (script : RotationScript) :
    (walLane.sealActiveSegment crc32c script files = ⟨.ok (), walLane, files⟩) ∨
      walLane.segmentSeq + 1 = base + UInt64.ofNat whole.length ∧
      walLane.sealActiveSegment crc32c script files = walLane.rotate crc32c script files ∧
      Prepared base first walLane [] whole stub (walLane.rotate crc32c script files) := by
  unfold LocalWalLane.sealActiveSegment
  by_cases hskip : (!walLane.isOpen || decide (walLane.segmentBytes ≤ segmentHeaderLen)) = true
  · exact Or.inl (if_pos hskip)
  · rw [if_neg hskip]
    simp only [Bool.or_eq_true, Bool.not_eq_true', not_or, Bool.not_eq_false] at hskip
    have hactive := h.active_eq hbase (Or.inl hskip.1)
    exact Or.inr ⟨hactive.1, rfl, h.rotate hactive hmax script⟩

section

variable (h : Running place offered base first files incarnation whole walLane)
  (htidy : walLane.Tidy files) (hbase : 1 ≤ base) (hmax : walLane.segmentSeq.toNat + 1 < 2 ^ 64)
include h htidy hbase hmax

/-- Sealing does nothing, or rotates to an empty segment. -/
theorem Running.sealActiveSegment :
    walLane.sealActiveSegment crc32c ⟨false, none⟩ files = ⟨.ok (), walLane, files⟩ ∨
      walLane.segmentSeq + 1 = base + UInt64.ofNat whole.length ∧
      (walLane.sealActiveSegment crc32c ⟨false, none⟩ files).outcome = .ok () ∧
      ∃ whole', Segment.Extends whole whole' ∧
        allBatches whole' = allBatches whole ∧
        Running place offered base first
          (walLane.sealActiveSegment crc32c ⟨false, none⟩ files).files incarnation whole'
          (walLane.sealActiveSegment crc32c ⟨false, none⟩ files).lane ∧
        (walLane.sealActiveSegment crc32c ⟨false, none⟩ files).lane.Tidy
          (walLane.sealActiveSegment crc32c ⟨false, none⟩ files).files := by
  obtain ⟨hroom, stub, hready, -⟩ := h.stands htidy hbase
  rcases hready.sealActiveSegment hbase hmax ⟨false, none⟩ with
    hsame | ⟨hactive, hrotate, hprepared⟩
  · exact Or.inl hsame
  · have hok : (walLane.rotate crc32c ⟨false, none⟩ files).outcome = .ok () := by
      unfold LocalWalLane.rotate
      rw [if_neg]
      exact not_or.mpr ⟨Bool.false_ne_true, htidy.next_not_mem hmax⟩
    obtain ⟨whole', stub', hbatches, hextends, hready', hopen⟩ := hprepared.ready
    rw [hrotate]
    refine Or.inr ⟨hactive, hok, whole', hextends, hbatches, ⟨hprepared.lane.trans h.lane,
      hprepared.identity.trans h.identity, hprepared.targetBytes.trans h.targetBytes,
      fun _ ↦ (hopen hok).1, Or.inl ⟨?_, stub', hready'⟩⟩, htidy.rotate hmax⟩
    rw [hbatches]
    exact hroom

end

end Lanes

end Kivi.Durability
