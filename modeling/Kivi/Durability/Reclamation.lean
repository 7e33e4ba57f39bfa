import Kivi.Durability.Crashes
import Kivi.Durability.Reclaim

/-!
# Reclamation beside appends and crashes

A checkpoint thread reclaims the log in steps while the lane appends and rotates, and the process
may crash between any two of them: it seals the active segment, asks the lane where it stands, lists
the directory, has the listed segments scanned, asks for the live bulk values, plans, publishes the
floor and deletes.

Two defects lose records. The listing leaves out the segment that was active when the lane was
asked. If the lane has moved on since, that segment is sealed and not among the listed ones, and the
floor can pass it (`acknowledged_lost_after_reclaim`). And if a retained checkpoint cannot be read,
it is taken to name no bulk value, where the workers' missing answers are taken to name all. A run
without these two, and without appends to a file that has no header, keeps every record that is not
promised and every bulk value that is live or named (`recovery_of_reclaims`).
-/

namespace Kivi.Durability

open Library Library.Runs
open State (TabletId)
open Segment

/-- How far the checkpoint thread is. -/
inductive ReclaimPhase where
  | idle
  /-- A checkpoint is being built from the bulk values that could be named at its capture. -/
  | captured (records : List RecoveredRecord)
  | sealed (floors : Promises)
  | asked (floors : Promises) (snapshot : LaneFloorSnapshot)
  | listed (floors : Promises) (snapshot : LaneFloorSnapshot) (segments : List UInt64)
  | scanned (floors : Promises) (snapshot : LaneFloorSnapshot)
    (summaries : List SealedSegmentSummary)
  | reported (floors : Promises) (snapshot : LaneFloorSnapshot)
    (summaries : List SealedSegmentSummary) (live : Option (List UInt64))
  | planned (plan : LaneReclaim)
  | published (obsolete : List UInt64)

/-- The files with the published floor, the running lane, and what has happened so far: all records
that were recovered or acknowledged, the cuts that were promised, and the records of the bulk values
that are live and of those that retained checkpoints name. -/
structure ReclaimWorld where
  files : LaneDirectory
  floor : LaneFloor
  lane : Option LocalWalLane
  incarnation : UInt64
  settled : List RecoveredRecord
  acknowledged : List (UInt64 × Batch)
  promised : TabletId → Option UInt64
  live : List RecoveredRecord
  named : List RecoveredRecord
  phase : ReclaimPhase

inductive Interrupted where
  | append (batch : Batch) (script : IoScript)
  | sealing (script : RotationScript)

inductive ReclaimEvent where
  | start
  | append (batch : Batch)
  | crash (pending : Option Interrupted) (keep : UInt64 → Nat)
  /-- Bulk values are overwritten or deleted. -/
  | supersede (records : List RecoveredRecord)
  | capture
  /-- The built checkpoint is installed; with the one before it, it names these values. -/
  | install (records : List RecoveredRecord)
  /-- Reclamation starts with the verified cuts of the previous checkpoints. -/
  | sealActive (floors : Promises)
  | ask
  | list
  | scan
  /-- All workers report their live values, or one does not answer. -/
  | report (answered : Bool)
  /-- The retained checkpoints are read, or one of them cannot be. -/
  | plan (readable : Bool)
  | publish
  | delete (possible : Nat)
  /-- The reclamation or the checkpoint fails. -/
  | abandon

/-- The records that hold the bytes of bulk values. -/
def materialsOf (records : List RecoveredRecord) : List RecoveredRecord :=
  records.filter fun record ↦ record.fabricId.isSome

def fabricIdsOf (records : List RecoveredRecord) : List UInt64 := records.filterMap (·.fabricId)

section Steps

variable (crc32c : Checksum) (place : LanePlace)

namespace ReclaimWorld

def initial : ReclaimWorld :=
  ⟨∅, .forLane place.lane, none, 0, [], [], fun _ ↦ none, [], [], .idle⟩

variable (world : ReclaimWorld)

/-- Recovery from the published floor. -/
def recover : Except RecoveryError (LocalWalLane.LaneRecovery × LocalWalLane × LaneDirectory) :=
  (LocalWalLane.new place.lane (place.identity (world.incarnation + 1))
    place.targetBytes).recoverFrom crc32c world.floor world.files

def start : ReclaimWorld :=
  if world.lane.isSome ∨ world.incarnation.toNat + 1 = 2 ^ 64 then world
  else match world.recover crc32c place with
    | .error _ => { world with incarnation := world.incarnation + 1 }
    | .ok (recovery, lane, files) =>
      { world with
        files
        lane := some lane
        incarnation := world.incarnation + 1
        settled := world.settled.filter (fun record ↦
          decide (record.batchSeq < world.floor.firstBatch)) ++ recovery.records
        live := world.live ++ materialsOf recovery.records }

/-- The process ends, and of the files this much stays. -/
def die (keep : UInt64 → Nat) (files : LaneDirectory) (world : ReclaimWorld) : ReclaimWorld :=
  { world with files := crashed keep files, lane := none, phase := .idle }

def append (batch : Batch) (world : ReclaimWorld) : ReclaimWorld :=
  match world.lane with
  | none => world
  | some lane =>
    let step := lane.append crc32c .clean batch world.files
    match step.outcome with
    | .ok number =>
      { world with
        files := step.files
        lane := some step.lane
        settled := world.settled ++ batch.records number
        acknowledged := world.acknowledged ++ [(number, batch)]
        live := world.live ++ materialsOf (batch.records number) }
    | .err _ => { world with files := step.files, lane := some step.lane }
    -- the process dies, and its files stay as they are
    | .panic => world.die (fun seq ↦ (step.files[seq]?.getD ⟨[], 0⟩).bytes.length) step.files

def crash (pending : Option Interrupted) (keep : UInt64 → Nat) (world : ReclaimWorld) :
    ReclaimWorld :=
  match world.lane, pending with
  | some lane, some (.append batch script) =>
    world.die keep (lane.append crc32c script batch world.files).files
  | some lane, some (.sealing script) =>
    world.die keep (lane.sealActiveSegment crc32c script world.files).files
  | _, _ => world.die keep world.files

/-- The steps of the checkpoint thread; each follows the one before it. -/
def reclaim (lane : LocalWalLane) (world : ReclaimWorld) :
    ReclaimEvent → ReclaimPhase → ReclaimWorld
  | .capture, .idle => { world with phase := .captured (world.live ++ world.named) }
  | .install records, .captured captured =>
    { world with named := records.filter (· ∈ captured), phase := .idle }
  | .sealActive floors, .idle =>
    let step := lane.sealActiveSegment crc32c ⟨false, none⟩ world.files
    { world with
      files := step.files
      lane := some step.lane
      promised := fun tablet ↦ Option.merge max (world.promised tablet) floors[tablet]?
      phase := match step.outcome with
        | .ok () => .sealed floors
        | _ => .idle }
  | .ask, .sealed floors => { world with phase := .asked floors lane.floorSnapshot }
  | .list, .asked floors snapshot =>
    { world with
      phase := .listed floors snapshot (listSealedSegments world.files snapshot.activeSegment) }
  | .scan, .listed floors snapshot segments =>
    { world with
      phase := match lane.scanAllSealed crc32c world.files segments with
        | .ok summaries => .scanned floors snapshot summaries
        | .error _ => .idle }
  | .report answered, .scanned floors snapshot summaries =>
    { world with
      phase := .reported floors snapshot summaries
        (if answered then some (fabricIdsOf world.live) else none) }
  | .plan readable, .reported floors snapshot summaries live =>
    { world with
      phase := .planned (planReclaim summaries snapshot floors
        (live.map (· ++ if readable then fabricIdsOf world.named else []))) }
  | .publish, .planned plan => { world with floor := plan.floor, phase := .published plan.obsolete }
  | .delete possible, .published obsolete =>
    { world with files := lane.deleteSegments obsolete possible world.files, phase := .idle }
  | .abandon, _ => { world with phase := .idle }
  | _, _ => world

def step : ReclaimEvent → ReclaimWorld
  | .start => world.start crc32c place
  | .append batch => world.append crc32c batch
  | .crash pending keep => world.crash crc32c pending keep
  | .supersede records => { world with live := world.live.filter (· ∉ records) }
  | event =>
    match world.lane with
    | none => world
    | some lane => world.reclaim crc32c lane event world.phase

/-! ### What recovery owes, and the steps that endanger it -/

/-- Recovery succeeds and returns, with at most one batch more, what is settled but for some first
batches. Those are all promised, and no live or named value is in them. The acknowledged batches are
among the settled ones under their numbers, and the next number follows. -/
def Recovers : Prop :=
  ∃ recovery lane files, world.recover crc32c place = .ok (recovery, lane, files) ∧
    ∃ dropped kept extra : List Batch, world.settled = recordsOf 1 (dropped ++ kept) ∧
      recovery.records = recordsOf (1 + UInt64.ofNat dropped.length) (kept ++ extra) ∧
      extra.length ≤ 1 ∧
      (∀ record ∈ recordsOf 1 dropped, record.Promised world.promised) ∧
      (∀ record ∈ world.live ++ world.named, record ∈ recovery.records) ∧
      (world.acknowledged.map Prod.fst).Pairwise (· < ·) ∧
      (∀ entry ∈ world.acknowledged,
        1 ≤ entry.1 ∧ (dropped ++ kept)[entry.1.toNat - 1]? = some entry.2) ∧
      lane.nextBatchSeq.toNat = 1 + (dropped ++ kept ++ extra).length

/-- Appends go where they may and can be read back, the lane does not move on between the question
and the listing, and no retained checkpoint is unreadable when all workers answered. -/
def Heedful (event : ReclaimEvent) : Prop :=
  ∀ lane ∈ world.lane, match event, world.phase with
    | .append batch, _ => lane.Placed world.files ∧ batch.Readable crc32c
    | .crash (some (.append batch _)) _, _ => lane.Placed world.files ∧ batch.Readable crc32c
    | .crash (some (.sealing _)) _, _ => lane.segmentSeq.toNat + 1 < 2 ^ 64
    | .sealActive _, _ => lane.segmentSeq.toNat + 1 < 2 ^ 64
    | .list, .asked _ snapshot => lane.segmentSeq = snapshot.activeSegment
    | .plan readable, .reported _ _ _ live => readable = true ∨ live = none
    | _, _ => True

end ReclaimWorld

end Steps

variable {crc32c : Checksum}

/-! ### Records by their batches -/

variable {record : RecoveredRecord}

theorem batchSeq_of_mem_recordsOf {first : UInt64} {batches : List Batch}
    (hroom : first.toNat + batches.length < 2 ^ 64) (h : record ∈ recordsOf first batches) :
    first.toNat ≤ record.batchSeq.toNat ∧
      record.batchSeq.toNat < first.toNat + batches.length := by
  induction batches generalizing first with
  | nil => exact absurd h List.not_mem_nil
  | cons batch rest ih =>
    rw [List.length_cons] at hroom ⊢
    have hsucc : (first + 1).toNat = first.toNat + 1 := by
      rw [UInt64.toNat_add, UInt64.toNat_one, Nat.mod_eq_of_lt (by omega)]
    rcases List.mem_append.mp h with hhead | hrest
    · obtain ⟨entry, -, rfl⟩ := List.mem_map.mp hhead
      dsimp only
      omega
    · have hbounds := ih (by omega) hrest
      omega

/-- The records of the first batches are those with the lower numbers. -/
theorem filter_recordsOf {first : UInt64} {front back : List Batch}
    (hroom : first.toNat + (front ++ back).length < 2 ^ 64) :
    ((recordsOf first (front ++ back)).filter fun record ↦
        decide (record.batchSeq < first + UInt64.ofNat front.length)) = recordsOf first front := by
  rw [List.length_append] at hroom
  have hbound : (first + UInt64.ofNat front.length).toNat = first.toNat + front.length :=
    toNat_add_ofNat (by omega)
  rw [recordsOf_append, List.filter_append, List.filter_eq_self.mpr, List.filter_eq_nil_iff.mpr,
    List.append_nil]
  · intro record hmem
    have hbounds := (batchSeq_of_mem_recordsOf (by omega) hmem).1
    simp only [decide_eq_true_eq, UInt64.not_lt, UInt64.le_iff_toNat_le]
    exact hbounds
  · intro record hmem
    have hbounds := (batchSeq_of_mem_recordsOf (by omega) hmem).2
    rw [decide_eq_true_eq, UInt64.lt_iff_toNat_lt, hbound]
    exact hbounds

/-- A record of a batch behind the given files. -/
def Kept (first : UInt64) (dropped : List (Segment crc32c))
    (batches : List (WrittenBatch crc32c)) (record : RecoveredRecord) : Prop :=
  ∃ kept, allBatches dropped ++ kept = batches ∧
    record ∈ recordsOf (first + UInt64.ofNat (allBatches dropped).length) (batchesOf kept)

namespace Kept

variable {first : UInt64} {dropped next : List (Segment crc32c)}
  {batches more : List (WrittenBatch crc32c)} {record : RecoveredRecord}

theorem append (h : Kept first dropped batches record) (more : List (WrittenBatch crc32c)) :
    Kept first dropped (batches ++ more) record := by
  obtain ⟨kept, rfl, hmem⟩ := h
  refine ⟨kept ++ more, (List.append_assoc _ _ _).symm, ?_⟩
  rw [batchesOf_append, recordsOf_append]
  exact List.mem_append_left _ hmem

/-- Records of new batches are kept. -/
theorem of_new (hdropped : allBatches dropped <+: batches)
    (h : record ∈ recordsOf (first + UInt64.ofNat batches.length) (batchesOf more)) :
    Kept first dropped (batches ++ more) record := by
  obtain ⟨kept, rfl⟩ := hdropped
  refine ⟨kept ++ more, (List.append_assoc _ _ _).symm, ?_⟩
  rw [batchesOf_append, recordsOf_append, length_batchesOf, add_ofNat_add, ← List.length_append]
  exact List.mem_append_right _ h

/-- A kept record stays kept, unless it is dropped. -/
theorem dropped_or (h : Kept first dropped batches record)
    (hnext : allBatches next <+: batches) :
    record ∈ Segment.records first next ∨ Kept first next batches record := by
  obtain ⟨kept, hbatches, hmem⟩ := h
  obtain ⟨rest, hrest⟩ := hnext
  have hall : record ∈ recordsOf first (batchesOf batches) := by
    rw [← hbatches, batchesOf_append, recordsOf_append, length_batchesOf]
    exact List.mem_append_right _ hmem
  rw [← hrest, batchesOf_append, recordsOf_append, length_batchesOf, List.mem_append] at hall
  exact hall.imp_right fun hmem ↦ ⟨rest, hrest, hmem⟩

theorem weaken (h : Kept first dropped batches record) (hnext : next <+: dropped) :
    Kept first next batches record := by
  obtain ⟨kept, rfl, hmem⟩ := h
  obtain ⟨rest, rfl⟩ := hnext
  refine ⟨allBatches rest ++ kept, ?_, ?_⟩
  · rw [allBatches_append, List.append_assoc]
  · rw [batchesOf_append, recordsOf_append, length_batchesOf, add_ofNat_add, ← List.length_append,
      ← allBatches_append]
    exact List.mem_append_right _ hmem

/-- The first files may be left out of the count. -/
theorem shift (h : Kept first (next ++ dropped) (allBatches next ++ batches) record) :
    Kept (first + UInt64.ofNat (allBatches next).length) dropped batches record := by
  obtain ⟨kept, hbatches, hmem⟩ := h
  rw [allBatches_append, List.append_assoc] at hbatches
  refine ⟨kept, List.append_cancel_left hbatches, ?_⟩
  rw [add_ofNat_add, ← List.length_append, ← allBatches_append]
  exact hmem

end Kept

theorem Segment.allBatches_mono {front whole : List (Segment crc32c)} (h : front <+: whole) :
    allBatches front <+: allBatches whole := by
  obtain ⟨rest, rfl⟩ := h
  rw [allBatches_append]
  exact List.prefix_append _ _

/-! ### The invariant -/

section Invariant

variable (place : LanePlace)

/-- The cuts are promised. -/
def Promises.Within (floors : Promises) (promised : TabletId → Option UInt64) : Prop :=
  ∀ tablet, ∀ cut ∈ floors[tablet]?, ∃ higher ∈ promised tablet, cut ≤ higher

/-- What the checkpoint thread knows is still so. -/
def ReclaimWorld.InPhase (world : ReclaimWorld) (base first : UInt64)
    (dropped whole : List (Segment crc32c)) (walLane : LocalWalLane) : ReclaimPhase → Prop
  | .idle => True
  | .captured records => ∀ record ∈ records, record.fabricId.isSome ∧
    Kept first dropped (allBatches whole) record
  | .sealed floors => floors.Within world.promised
  | .asked floors snapshot => floors.Within world.promised ∧
    ∃ sealed, Snapshotted base first whole walLane snapshot sealed
  | .listed floors snapshot segments => floors.Within world.promised ∧
    ∃ sealed, Snapshotted base first whole walLane snapshot sealed ∧
      segments = (Segment.files place.lane base first sealed).map Prod.fst
  | .scanned floors snapshot summaries => floors.Within world.promised ∧
    ∃ sealed, Snapshotted base first whole walLane snapshot sealed ∧
      summaries = Segment.summaries base first sealed
  | .reported floors snapshot summaries live => floors.Within world.promised ∧
    ∃ sealed, Snapshotted base first whole walLane snapshot sealed ∧
      summaries = Segment.summaries base first sealed ∧
      ∀ ids ∈ live, ∀ record ∈ world.live, (∃ id ∈ record.fabricId, id ∈ ids) ∨
        Kept first sealed (allBatches whole) record
  | .planned plan => ∃ next, next <+: whole ∧
    walLane.Anchors base next whole ∧
    plan.floor.Above place base first next (allBatches whole) ∧
    plan.obsolete = (Segment.files place.lane base first next).map Prod.fst ∧
    (∀ record ∈ Segment.records first next, record.Promised world.promised) ∧
    ∀ record ∈ world.live ++ world.named, Kept first next (allBatches whole) record
  | .published obsolete =>
    obsolete = (Segment.files place.lane base first dropped).map Prod.fst

/-- The running lane holds the batches, with the dropped files before others. -/
structure ReclaimWorld.Steady (world : ReclaimWorld) (base first : UInt64)
    (dropped whole : List (Segment crc32c)) (walLane : LocalWalLane) : Prop where
  running : Running place (fun _ ↦ True) base first world.files world.incarnation whole
    walLane
  tidy : walLane.Tidy world.files
  front : dropped <+: whole
  behind : walLane.Anchors base dropped whole
  phase : world.InPhase place base first dropped whole walLane world.phase

/-- The batches that are settled: those in deleted files and those on disk, some of them below the
floor. -/
structure ReclaimWorld.Keeps (world : ReclaimWorld) (base first : UInt64)
    (gone : List (WrittenBatch crc32c)) (dropped : List (Segment crc32c))
    (batches : List (WrittenBatch crc32c)) : Prop where
  base_pos : 1 ≤ base
  first_eq : first.toNat = 1 + gone.length
  settled : world.settled = recordsOf 1 (batchesOf (gone ++ batches))
  ascending : (world.acknowledged.map Prod.fst).Pairwise (· < ·)
  acknowledged : ∀ entry ∈ world.acknowledged, 1 ≤ entry.1 ∧
    entry.1.toNat ≤ (gone ++ batches).length ∧
    (batchesOf (gone ++ batches))[entry.1.toNat - 1]? = some entry.2
  floor : world.floor.Above place base first dropped batches
  front : allBatches dropped <+: batches
  promised : ∀ record ∈ recordsOf 1 (batchesOf (gone ++ allBatches dropped)),
    record.Promised world.promised
  materials : ∀ record ∈ world.live ++ world.named, record.fabricId.isSome
  held : ∀ record ∈ world.live ++ world.named, Kept first dropped batches record
  founded : base = 1 ∧ first = 1 ∨ base ∈ world.files
  down : world.lane = none → world.phase = .idle ∧
    Down place (fun _ ↦ True) base first world.files world.incarnation dropped batches
  steady : ∀ walLane ∈ world.lane, ∃ whole, allBatches whole = batches ∧
    world.Steady place base first dropped whole walLane

variable (crc32c) in
/-- The batches are kept, however they are divided. -/
def ReclaimWorld.Sound (world : ReclaimWorld) : Prop :=
  ∃ base first, ∃ gone : List (WrittenBatch crc32c), ∃ dropped batches,
    world.Keeps place base first gone dropped batches

end Invariant

/-! ### Files that stay -/

variable {recovery : LocalWalLane.LaneRecovery}

section Files

variable {walLane after : LocalWalLane} {files files' : LaneDirectory} {seq : UInt64}

theorem mem_of_rotate (script : RotationScript) (hmem : seq ∈ files) :
    seq ∈ (walLane.rotate crc32c script files).files := by
  unfold LocalWalLane.rotate
  dsimp only
  split_ifs
  · exact hmem
  · cases script.header <;> exact Std.ExtTreeMap.mem_insert.mpr (Or.inr hmem)

theorem mem_of_append (script : IoScript) (batch : Batch) (hmem : seq ∈ files) :
    seq ∈ (walLane.append crc32c script batch files).files := by
  refine LocalWalLane.append_invariant (P := fun _ files ↦ seq ∈ files) (fun h _ ↦ h)
    ?_ (mem_of_rotate _) (fun _ h ↦ mem_of_rotate _ h) hmem
  intro lane files body _ _ h
  unfold LocalWalLane.writeFrame
  cases script.frame <;> exact Std.ExtTreeMap.mem_insert.mpr (Or.inr h)

theorem mem_of_sealActiveSegment (script : RotationScript) (hmem : seq ∈ files) :
    seq ∈ (walLane.sealActiveSegment crc32c script files).files := by
  unfold LocalWalLane.sealActiveSegment
  split_ifs
  · exact hmem
  · exact mem_of_rotate script hmem

theorem mem_crashed (keep : UInt64 → Nat) (hmem : seq ∈ files) : seq ∈ crashed keep files := by
  rw [crashed, ← Std.ExtTreeMap.isSome_getElem?_iff_mem, Std.ExtTreeMap.getElem?_map,
    Option.isSome_map, Std.ExtTreeMap.isSome_getElem?_iff_mem]
  exact hmem

end Files

variable {phase : ReclaimPhase}

section Growth

variable {place : LanePlace} {world world' : ReclaimWorld} {base first : UInt64}
  {dropped whole whole' : List (Segment crc32c)} {walLane after : LocalWalLane}
  {gone batches more : List (WrittenBatch crc32c)}

theorem LaneFloor.Above.append {floor : LaneFloor}
    (h : floor.Above place base first dropped batches)
    (more : List (WrittenBatch crc32c)) :
    floor.Above place base first dropped (batches ++ more) := by
  refine ⟨h.lane, h.firstSegment, h.firstBatch, h.nextBatch.trans ?_⟩
  rw [List.length_append]
  omega

theorem LaneFloor.Above.shift {floor : LaneFloor} {front : List (Segment crc32c)}
    (h : floor.Above place base first (front ++ dropped) (allBatches front ++ batches))
    (hfits : first.toNat + (allBatches front).length < 2 ^ 64) :
    floor.Above place (base + UInt64.ofNat front.length)
      (first + UInt64.ofNat (allBatches front).length) dropped batches := by
  refine ⟨h.lane, ?_, ?_, ?_⟩
  · rw [h.firstSegment, List.length_append, add_ofNat_add]
  · rw [h.firstBatch, allBatches_append, List.length_append, add_ofNat_add]
  · rw [toNat_add_ofNat hfits, Nat.add_assoc, ← List.length_append]
    exact h.nextBatch

namespace ReclaimWorld

/-- Appends do not change what the checkpoint thread knows. -/
theorem InPhase.grow (h : world.InPhase place base first dropped whole walLane phase)
    (hactive : walLane.segmentSeq + 1 = base + UInt64.ofNat whole.length)
    (hextends : Segment.Extends whole whole')
    (hbatches : allBatches whole' = allBatches whole ++ more)
    (hlane : after.lane = walLane.lane) (hpromised : world'.promised = world.promised)
    (hnamed : world'.named = world.named)
    (hlive : ∀ record ∈ world'.live, record ∈ world.live ∨ record ∈ recordsOf
      (first + UInt64.ofNat (allBatches whole).length) (batchesOf more)) :
    world'.InPhase place base first dropped whole' after phase := by
  have hkept {front : List (Segment crc32c)} {record : RecoveredRecord}
      (h : Kept first front (allBatches whole) record) :
      Kept first front (allBatches whole') record := by
    rw [hbatches]
    exact h.append more
  have hgrown {snapshot : LaneFloorSnapshot} {sealed : List (Segment crc32c)}
      (h : Snapshotted base first whole walLane snapshot sealed) :
      Snapshotted base first whole' after snapshot sealed := by
    refine h.extends hlane hactive hextends ?_
    rw [hbatches, List.length_append]
    omega
  have hnew {front : List (Segment crc32c)} (hfront : front <+: whole) {record : RecoveredRecord}
      (hmem : record ∈ recordsOf (first + UInt64.ofNat (allBatches whole).length)
        (batchesOf more)) : Kept first front (allBatches whole') record := by
    rw [hbatches]
    exact .of_new (allBatches_mono hfront) hmem
  cases phase with
  | idle => trivial
  | captured records => exact fun record hmem ↦ (h record hmem).imp_right hkept
  | sealed floors =>
    rw [InPhase, hpromised]
    exact h
  | asked floors snapshot =>
    obtain ⟨hwithin, sealed, hsealed⟩ := h
    rw [InPhase, hpromised]
    exact ⟨hwithin, sealed, hgrown hsealed⟩
  | listed floors snapshot segments =>
    obtain ⟨hwithin, sealed, hsealed, hsegments⟩ := h
    rw [InPhase, hpromised]
    exact ⟨hwithin, sealed, hgrown hsealed, hsegments⟩
  | scanned floors snapshot summaries =>
    obtain ⟨hwithin, sealed, hsealed, hsummaries⟩ := h
    rw [InPhase, hpromised]
    exact ⟨hwithin, sealed, hgrown hsealed, hsummaries⟩
  | reported floors snapshot summaries live =>
    obtain ⟨hwithin, sealed, hsealed, hsummaries, hreport⟩ := h
    rw [InPhase, hpromised]
    refine ⟨hwithin, sealed, hgrown hsealed, hsummaries, fun ids hids record hmem ↦ ?_⟩
    rcases hlive record hmem with hold | hrecent
    · exact (hreport ids hids record hold).imp_right hkept
    · exact Or.inr (hnew hsealed.front hrecent)
  | planned plan =>
    obtain ⟨next, hnext, hbehind, hfloor, hobsolete, hcovered, hheld⟩ := h
    obtain ⟨hnext', hbehind'⟩ := hextends.keeps hnext (behind_of_active hactive hbehind)
    refine ⟨next, hnext', hbehind'.imp_right Or.inl, ?_, hobsolete, ?_, ?_⟩
    · rw [hbatches]
      exact hfloor.append more
    · rw [hpromised]
      exact hcovered
    · rw [hnamed]
      intro record hmem
      rcases List.mem_append.mp hmem with hmem | hmem
      · rcases hlive record hmem with hold | hrecent
        · exact hkept (hheld record (List.mem_append_left _ hold))
        · exact hnew hnext hrecent
      · exact hkept (hheld record (List.mem_append_right _ hmem))
  | published obsolete => exact h

/-- Fewer live values ask for less. -/
theorem InPhase.supersede (h : world.InPhase place base first dropped whole walLane phase)
    {live : List RecoveredRecord} (hlive : ∀ record ∈ live, record ∈ world.live) :
    ({ world with live } : ReclaimWorld).InPhase place base first dropped whole walLane
      phase := by
  cases phase with
  | reported floors snapshot summaries ids =>
    obtain ⟨hwithin, sealed, hsealed, hsummaries, hreport⟩ := h
    exact ⟨hwithin, sealed, hsealed, hsummaries,
      fun ids hids record hmem ↦ hreport ids hids record (hlive record hmem)⟩
  | planned plan =>
    obtain ⟨next, hnext, hbehind, hfloor, hobsolete, hcovered, hheld⟩ := h
    refine ⟨next, hnext, hbehind, hfloor, hobsolete, hcovered, fun record hmem ↦ hheld record ?_⟩
    exact List.mem_append.mpr ((List.mem_append.mp hmem).imp_left (hlive record))
  | _ => exact h

end ReclaimWorld

end Growth

/-! ### Steps of the lane -/

section LaneSteps

variable {place : LanePlace} {world : ReclaimWorld} {base first : UInt64}
  {dropped : List (Segment crc32c)} {gone batches : List (WrittenBatch crc32c)}

namespace ReclaimWorld

theorem keeps_initial (crc32c : Checksum) (place : LanePlace) :
    @Keeps crc32c place (initial place) 1 1 [] [] [] := by
  exact ⟨UInt64.le_refl 1, rfl, rfl, List.Pairwise.nil, List.forall_mem_nil _,
    ⟨rfl, rfl, rfl, Nat.le_refl _⟩, List.nil_prefix, List.forall_mem_nil _,
    List.forall_mem_nil _, List.forall_mem_nil _, Or.inl ⟨rfl, rfl⟩,
    fun _ ↦ ⟨rfl, .empty crc32c place _⟩, fun _ hmem ↦ nomatch hmem⟩

/-- A promise is kept when others are made. -/
theorem promised_merge {promised : TabletId → Option UInt64} (h : record.Promised promised)
    (floors : Promises) :
    record.Promised fun tablet ↦ Option.merge max (promised tablet) floors[tablet]? := by
  intro position hposition
  obtain ⟨cut, hcut, hle⟩ := h position hposition
  rw [Option.mem_def] at hcut
  dsimp only
  rw [hcut]
  cases floors[position.1]? with
  | none => exact ⟨cut, rfl, hle⟩
  | some other =>
    exact ⟨max cut other, rfl, UInt64.le_trans hle (max_le_iff.mp (UInt64.le_refl _)).1⟩

namespace Keeps

variable (h : world.Keeps place base first gone dropped batches)

include h

theorem sound :
    world.Sound crc32c place :=
  ⟨base, first, gone, dropped, batches, h⟩

theorem first_pos : 1 ≤ first := by
  rw [UInt64.le_iff_toNat_le, h.first_eq]
  exact Nat.le_add_right 1 _

theorem first_eq_add : first = 1 + UInt64.ofNat gone.length := by
  have hlt := first.toNat_lt
  rw [h.first_eq] at hlt
  refine UInt64.toNat_inj.mp ?_
  rw [h.first_eq, toNat_add_ofNat hlt]
  rfl

theorem firstBatch_eq : world.floor.firstBatch =
    1 + UInt64.ofNat (batchesOf (gone ++ allBatches dropped)).length := by
  rw [h.floor.firstBatch, h.first_eq_add, length_batchesOf, List.length_append, add_ofNat_add]

/-- The records below the floor, and those that recovery returned, are those of all batches. -/
theorem settled_of_recovery {rest extra : List (WrittenBatch crc32c)}
    (hrest : allBatches dropped ++ rest = batches ++ extra)
    (hrecords : recovery.records = recordsOf world.floor.firstBatch (batchesOf rest))
    (hroom : first.toNat + (batches ++ extra).length < 2 ^ 64) :
    world.settled.filter (fun record ↦ decide (record.batchSeq < world.floor.firstBatch)) ++
        recovery.records = recordsOf 1 (batchesOf (gone ++ (batches ++ extra))) := by
  obtain ⟨kept, hkept⟩ := h.front
  have hlength := h.first_eq
  rw [List.length_append] at hroom
  have hfits : (1 : UInt64).toNat + (batchesOf (gone ++ allBatches dropped) ++
      batchesOf kept).length < 2 ^ 64 := by
    rw [← batchesOf_append, length_batchesOf, List.append_assoc, hkept, List.length_append,
      UInt64.toNat_one]
    omega
  have hfilter := filter_recordsOf hfits
  rw [← h.firstBatch_eq, ← batchesOf_append, List.append_assoc, hkept, ← h.settled] at hfilter
  rw [hfilter, hrecords, h.firstBatch_eq, ← recordsOf_append, ← batchesOf_append,
    List.append_assoc, hrest]

/-- What is live or named after new records came: those from before and the new bulk values. -/
theorem materials_append (records : List RecoveredRecord) {more : List (WrittenBatch crc32c)}
    (hnew : ∀ record ∈ records, Kept first dropped (batches ++ more) record) :
    ∀ record ∈ world.live ++ materialsOf records ++ world.named,
      record.fabricId.isSome ∧ Kept first dropped (batches ++ more) record := by
  have hold : ∀ record ∈ world.live ++ world.named,
      record.fabricId.isSome ∧ Kept first dropped (batches ++ more) record :=
    fun record hmem ↦ ⟨h.materials record hmem, (h.held record hmem).append more⟩
  rw [List.forall_mem_append] at hold
  simp only [List.forall_mem_append, materialsOf, List.mem_filter]
  exact ⟨⟨hold.1, fun record hmem ↦ ⟨hmem.2, hnew record hmem.1⟩⟩, hold.2⟩

/-- Recovery at the start leaves a sound world. -/
theorem start : (world.start crc32c place).Sound crc32c place := by
  unfold ReclaimWorld.start
  split
  · exact h.sound
  next hskip =>
  obtain ⟨hsome, hend⟩ := not_or.mp hskip
  have hnone : world.lane = none := Option.not_isSome_iff_eq_none.mp hsome
  have hlast := world.incarnation.toNat_lt
  obtain ⟨extra, rest, whole, recovery, walLane, files, -, hok, hrest, hrecords, hfront, hbatches,
    hrunning, htidy, hbehind⟩ :=
    (h.down hnone).2.recovers h.floor h.base_pos h.first_pos (by omega) fun _ ↦ True
  have hroom := (hrunning.stands htidy h.base_pos).1
  rw [hbatches] at hroom
  rw [ReclaimWorld.recover, hok]
  rw [h.floor.firstBatch] at hrecords
  have hheld := h.materials_append _ fun record hmem ↦ ⟨rest, hrest, hrecords ▸ hmem⟩
  rw [← h.floor.firstBatch] at hrecords
  refine sound ⟨h.base_pos, h.first_eq, h.settled_of_recovery hrest hrecords hroom, h.ascending,
    ?_, h.floor.append extra, h.front.trans (List.prefix_append _ _), h.promised,
    fun record hmem ↦ (hheld record hmem).1, fun record hmem ↦ (hheld record hmem).2, ?_,
    (fun hdown ↦ nomatch hdown), ?_⟩
  · rw [← List.append_assoc]
    exact fun entry hmem ↦ getElem_batchesOf_append (h.acknowledged entry hmem)
  · refine h.founded.imp_right fun hmem ↦
      (recoverFrom_invariant (P := (base ∈ ·)) ?_ hmem hok).1
    intro other _ current last state scanned hcurrent _ _ file
    exact Std.ExtTreeMap.mem_insert.mpr (Or.inr hcurrent)
  · intro lane hlane
    cases hlane
    refine ⟨whole, hbatches, hrunning, htidy, hfront, hbehind, ?_⟩
    rw [(h.down hnone).1]
    trivial

theorem die {keep : UInt64 → Nat} {files : LaneDirectory}
    (hfounded : base ∈ world.files → base ∈ files)
    (hdown : Down place (fun _ ↦ True) base first (crashed keep files) world.incarnation
      dropped batches) :
    (world.die keep files).Keeps place base first gone dropped batches :=
  { h with
    founded := h.founded.imp_right fun hmem ↦ mem_crashed keep (hfounded hmem)
    down := fun _ ↦ ⟨rfl, hdown⟩
    steady := fun _ hmem ↦ nomatch hmem }

/-- An append puts its batch behind what is kept, or fails and leaves the kept part whole. -/
theorem append {batch : Batch} (hheedful : world.Heedful crc32c (.append batch)) :
    (world.append crc32c batch).Sound crc32c place := by
  unfold ReclaimWorld.append
  cases hlane : world.lane with
  | none => exact h.sound
  | some walLane =>
    obtain ⟨whole, rfl, hsteady⟩ := h.steady walLane hlane
    obtain ⟨hplaced, hreadable⟩ := hheedful walLane hlane
    have htidy := @LocalWalLane.Tidy.append crc32c _ walLane hsteady.tidy hplaced.segments batch
    have hunspoiled := hsteady.tidy.unspoiled hplaced .clean
    dsimp only
    rcases hsteady.running.append h.base_pos (Or.inr ⟨hunspoiled, hreadable⟩) with
      hfailed | ⟨hroom, hnext, hactive, happended⟩
    · rw [hfailed]
      refine sound { h with down := (fun hdown ↦ by cases hdown), steady := ?_ }
      intro lane hsame
      cases hsame
      exact ⟨whole, rfl, { hsteady with }⟩
    · obtain ⟨whole', hextends, hafter, hresult⟩ :=
        happended.running (fun _ ↦ True) trivial hsteady.running hroom
      obtain ⟨hfront', hbehind'⟩ := hextends.keeps hsteady.front
        (behind_of_active hactive hsteady.behind)
      have hsame : (walLane.append crc32c .clean batch world.files).lane.lane = walLane.lane :=
        hafter.lane.trans hsteady.running.lane.symm
      have hfounded : base = 1 ∧ first = 1 ∨
          base ∈ (walLane.append crc32c .clean batch world.files).files :=
        h.founded.imp_right (mem_of_append _ _)
      rcases hresult with ⟨written, hbatch, hok, hall, -⟩ | ⟨hfails, hall⟩
      · have hnumber : walLane.nextBatchSeq.toNat =
            1 + (gone ++ allBatches whole).length := by
          rw [hnext, toNat_add_ofNat (by omega), h.first_eq, List.length_append, Nat.add_assoc]
        have hrecords : recordsOf (first + UInt64.ofNat (allBatches whole).length)
            (batchesOf [written]) = batch.records walLane.nextBatchSeq := by
          simp [batchesOf, recordsOf, hbatch, hnext]
        have hsettled : recordsOf 1 (batchesOf (gone ++ (allBatches whole ++ [written]))) =
            world.settled ++ batch.records walLane.nextBatchSeq := by
          rw [← List.append_assoc, batchesOf_append, recordsOf_append, length_batchesOf,
            ← h.settled, ← hrecords, h.first_eq_add, add_ofNat_add, ← List.length_append]
        have hlive : ∀ record ∈ world.live ++ materialsOf (batch.records walLane.nextBatchSeq),
            record ∈ world.live ∨ record ∈ recordsOf
              (first + UInt64.ofNat (allBatches whole).length) (batchesOf [written]) := by
          intro record hmem
          rw [hrecords]
          exact (List.mem_append.mp hmem).imp_right List.mem_of_mem_filter
        rw [hok]
        subst hbatch
        obtain ⟨hascending, hacknowledged⟩ := acknowledged_next h.ascending h.acknowledged hnumber
        rw [List.append_assoc] at hacknowledged
        have hheld := h.materials_append (written.batch.records walLane.nextBatchSeq)
          fun record hmem ↦ .of_new h.front (hrecords.symm ▸ hmem)
        refine sound ⟨h.base_pos, h.first_eq, hsettled.symm, hascending, hacknowledged,
          h.floor.append [written], h.front.trans (List.prefix_append _ _), h.promised,
          fun record hmem ↦ (hheld record hmem).1, fun record hmem ↦ (hheld record hmem).2,
          hfounded, (fun hdown ↦ by cases hdown), ?_⟩
        · intro lane hlast
          cases hlast
          exact ⟨whole', hall, hafter, htidy, hfront', hbehind'.imp_right Or.inl,
            hsteady.phase.grow hactive hextends hall hsame rfl rfl hlive⟩
      · have hlive : ∀ record ∈ world.live, record ∈ world.live ∨ record ∈ recordsOf
            (first + UInt64.ofNat (allBatches whole).length)
            (batchesOf ([] : List (WrittenBatch crc32c))) := fun _ hmem ↦ Or.inl hmem
        have hnone : allBatches whole' = allBatches whole ++ [] := by
          rw [hall, List.append_nil]
        cases houtcome : (walLane.append crc32c .clean batch world.files).outcome with
        | ok number => exact absurd houtcome (hfails number)
        | err error =>
          refine sound { h with
            founded := hfounded, down := (fun hdown ↦ by cases hdown), steady := ?_ }
          intro lane hlast
          cases hlast
          exact ⟨whole', hall, hafter, htidy, hfront', hbehind'.imp_right Or.inl,
            hsteady.phase.grow hactive hextends hnone hsame rfl rfl hlive⟩
        | panic =>
          refine (h.die (mem_of_append _ _) ?_).sound
          rw [← hall]
          exact hafter.crashed hfront' (hbehind'.imp_right Or.inl) _

/-- A crash keeps all that was synced, whatever it interrupts. -/
theorem crash {pending : Option Interrupted} {keep : UInt64 → Nat}
    (hheedful : world.Heedful crc32c (.crash pending keep)) :
    (world.crash crc32c pending keep).Keeps place base first gone dropped batches := by
  unfold ReclaimWorld.crash
  cases hlane : world.lane with
  | none => exact h.die id ((h.down hlane).2.crashed keep)
  | some walLane =>
    obtain ⟨whole, rfl, hsteady⟩ := h.steady walLane hlane
    have hguard := hheedful walLane hlane
    have hcrashed := hsteady.running.crashed hsteady.front hsteady.behind keep
    cases pending with
    | none => exact h.die id hcrashed
    | some interrupted =>
      cases interrupted with
      | append batch script =>
        refine h.die (mem_of_append _ _) ?_
        obtain ⟨hplaced, hreadable⟩ := hguard
        have hunspoiled := hsteady.tidy.unspoiled hplaced script
        rcases hsteady.running.append h.base_pos (Or.inr ⟨hunspoiled, hreadable⟩) with
          hfailed | ⟨hroom, -, hactive, happended⟩
        · rw [hfailed]
          exact hcrashed
        · exact happended.crashed _ trivial hsteady.running hroom hsteady.front
            (behind_of_active hactive hsteady.behind) keep
      | sealing script =>
        refine h.die (mem_of_sealActiveSegment _) ?_
        obtain ⟨hroom, stub, hready, -⟩ := hsteady.running.stands hsteady.tidy h.base_pos
        rcases hready.sealActiveSegment h.base_pos hguard script with
          hsame | ⟨hactive, hrotate, hprepared⟩
        · rw [hsame]
          exact hcrashed
        · obtain ⟨whole', stub', hbatches, hextends, hready', -⟩ := hprepared.ready
          obtain ⟨hfront, hbehind⟩ :=
            hextends.keeps hsteady.front (behind_of_active hactive hsteady.behind)
          rw [hrotate]
          refine hready'.crashed (hprepared.lane.trans hsteady.running.lane)
            (hprepared.identity.trans hsteady.running.identity)
            (hprepared.targetBytes.trans hsteady.running.targetBytes) hfront keep
            (hbehind.imp_right Or.inl) (hbatches.trans (List.append_nil _).symm) .nil ?_
          rw [List.append_nil]
          exact hroom

theorem supersede (records : List RecoveredRecord) :
    ({ world with live := world.live.filter (· ∉ records) } : ReclaimWorld).Keeps place base
      first gone dropped batches := by
  have hlive : ∀ record ∈ world.live.filter (· ∉ records) ++ world.named,
      record ∈ world.live ++ world.named := fun record hmem ↦
    List.mem_append.mpr ((List.mem_append.mp hmem).imp_left List.mem_of_mem_filter)
  refine { h with
    materials := fun record hmem ↦ h.materials record (hlive record hmem)
    held := fun record hmem ↦ h.held record (hlive record hmem)
    steady := fun walLane hlane ↦ ?_ }
  obtain ⟨whole, hbatches, hsteady⟩ := h.steady walLane hlane
  exact ⟨whole, hbatches, { hsteady with
    phase := hsteady.phase.supersede fun _ hmem ↦ List.mem_of_mem_filter hmem }⟩

/-! ### Steps of the checkpoint thread -/

variable {walLane : LocalWalLane}

/-- Only the phase changes. -/
theorem setPhase {old : ReclaimPhase} (hlane : world.lane = some walLane)
    (hold : world.phase = old) (hphase : ∀ whole stub, allBatches whole = batches →
      world.Steady place base first dropped whole walLane →
      first.toNat + (allBatches whole).length < 2 ^ 64 →
      Ready base first walLane world.files [] whole stub →
      Stands base first walLane whole stub →
      world.InPhase place base first dropped whole walLane old →
      world.InPhase place base first dropped whole walLane phase) :
    ({ world with phase } : ReclaimWorld).Keeps place base first gone dropped batches := by
  refine { h with down := fun hdown ↦ ?_, steady := fun lane hmem ↦ ?_ }
  · simp [hlane] at hdown
  · obtain ⟨whole, hbatches, hsteady⟩ := h.steady lane hmem
    cases hlane.symm.trans hmem
    obtain ⟨hroom, stub, hready, hstands⟩ := hsteady.running.stands hsteady.tidy h.base_pos
    have hafter := hphase whole stub hbatches hsteady hroom hready hstands (hold ▸ hsteady.phase)
    refine ⟨whole, hbatches, { hsteady with phase := ?_ }⟩
    cases phase <;> exact hafter

theorem install (hlane : world.lane = some walLane) {captured : List RecoveredRecord}
    (hphase : world.phase = .captured captured) (records : List RecoveredRecord) :
    (world.reclaim crc32c walLane (.install records) (.captured captured)).Keeps place base
      first gone dropped batches := by
  dsimp only [ReclaimWorld.reclaim]
  have hnames : ∀ record ∈ world.live ++ records.filter (· ∈ captured),
      record.fabricId.isSome ∧ Kept first dropped batches record := by
    intro record hmem
    rcases List.mem_append.mp hmem with hlive | hnamed
    · have hlive := List.mem_append_left world.named hlive
      exact ⟨h.materials record hlive, h.held record hlive⟩
    · obtain ⟨whole, rfl, hsteady⟩ := h.steady walLane hlane
      have hkept := hsteady.phase
      rw [hphase] at hkept
      exact hkept record (of_decide_eq_true (List.mem_filter.mp hnamed).2)
  refine { h with
    materials := fun record hmem ↦ (hnames record hmem).1
    held := fun record hmem ↦ (hnames record hmem).2
    down := fun hdown ↦ ?_
    steady := fun lane hmem ↦ ?_ }
  · simp [hlane] at hdown
  · obtain ⟨whole, hbatches, hsteady⟩ := h.steady lane hmem
    exact ⟨whole, hbatches, { hsteady with phase := trivial }⟩

variable {floors : Promises}

/-- Sealing keeps the invariant and promises the cuts that were read. -/
theorem sealActive (hlane : world.lane = some walLane)
    (hmax : walLane.segmentSeq.toNat + 1 < 2 ^ 64) :
    (world.reclaim crc32c walLane (.sealActive floors) .idle).Keeps place base first gone
      dropped batches := by
  obtain ⟨whole, rfl, hsteady⟩ := h.steady walLane hlane
  have hpromised : ∀ record ∈ recordsOf 1 (batchesOf (gone ++ allBatches dropped)),
      record.Promised fun tablet ↦ Option.merge max (world.promised tablet) floors[tablet]? :=
    fun record hmem ↦ promised_merge (h.promised record hmem) floors
  have hwithin : floors.Within fun tablet ↦
      Option.merge max (world.promised tablet) floors[tablet]? := by
    intro tablet cut hcut
    rw [Option.mem_def] at hcut
    dsimp only
    rw [hcut]
    cases world.promised tablet with
    | none => exact ⟨cut, rfl, UInt64.le_refl _⟩
    | some other => exact ⟨max other cut, rfl, (max_le_iff.mp (UInt64.le_refl _)).2⟩
  simp only [reclaim]
  refine { h with
    promised := hpromised
    founded := h.founded.imp_right (mem_of_sealActiveSegment _)
    down := fun hdown ↦ nomatch hdown
    steady := fun lane hsome ↦ ?_ }
  cases hsome
  rcases hsteady.running.sealActiveSegment hsteady.tidy h.base_pos hmax with
    hsame | ⟨hactive, hok, whole', hextends, hbatches, hafter, htidy⟩
  · refine ⟨whole, rfl, ?_⟩
    rw [hsame]
    exact ⟨hsteady.running, hsteady.tidy, hsteady.front, hsteady.behind, hwithin⟩
  · obtain ⟨hfront, hbehind⟩ := hextends.keeps hsteady.front
      (behind_of_active hactive hsteady.behind)
    refine ⟨whole', hbatches, hafter, htidy, hfront, hbehind.imp_right Or.inl, ?_⟩
    dsimp only
    rw [hok]
    exact hwithin

theorem ask (hlane : world.lane = some walLane) (hphase : world.phase = .sealed floors) :
    (world.reclaim crc32c walLane .ask (.sealed floors)).Keeps place base first gone dropped
      batches := by
  refine h.setPhase hlane hphase fun _ _ _ _ hroom hready hstands hwithin ↦ ?_
  exact ⟨hwithin, hready.snapshotted hstands hroom h.founded⟩

variable {snapshot : LaneFloorSnapshot}

/-- The first file that stays is the first one ever, or it is there. -/
theorem still_founded {front rest : List (Segment crc32c)} {stub : List (UInt64 × SegmentFile)}
    {files : LaneDirectory} (hready : Ready base first walLane world.files [] (front ++ rest)
      stub) (hready' : Ready (base + UInt64.ofNat front.length)
      (first + UInt64.ofNat (allBatches front).length) walLane files [] rest stub)
    (hanchored : front = [] ∨ rest ≠ [] ∨ stub ≠ []) :
    base + UInt64.ofNat front.length = 1 ∧ first + UInt64.ofNat (allBatches front).length = 1 ∨
      base + UInt64.ofNat front.length ∈ files := by
  by_cases hthere : rest ≠ [] ∨ stub ≠ []
  · exact Or.inr (hready'.disk.base_mem hthere)
  · obtain rfl := hanchored.resolve_right hthere
    rw [not_or, not_not, not_not] at hthere
    obtain ⟨rfl, rfl⟩ := hthere
    have hempty : world.files.toList = [] := hready.disk.toList
    rw [allBatches_nil, add_length_nil, add_length_nil]
    refine Or.inl (h.founded.resolve_right fun hmem ↦ ?_)
    rw [Std.ExtTreeMap.toList_eq_nil_iff.mp hempty] at hmem
    exact Std.ExtTreeMap.not_mem_empty hmem

section

variable (hlane : world.lane = some walLane)
include hlane

theorem list (hphase : world.phase = .asked floors snapshot)
    (hsame : walLane.segmentSeq = snapshot.activeSegment) :
    (world.reclaim crc32c walLane .list (.asked floors snapshot)).Keeps place base first gone
      dropped batches := by
  refine h.setPhase hlane hphase fun _ _ _ hsteady _ hready hstands hasked ↦ ?_
  obtain ⟨hwithin, sealed, hsealed⟩ := hasked
  refine ⟨hwithin, sealed, hsealed, ?_⟩
  rw [hsealed.listed hready hstands hsame, hsteady.running.lane]

theorem scan {segments : List UInt64} (hphase : world.phase = .listed floors snapshot segments) :
    (world.reclaim crc32c walLane .scan (.listed floors snapshot segments)).Keeps place base
      first gone dropped batches := by
  refine h.setPhase hlane hphase fun _ _ _ hsteady _ hready _ hlisted ↦ ?_
  obtain ⟨hwithin, sealed, hsealed, hsegments⟩ := hlisted
  have hscan : walLane.scanAllSealed crc32c world.files segments =
      .ok (Segment.summaries base first sealed) := by
    rw [hsegments, ← hsteady.running.lane]
    obtain ⟨rest, hwhole⟩ := hsealed.front
    have htoList := hready.disk.toList
    rw [← hwhole, files_append, List.append_assoc, List.nil_append] at htoList
    refine scanAllSealed_whole (fun held hmem ↦ hready.disk.writers held ?_) fun entry hmem ↦ ?_
    · rw [← hwhole]
      exact List.mem_append_left _ hmem
    · have hthere : entry ∈ world.files.toList := by
        rw [htoList]
        exact List.mem_append_left _ hmem
      exact ⟨Std.ExtTreeMap.mem_toList_iff_getElem?_eq_some.mp hthere,
        (hready.disk.sizes entry hthere).trans (sizeBound_le_readCap _)⟩
  rw [hscan]
  exact ⟨hwithin, sealed, hsealed, rfl⟩

theorem report {summaries : List SealedSegmentSummary}
    (hphase : world.phase = .scanned floors snapshot summaries) (answered : Bool) :
    (world.reclaim crc32c walLane (.report answered) (.scanned floors snapshot summaries)).Keeps
       place base first gone dropped batches := by
  refine h.setPhase hlane hphase fun _ _ _ _ _ _ _ hscanned ↦ ?_
  obtain ⟨hwithin, sealed, hsealed, hsummaries⟩ := hscanned
  refine ⟨hwithin, sealed, hsealed, hsummaries, fun ids hids record hmem ↦ Or.inl ?_⟩
  cases answered with
  | false => cases hids
  | true =>
    cases hids
    obtain ⟨id, hid⟩ := Option.isSome_iff_exists.mp
      (h.materials record (List.mem_append_left _ hmem))
    exact ⟨id, hid, List.mem_filterMap.mpr ⟨record, hmem, hid⟩⟩

/-- A plan from a readable band condemns only segments that recovery can do without. -/
theorem plan {summaries : List SealedSegmentSummary} {live : Option (List UInt64)} {readable : Bool}
    (hphase : world.phase = .reported floors snapshot summaries live)
    (hguard : readable = true ∨ live = none) :
    (world.reclaim crc32c walLane (.plan readable)
      (.reported floors snapshot summaries live)).Keeps place base first gone dropped
        batches := by
  refine h.setPhase hlane hphase fun whole stub hbatches hsteady hroom hready hstands hreported ↦ ?_
  obtain ⟨hwithin, sealed, hsealed, rfl, hreport⟩ := hreported
  obtain ⟨next, hnext, hobsolete, hfloor, hcovered⟩ :=
    @Snapshotted.plan crc32c place base first walLane world.files whole sealed stub snapshot floors
      (live.map (· ++ if readable then fabricIdsOf world.named else [])) hsealed hready hstands
      hsteady.running.lane h.base_pos h.first_pos hroom
  have hfront := hnext.trans hsealed.front
  -- a value whose id was reported is not covered
  have hpinned {record : RecoveredRecord} (hdropped : record ∈ Segment.records first next)
      (hmaterial : record.fabricId.isSome)
      (hids : ∀ ids ∈ live, ∃ id ∈ record.fabricId,
        id ∈ ids ++ if readable then fabricIdsOf world.named else []) : False := by
    obtain ⟨id, hid⟩ := Option.isSome_iff_exists.mp hmaterial
    obtain ⟨ids, hmap, hdead⟩ := (hcovered record hdropped).dead id hid
    obtain ⟨reported, hreported, rfl⟩ := Option.map_eq_some_iff.mp hmap
    obtain ⟨other, hother, hmem⟩ := hids reported hreported
    rw [Option.mem_def, hid] at hother
    cases hother
    exact hdead hmem
  refine ⟨next, hfront, ?_, hfloor, hobsolete, fun record hmem position hposition ↦ ?_,
    fun record hmem ↦ ?_⟩
  · rcases hsealed.behind with rfl | hless | hstub
    · exact Or.inl (List.prefix_nil.mp hnext)
    · exact Or.inr (Or.inl (hnext.length_le.trans_lt hless))
    · exact Or.inr (Or.inr hstub)
  · obtain ⟨cut, hcut, hle⟩ := (hcovered record hmem).promised position hposition
    obtain ⟨higher, hhigher, hmore⟩ := hwithin position.1 cut hcut
    exact ⟨higher, hhigher, UInt64.le_trans hle hmore⟩
  · have hmaterial := h.materials record hmem
    have hheld := h.held record hmem
    rw [← hbatches] at hheld
    rcases hheld.dropped_or (allBatches_mono hfront) with hdropped | hkept
    · rcases List.mem_append.mp hmem with hlive | hnamed
      · by_cases hids : ∀ ids ∈ live, ∃ id ∈ record.fabricId, id ∈ ids
        · refine (hpinned hdropped hmaterial fun ids hmem ↦ ?_).elim
          obtain ⟨id, hid, hreported⟩ := hids ids hmem
          exact ⟨id, hid, List.mem_append_left _ hreported⟩
        · push Not at hids
          obtain ⟨ids, hmem, hnone⟩ := hids
          refine ((hreport ids hmem record hlive).resolve_left ?_).weaken hnext
          rintro ⟨id, hid, hreported⟩
          exact hnone id hid hreported
      · refine (hpinned hdropped hmaterial fun ids hmem ↦ ?_).elim
        obtain ⟨id, hid⟩ := Option.isSome_iff_exists.mp hmaterial
        have hread : readable = true := hguard.resolve_right fun hnone ↦ by
          rw [hnone] at hmem
          cases hmem
        refine ⟨id, hid, List.mem_append_right _ ?_⟩
        rw [if_pos hread]
        exact List.mem_filterMap.mpr ⟨record, hnamed, hid⟩
    · exact hkept

theorem publish {plan : LaneReclaim} (hphase : world.phase = .planned plan) :
    (world.reclaim crc32c walLane .publish (.planned plan)).Sound crc32c place := by
  dsimp only [ReclaimWorld.reclaim]
  obtain ⟨whole, rfl, hsteady⟩ := h.steady walLane hlane
  have hplanned := hsteady.phase
  rw [hphase] at hplanned
  obtain ⟨next, hnext, hbehind, hfloor, hobsolete, hcovered, hheld⟩ := hplanned
  refine sound { h with
    floor := hfloor
    front := allBatches_mono hnext
    promised := ?_
    held := hheld
    down := fun hdown ↦ ?_
    steady := fun lane hsome ↦ ?_ }
  · have hgone := h.promised
    rw [batchesOf_append, recordsOf_append, List.forall_mem_append] at hgone ⊢
    refine ⟨hgone.1, ?_⟩
    rw [length_batchesOf, ← h.first_eq_add]
    exact hcovered
  · simp [hlane] at hdown
  · cases hlane.symm.trans hsome
    exact ⟨whole, rfl, hsteady.running, hsteady.tidy, hnext, hbehind, hobsolete⟩

/-- However many deletions are made, what stays is a lane that starts at the new floor. -/
theorem delete {obsolete : List UInt64} (hphase : world.phase = .published obsolete)
    (possible : Nat) :
    (world.reclaim crc32c walLane (.delete possible) (.published obsolete)).Sound crc32c place := by
  dsimp only [ReclaimWorld.reclaim]
  obtain ⟨whole, hbatches, hsteady⟩ := h.steady walLane hlane
  obtain ⟨hroom, stub, hready, hstands⟩ := hsteady.running.stands hsteady.tidy h.base_pos
  have hpublished := hsteady.phase
  rw [hphase] at hpublished
  obtain ⟨kept, rfl⟩ := hsteady.front
  have hanchored := hstands.anchors_iff.mp hsteady.behind
  obtain ⟨front, left, rfl, hready', hstands'⟩ :=
    hready.deleteSegments hstands hanchored possible
  have hobsolete : obsolete =
      (Segment.files walLane.lane base first (front ++ left)).map Prod.fst := by
    rw [hsteady.running.lane]
    exact hpublished
  rw [← hobsolete] at hready'
  rw [List.append_assoc] at hready hbatches hroom
  rw [allBatches_append] at hbatches hroom
  subst hbatches
  rw [List.length_append] at hroom
  have hfits : first.toNat + (allBatches front).length < 2 ^ 64 := by omega
  have hfront : front = [] ∨ left ++ kept ≠ [] ∨ stub ≠ [] :=
    hanchored.imp (fun hnil ↦ (List.append_eq_nil_iff.mp hnil).1)
      (Or.imp_left (List.append_ne_nil_of_right_ne_nil left))
  refine ⟨base + UInt64.ofNat front.length,
    first + UInt64.ofNat (allBatches front).length, gone ++ allBatches front, left,
    allBatches (left ++ kept), UInt64.le_trans h.base_pos (hready.disk.base_le hfront), ?_, ?_,
    h.ascending, ?_, h.floor.shift hfits, ?_, ?_, h.materials,
    fun record hmem ↦ (h.held record hmem).shift, h.still_founded hready hready' hfront,
    fun hdown ↦ ?_, fun lane hsome ↦ ?_⟩
  · rw [toNat_add_ofNat hfits, h.first_eq, List.length_append, Nat.add_assoc]
  · rw [List.append_assoc]
    exact h.settled
  · rw [List.append_assoc]
    exact h.acknowledged
  · rw [allBatches_append]
    exact List.prefix_append _ _
  · rw [List.append_assoc, ← allBatches_append]
    exact h.promised
  · simp [hlane] at hdown
  · cases hlane.symm.trans hsome
    refine ⟨left ++ kept, rfl, ⟨hsteady.running.lane, hsteady.running.identity,
      hsteady.running.targetBytes, hsteady.running.failed, Or.inl ⟨?_, stub, hready'⟩⟩,
      hready'.tidy ?_, List.prefix_append _ _, hstands'.anchors_iff.mpr ?_, trivial⟩
    · rw [toNat_add_ofNat hfits]
      omega
    · cases hstands' with
      | last => exact Or.inl rfl
      | behind hseq => exact Or.inr hseq
    · exact hanchored.imp_left fun hnil ↦ (List.append_eq_nil_iff.mp hnil).2

end

/-- A step of the checkpoint thread that does not follow the one before it changes nothing. -/
theorem reclaim {event : ReclaimEvent} (hheedful : world.Heedful crc32c event)
    (hlane : world.lane = some walLane) :
    (world.reclaim crc32c walLane event world.phase).Sound crc32c place := by
  have hguard := hheedful walLane hlane
  cases hphase : world.phase <;> rw [hphase] at hguard <;> cases event
  case idle.capture =>
    refine sound (h.setPhase hlane hphase fun _ _ hbatches _ _ _ _ _ record hmem ↦ ?_)
    rw [hbatches]
    exact ⟨h.materials record hmem, h.held record hmem⟩
  case captured.install => exact sound (h.install hlane hphase _)
  case idle.sealActive => exact sound (h.sealActive hlane hguard)
  case sealed.ask => exact sound (h.ask hlane hphase)
  case asked.list => exact sound (h.list hlane hphase hguard)
  case listed.scan => exact sound (h.scan hlane hphase)
  case scanned.report => exact sound (h.report hlane hphase _)
  case reported.plan => exact sound (h.plan hlane hphase hguard)
  case planned.publish => exact h.publish hlane hphase
  case published.delete => exact h.delete hlane hphase _
  all_goals first
    | exact h.sound
    | exact sound (h.setPhase hlane hphase fun _ _ _ _ _ _ _ _ ↦ trivial)

theorem step {event : ReclaimEvent} (hheedful : world.Heedful crc32c event) :
    (world.step crc32c place event).Sound crc32c place := by
  cases event with
  | start => exact h.start
  | append batch => exact h.append hheedful
  | crash pending keep => exact (h.crash hheedful).sound
  | supersede records => exact (h.supersede records).sound
  | _ =>
    dsimp only [ReclaimWorld.step]
    split
    · exact h.sound
    · exact h.reclaim hheedful ‹_›

/-- A world that is down recovers what it owes. -/
theorem recovers (hdown : world.lane = none) (hroom : world.incarnation.toNat + 1 < 2 ^ 64) :
    world.Recovers crc32c place := by
  obtain ⟨extra, rest, whole, recovery, walLane, files, hextra, hok, hrest, hrecords, -, hbatches,
    hrunning, htidy, -⟩ :=
    (h.down hdown).2.recovers h.floor h.base_pos h.first_pos hroom fun _ ↦ True
  obtain ⟨hfits, stub, hready, -⟩ := hrunning.stands htidy h.base_pos
  rw [hbatches] at hfits
  obtain ⟨kept, hkept⟩ := h.front
  have hrest' : rest = kept ++ extra := by
    rw [← hkept, List.append_assoc] at hrest
    exact List.append_cancel_left hrest
  have hall : batchesOf (gone ++ allBatches dropped) ++ batchesOf kept =
      batchesOf (gone ++ batches) := by
    rw [← batchesOf_append, List.append_assoc, hkept]
  refine ⟨recovery, walLane, files, hok, batchesOf (gone ++ allBatches dropped),
    batchesOf kept, batchesOf extra, ?_, ?_, ?_, h.promised, ?_, h.ascending, ?_, ?_⟩
  · rw [hall]
    exact h.settled
  · rw [hrecords, hrest', batchesOf_append, h.firstBatch_eq]
  · rw [length_batchesOf]
    exact hextra.1
  · intro record hmem
    obtain ⟨others, hothers, hrecord⟩ := h.held record hmem
    rw [← hkept] at hothers
    rw [List.append_cancel_left hothers, ← h.floor.firstBatch] at hrecord
    rw [hrecords, hrest', batchesOf_append, recordsOf_append]
    exact List.mem_append_left _ hrecord
  · intro entry hmem
    rw [hall]
    obtain ⟨hpos, -, hget⟩ := h.acknowledged entry hmem
    exact ⟨hpos, hget⟩
  · rw [hready.next, hbatches, toNat_add_ofNat hfits, h.first_eq, hall, ← batchesOf_append,
      length_batchesOf]
    simp only [List.length_append]
    omega

end Keeps

end ReclaimWorld

end LaneSteps

/-! ### Runs -/

section Runs

variable (crc32c) (place : LanePlace)

/-- In a run whose steps are all heedful, every recovery from the published floor returns all
records that are not promised and all bulk values that are live or named. -/
theorem recovery_of_reclaims (events : List ReclaimEvent)
    (hheedful : Along (ReclaimWorld.step crc32c place) (ReclaimWorld.Heedful crc32c)
      (.initial place) events)
    (hdown : (run (ReclaimWorld.step crc32c place) (.initial place) events).lane = none)
    (hroom : (run (ReclaimWorld.step crc32c place) (.initial place) events).incarnation.toNat + 1 <
      2 ^ 64) :
    (run (ReclaimWorld.step crc32c place) (.initial place) events).Recovers crc32c place := by
  have hinvariant : (run (ReclaimWorld.step crc32c place) (.initial place) events).Sound crc32c
      place := by
    refine run_invariant_along (fun world event hguard hsound ↦ ?_)
      (ReclaimWorld.keeps_initial crc32c place).sound hheedful
    obtain ⟨base, first, gone, dropped, batches, h⟩ := hsound
    exact h.step hguard
  obtain ⟨base, first, gone, dropped, batches, h⟩ := hinvariant
  exact h.recovers hdown hroom

end Runs

/-- Every batch goes to a file of its own. -/
def laneTiny : LanePlace := ⟨0, 1, 0, 100⟩

/-- What the first batch of the runs holds. -/
def firstRecord : RecoveredRecord := ⟨1, .tablet (.material ⟨1, 7, 1, 1, 0, []⟩)⟩

theorem not_promised_firstRecord {cuts : TabletId → Option UInt64} (hnone : cuts 1 = none) :
    ¬firstRecord.Promised cuts := by
  intro hpromised
  obtain ⟨cut, hcut, -⟩ := hpromised (1, 1) rfl
  exact absurd (hnone.symm.trans hcut) (fun hsome ↦ nomatch hsome)

/-- The lane moves on between the question and the listing. -/
def movedOn : List ReclaimEvent :=
  [.start, .sealActive ∅, .append oneRecord, .ask, .append oneRecord, .list, .scan, .report true,
    .plan true, .publish, .crash none fun _ ↦ 0]

/-- A value is superseded, and the checkpoint that names it cannot be read. -/
def unreadableBand : List ReclaimEvent :=
  [.start, .append oneRecord, .capture, .install [firstRecord],
    .supersede [firstRecord], .sealActive ((∅ : Promises).insert 1 5), .ask, .list, .scan,
    .report true, .plan false, .publish, .delete 2, .crash none fun _ ↦ 0]

/-- Between the two steps the segment with the first batch was sealed, and the floor is behind it.
And a value that only an unreadable checkpoint names is gone. -/
theorem acknowledged_lost_after_reclaim :
    ((run (ReclaimWorld.step Crc.crc32c laneTiny) (.initial laneTiny) movedOn).acknowledged =
        [(1, oneRecord), (2, oneRecord)] ∧
      (run (ReclaimWorld.step Crc.crc32c laneTiny) (.initial laneTiny) movedOn).lane = none ∧
      ¬(run (ReclaimWorld.step Crc.crc32c laneTiny) (.initial laneTiny) movedOn).Recovers Crc.crc32c
        laneTiny) ∧
    (run (ReclaimWorld.step Crc.crc32c laneTiny) (.initial laneTiny) unreadableBand).named =
        [firstRecord] ∧
      (run (ReclaimWorld.step Crc.crc32c laneTiny) (.initial laneTiny) unreadableBand).lane = none ∧
      ¬(run (ReclaimWorld.step Crc.crc32c laneTiny) (.initial laneTiny) unreadableBand).Recovers
        Crc.crc32c laneTiny := by
  refine ⟨⟨by decide +kernel, by decide +kernel, fun h ↦ ?_⟩, by decide +kernel, by decide +kernel,
    fun h ↦ ?_⟩
  · obtain ⟨recovery, lane, files, hok, dropped, kept, extra, hkept, hrecords, -, hpromised, -⟩ := h
    have hmissing : ((run (ReclaimWorld.step Crc.crc32c laneTiny) (.initial laneTiny)
        movedOn).recover Crc.crc32c laneTiny).toOption.all fun recovered ↦
          decide (firstRecord ∉ recovered.1.records) := by
      decide +kernel
    rw [hok] at hmissing
    have hsettled : firstRecord ∈ (run (ReclaimWorld.step Crc.crc32c laneTiny) (.initial laneTiny)
        movedOn).settled := by decide +kernel
    rw [hkept, recordsOf_append, List.mem_append] at hsettled
    refine of_decide_eq_true hmissing ?_
    rw [hrecords, recordsOf_append]
    refine List.mem_append_left _ (hsettled.resolve_left fun hdropped ↦ ?_)
    exact not_promised_firstRecord (by decide +kernel) (hpromised _ hdropped)
  · obtain ⟨recovery, lane, files, hok, -, -, -, -, -, -, -, hheld, -⟩ := h
    have hmissing : ((run (ReclaimWorld.step Crc.crc32c laneTiny) (.initial laneTiny)
        unreadableBand).recover Crc.crc32c laneTiny).toOption.all fun recovered ↦
          decide (firstRecord ∉ recovered.1.records) := by
      decide +kernel
    rw [hok] at hmissing
    have hnamed : firstRecord ∈ (run (ReclaimWorld.step Crc.crc32c laneTiny) (.initial laneTiny)
        unreadableBand).live ++ (run (ReclaimWorld.step Crc.crc32c laneTiny) (.initial laneTiny)
        unreadableBand).named := by decide +kernel
    exact of_decide_eq_true hmissing (hheld _ hnamed)

/-- A reclamation beside an append, with its last deletion undone by a crash inside a seal. -/
def reclaimed : List ReclaimEvent :=
  [.start, .append oneRecord, .append oneRecord, .capture, .install [firstRecord],
    .supersede [firstRecord], .sealActive ((∅ : Promises).insert 1 5), .ask, .list,
    .append oneRecord, .scan, .report true, .plan true, .publish, .delete 1,
    .crash (some (.sealing ⟨false, some 10⟩)) fun _ ↦ 10]

/-- A test for steps that are heeded. -/
def heeds (lane : LocalWalLane) : ReclaimEvent → ReclaimPhase → Bool
  | .append batch, _ => decide (batch = oneRecord)
  | .crash (some (.append _ _)) _, _ => false
  | .list, .asked _ snapshot => decide (lane.segmentSeq = snapshot.activeSegment)
  | .plan readable, _ => readable
  | _, _ => true

/-- Each step is heeded, and the record that is still named survives the deletion. -/
theorem recovery_of_reclaimed :
    Along (ReclaimWorld.step Crc.crc32c laneTiny) (ReclaimWorld.Heedful Crc.crc32c)
        (.initial laneTiny) reclaimed ∧
      (run (ReclaimWorld.step Crc.crc32c laneTiny) (.initial laneTiny) reclaimed).Recovers
        Crc.crc32c laneTiny := by
  have hchecked : Along (ReclaimWorld.step Crc.crc32c laneTiny) (fun world event ↦
      ∀ lane ∈ world.lane, lane.Placed world.files ∧ heeds lane event world.phase = true)
      (.initial laneTiny) reclaimed := by decide +kernel
  have hheedful : Along (ReclaimWorld.step Crc.crc32c laneTiny) (ReclaimWorld.Heedful Crc.crc32c)
      (.initial laneTiny) reclaimed := by
    refine hchecked.mono fun world event h lane hlane ↦ ?_
    obtain ⟨hplaced, hmatch⟩ := h lane hlane
    cases event with
    | append batch => exact ⟨hplaced, of_decide_eq_true hmatch ▸ readable_oneRecord⟩
    | crash pending keep =>
      rcases pending with _ | ⟨_ | _⟩
      · trivial
      · cases hmatch
      · exact hplaced.segments
    | sealActive floors => exact hplaced.segments
    | list =>
      cases hphase : world.phase with
      | asked floors snapshot =>
        rw [hphase] at hmatch
        exact of_decide_eq_true hmatch
      | _ => trivial
    | plan readable =>
      cases hphase : world.phase with
      | reported floors snapshot summaries live => exact Or.inl hmatch
      | _ => trivial
    | _ => trivial
  exact ⟨hheedful, recovery_of_reclaims _ _ reclaimed hheedful (by decide +kernel)
    (by decide +kernel)⟩

end Kivi.Durability
