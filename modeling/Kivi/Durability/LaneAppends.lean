import Kivi.Durability.LaneFiles

/-!
# What an append leaves on disk

`Ready.append` says what an append makes of a lane that is ready, whichever file operations fail:
it acknowledges the batch behind all others, it fails and the lane is still ready, or it fails and
leaves part of the batch behind the others. What a failed rotation leaves is a stub.
-/

namespace Kivi.Durability

open Library Library.OrderedMaps
open Segment

variable {crc32c : Checksum} {base first : UInt64} {walLane : LocalWalLane}
  {files : LaneDirectory} {below stub : List (UInt64 × SegmentFile)}
  {whole : List (Segment crc32c)}

/-! ### What every file operation of an append keeps -/

namespace LocalWalLane

/-- The file that the lane appends to. -/
def activeFile (lane : LocalWalLane) (files : LaneDirectory) : SegmentFile :=
  files[lane.segmentSeq]?.getD ⟨[], 0⟩

/-- The lane does not stand on a file without a header. -/
abbrev Headed (lane : LocalWalLane) (files : LaneDirectory) : Prop :=
  lane.isOpen = true ∨ lane.segmentSeq = 0 ∨
    segmentHeaderLen ≤ (lane.activeFile files).bytes.length

theorem rotate_ok {script : RotationScript}
    (hok : (walLane.rotate crc32c script files).outcome = .ok ()) :
    (walLane.rotate crc32c script files).lane.isOpen = true ∧
      (walLane.rotate crc32c script files).lane.segmentBytes = segmentHeaderLen := by
  unfold rotate at hok ⊢
  dsimp only at hok ⊢
  split_ifs at hok ⊢ with hrefused
  cases hheader : script.header with
  | some written =>
    rw [hheader] at hok
    cases hok
  | none => exact ⟨rfl, rfl⟩

section Invariant

variable {P : LocalWalLane → LaneDirectory → Prop} {script : IoScript} {batch : Batch}
  (hreopen : ∀ {lane : LocalWalLane} {files : LaneDirectory} {file : SegmentFile}, P lane files →
    files[lane.segmentSeq]? = some file →
      P { lane with isOpen := true, segmentBytes := file.bytes.length } files)
  (hwrite : ∀ {lane : LocalWalLane} {files : LaneDirectory} {body : Bytes},
    batch.encode = .ok body → lane.isOpen = true → P lane files →
      P (lane.writeFrame script (frame crc32c lane.lane lane.segmentSeq lane.nextBatchSeq body
          batch.entries.length) files).lane
        (lane.writeFrame script (frame crc32c lane.lane lane.segmentSeq lane.nextBatchSeq body
          batch.entries.length) files).files)

include hreopen in
theorem ensureOpen_invariant
    (hrotate : P walLane files → P (walLane.rotate crc32c script.opening files).lane
      (walLane.rotate crc32c script.opening files).files)
    (h : P walLane files) :
    P (walLane.ensureOpen crc32c script files).lane
      (walLane.ensureOpen crc32c script files).files := by
  unfold ensureOpen
  split
  · exact h
  split
  · exact hrotate h
  cases hfile : files[walLane.segmentSeq]? with
  | none => exact h
  | some file =>
    dsimp only
    split_ifs
    · exact h
    · exact hreopen h hfile

include hwrite in
/-- What every file operation keeps, an append keeps. -/
theorem appendRecords_invariant
    (hrotate : P walLane files → P (walLane.rotate crc32c script.rotation files).lane
      (walLane.rotate crc32c script.rotation files).files)
    (h : P walLane files) :
    P (walLane.appendRecords crc32c script batch files).lane
      (walLane.appendRecords crc32c script batch files).files := by
  unfold appendRecords
  split_ifs with hfailed
  · exact h
  cases hencode : batch.encode with
  | err error => exact h
  | panic => exact h
  | ok body =>
    unfold sealEncodedBody
    dsimp only
    generalize hroom : (if walLane.needsRotation (batchHeaderLen + body.length + batchFooterLen)
      then walLane.rotate crc32c script.rotation files else ⟨.ok (), walLane, files⟩) = room
    have hkept : P room.lane room.files ∧ (room.outcome = .ok () → room.lane.isOpen = true) := by
      rw [← hroom]
      split_ifs with hneeds
      · exact ⟨hrotate h, fun hok ↦ (rotate_ok hok).1⟩
      · refine ⟨h, fun _ ↦ ?_⟩
        simp only [needsRotation, Bool.or_eq_true, not_or, Bool.not_eq_true'] at hneeds
        simpa using hneeds.1
    cases houtcome : room.outcome with
    | err | panic => exact hkept.1
    | ok value =>
      dsimp only
      split_ifs
      · exact hkept.1
      · exact hkept.1
      · exact hwrite hencode (hkept.2 houtcome) hkept.1

/-- Opening leaves the lane on its segment, or starts the first one. -/
theorem segmentSeq_ensureOpen :
    (walLane.ensureOpen crc32c script files).lane.segmentSeq = walLane.segmentSeq ∨
      (walLane.ensureOpen crc32c script files).lane.segmentSeq = 1 := by
  unfold ensureOpen
  split
  · exact Or.inl rfl
  split
  next hzero =>
    unfold rotate
    dsimp only
    split_ifs with hrefused
    · exact Or.inl rfl
    · cases script.opening.header with
      | some written => exact Or.inl rfl
      | none =>
        right
        dsimp only
        rw [hzero]
        rfl
  · cases files[walLane.segmentSeq]? with
    | none => exact Or.inl rfl
    | some file =>
      dsimp only
      split_ifs <;> exact Or.inl rfl

include hreopen hwrite in
/-- What opening, rotating and writing keep, an append keeps. It rotates where it stands, or behind
the first segment. -/
theorem append_invariant
    (hopening : ∀ {files : LaneDirectory}, P walLane files →
      P (walLane.rotate crc32c script.opening files).lane
        (walLane.rotate crc32c script.opening files).files)
    (hrotate : ∀ {lane : LocalWalLane} {files : LaneDirectory},
      lane.segmentSeq = walLane.segmentSeq ∨ lane.segmentSeq = 1 → P lane files →
        P (lane.rotate crc32c script.rotation files).lane
          (lane.rotate crc32c script.rotation files).files)
    (h : P walLane files) :
    P (walLane.append crc32c script batch files).lane
      (walLane.append crc32c script batch files).files := by
  cases batch with
  | consensus records => exact appendRecords_invariant hwrite (hrotate (Or.inl rfl)) h
  | tablet records =>
    have hopened := ensureOpen_invariant hreopen hopening h
    unfold append
    dsimp only
    cases (walLane.ensureOpen crc32c script files).outcome with
    | ok value =>
      exact appendRecords_invariant hwrite (hrotate segmentSeq_ensureOpen) hopened
    | err | panic => exact hopened

end Invariant

end LocalWalLane

/-! ### What a lane that is ready goes through -/

/-- An append leaves the lane where it is, and a lane that gave up has a file open. -/
structure LocalWalLane.Continues (after before : LocalWalLane) : Prop where
  lane : after.lane = before.lane
  identity : after.identity = before.identity
  targetBytes : after.targetBytes = before.targetBytes
  failed : after.health = .failed → after.isOpen = true

/-- All files but the last keep their batches. -/
structure Segment.Extends (whole whole' : List (Segment crc32c)) : Prop where
  sealed : whole.dropLast <+: whole'
  length : whole.length ≤ whole'.length

theorem Segment.Extends.refl (whole : List (Segment crc32c)) : Segment.Extends whole whole :=
  ⟨List.dropLast_prefix whole, Nat.le_refl _⟩

theorem Segment.Extends.trans {first second third : List (Segment crc32c)}
    (h : Segment.Extends first second) (h' : Segment.Extends second third) :
    Segment.Extends first third := by
  refine ⟨List.IsPrefix.trans ?_ h'.sealed, h.length.trans h'.length⟩
  refine List.prefix_of_prefix_length_le h.sealed (List.dropLast_prefix second) ?_
  rw [List.length_dropLast, List.length_dropLast]
  exact Nat.sub_le_sub_right h.length 1

section

variable {lane : UInt16} {identity : LaneIdentity} {seq : UInt64} {offered : Batch → Prop}
  (h : Stub crc32c lane identity seq stub)

include h

theorem Stub.looseEnd (first : UInt64) :
    LooseEnd crc32c offered lane identity seq first [] stub := by
  cases h with
  | nothing => exact .nothing
  | short hshort => exact .short hshort
  | @header writer synced hwriter =>
    have hbegun := @LooseEnd.begun crc32c offered lane identity seq first ⟨writer, []⟩ [] synced
      hwriter (Or.inl rfl) fun hnil ↦ absurd rfl hnil
    rwa [Segment.bytes, framesOf, List.append_nil, List.append_nil] at hbegun

theorem Stub.key_eq : ∀ entry ∈ stub, entry.1 = seq :=
  (@looseEnd _ _ _ _ _ (fun _ ↦ False) h 0).key_eq

end

theorem LaneIdentity.Precedes.refl (identity : LaneIdentity) : identity.Precedes identity :=
  ⟨rfl, rfl, UInt64.le_refl _⟩

/-- However much of a header is there, the file is a stub. -/
theorem Stub.of_take {writer identity : LaneIdentity} (hwriter : writer.Precedes identity)
    (lane : UInt16) (seq : UInt64) (kept synced : Nat) :
    Stub crc32c lane identity seq
      [(seq, ⟨(segmentHeader crc32c lane writer seq).take kept, synced⟩)] := by
  by_cases hall : segmentHeaderLen ≤ kept
  · rw [List.take_of_length_le (by rw [length_segmentHeader]; exact hall)]
    exact .header hwriter
  · refine .short ?_
    rw [List.length_take, length_segmentHeader]
    omega

/-- The decoder reads back the records of the batch, if the encoder accepts it. -/
def Batch.Readable (crc32c : Checksum) (batch : Batch) : Prop :=
  ∀ body, batch.encode = .ok body → ∀ entry ∈ batch.entries, entry.Minted crc32c

/-- The state of a lane before a batch is written. -/
structure Prepared {crc32c : Checksum} (base first : UInt64) (before : LocalWalLane)
    (below : List (UInt64 × SegmentFile)) (whole : List (Segment crc32c))
    (stub : List (UInt64 × SegmentFile)) (step : LaneStep Unit) : Prop where
  lane : step.lane.lane = before.lane
  identity : step.lane.identity = before.identity
  targetBytes : step.lane.targetBytes = before.targetBytes
  health : step.lane.health = before.health
  ready : ∃ whole' stub', allBatches whole' = allBatches whole ∧
    Segment.Extends whole whole' ∧
    Ready base first step.lane step.files below whole' stub' ∧
    (step.outcome = .ok () → step.lane.isOpen = true ∧ (stub = [] → stub' = []))

/-- Part of a batch that was offered lies behind the others in the active file, which is longer than
the lane thinks. -/
structure Spoiled {crc32c : Checksum} (offered : Batch → Prop) (base first : UInt64)
    (walLane : LocalWalLane) (files : LaneDirectory) (below : List (UInt64 × SegmentFile))
    (whole : List (Segment crc32c)) : Prop where
  disk : ∃ front held loose, whole = front ++ [held] ∧ loose ≠ [] ∧
    OnDisk offered walLane.lane walLane.identity walLane.targetBytes base first files below
      front held.batches loose
  isOpen : walLane.isOpen = true
  leftOver : ∃ file, files[walLane.segmentSeq]? = some file ∧
    walLane.segmentBytes ≠ file.bytes.length

/-- What an append can do to a lane that is ready. -/
inductive Appended {crc32c : Checksum} (base first : UInt64)
    (below : List (UInt64 × SegmentFile)) (batch : Batch) (before : LocalWalLane)
    (whole : List (Segment crc32c)) : LaneStep UInt64 → Prop where
  | acknowledged {written : WrittenBatch crc32c} {whole' : List (Segment crc32c)}
    {stub : List (UInt64 × SegmentFile)} {after : LocalWalLane} {files : LaneDirectory}
    (hbatch : written.batch = batch)
    (hbatches : allBatches whole' = allBatches whole ++ [written])
    (hextends : Segment.Extends whole whole') (hcontinues : after.Continues before)
    (hready : Ready base first after files below whole' stub) :
    Appended base first below batch before whole
      ⟨.ok before.nextBatchSeq, after, files⟩
  | refused {outcome : Result DurabilityError UInt64} {whole' : List (Segment crc32c)}
    {stub : List (UInt64 × SegmentFile)} {after : LocalWalLane} {files : LaneDirectory}
    (hfails : ∀ number, outcome ≠ .ok number)
    (hbatches : allBatches whole' = allBatches whole)
    (hextends : Segment.Extends whole whole') (hcontinues : after.Continues before)
    (hready : Ready base first after files below whole' stub) :
    Appended base first below batch before whole ⟨outcome, after, files⟩
  | spoiled {outcome : Result DurabilityError UInt64} {whole' : List (Segment crc32c)}
    {after : LocalWalLane} {files : LaneDirectory} (hfails : ∀ number, outcome ≠ .ok number)
    (hbatches : allBatches whole' = allBatches whole)
    (hextends : Segment.Extends whole whole') (hcontinues : after.Continues before)
    (hspoiled : Spoiled (· = batch) base first after files below whole') :
    Appended base first below batch before whole ⟨outcome, after, files⟩

namespace Ready

section Place

variable (h : Ready base first walLane files below whole stub)

include h

theorem mem_files {entry : UInt64 × SegmentFile} (hmem : entry ∈ stub) :
    files[entry.1]? = some entry.2 := by
  rw [← Std.ExtTreeMap.mem_toList_iff_getElem?_eq_some, h.disk.toList]
  exact List.mem_append_right _ (List.mem_append_right _ hmem)

theorem base_le_of_mem {entry : UInt64 × SegmentFile} (hmem : entry ∈ stub) :
    base ≤ entry.1 := by
  have hsorted := files.ordered_keys_toList
  rw [h.disk.toList] at hsorted
  refine keys_files_ge (List.pairwise_append.mp hsorted).2.1 (fun other hother hnil ↦ ?_)
    entry (List.mem_append_right _ hmem)
  rw [h.behind.key_eq other hother, hnil]
  exact UInt64.add_zero base

/-- The active file is the last whole one, unless the lane stands on a stub. -/
theorem active_eq (hbase : 1 ≤ base) (hheaded : walLane.Headed files) :
    walLane.segmentSeq + 1 = base + UInt64.ofNat whole.length ∧
      walLane.activeFirstBatch = lastFirst first whole := by
  rcases h.active with hactive | ⟨hseq, -, hclosed, entry, hmem, hshort⟩
  · exact hactive
  · have hkey : entry.1 = walLane.segmentSeq := (h.behind.key_eq entry hmem).trans hseq.symm
    rcases hheaded with hopen | hzero | hlength
    · rw [hclosed] at hopen
      cases hopen
    · have hle := UInt64.le_trans hbase (h.base_le_of_mem hmem)
      rw [hkey, hzero] at hle
      exact absurd hle (by decide)
    · rw [LocalWalLane.activeFile, ← hkey, h.mem_files hmem, Option.getD_some] at hlength
      omega

section

variable (hactive : walLane.segmentSeq + 1 = base + UInt64.ofNat whole.length)
include hactive

/-- The last whole file, and where it is. -/
theorem split {front : List (Segment crc32c)} {held : Segment crc32c}
    (hwhole : whole = front ++ [held]) :
    walLane.segmentSeq = base + UInt64.ofNat front.length ∧
      files.toList = below ++ Segment.files walLane.lane base first front ++
        (walLane.segmentSeq, ⟨held.bytes walLane.lane walLane.segmentSeq
            (first + UInt64.ofNat (allBatches front).length),
          (held.bytes walLane.lane walLane.segmentSeq
            (first + UInt64.ofNat (allBatches front).length)).length⟩) :: stub := by
  have hseq : walLane.segmentSeq = base + UInt64.ofNat front.length := by
    rw [hwhole, List.length_append, List.length_singleton, ← add_ofNat_add] at hactive
    exact (UInt64.add_left_inj 1).mp hactive
  refine ⟨hseq, ?_⟩
  rw [h.disk.toList, hwhole, files_append, hseq]
  simp [Segment.files]

/-- The next file comes behind all others. -/
theorem keys_lt (hmax : walLane.segmentSeq.toNat + 1 < 2 ^ 64) (hstub : stub = []) :
    ∀ entry ∈ files.toList, compare entry.1 (walLane.segmentSeq + 1) = .lt := by
  have hsucc : walLane.segmentSeq < walLane.segmentSeq + 1 := by
    rw [UInt64.lt_iff_toNat_lt, UInt64.toNat_add, UInt64.toNat_one, Nat.mod_eq_of_lt hmax]
    exact Nat.lt_succ_self _
  subst hstub
  intro entry hmem
  rcases List.eq_nil_or_concat whole with rfl | ⟨front, held, hwhole⟩
  · rw [h.disk.toList] at hmem
    have hbelow : entry ∈ below := by simpa [Segment.files] using hmem
    have hzero : base + UInt64.ofNat 0 = base := UInt64.add_zero base
    rw [hactive, List.length_nil, hzero]
    exact Std.compare_eq_lt.mpr (h.disk.below entry hbelow)
  · rw [List.concat_eq_append] at hwhole
    obtain ⟨-, htoList⟩ := h.split hactive hwhole
    have hsorted := files.ordered_keys_toList
    rw [htoList] at hsorted hmem
    rcases List.mem_append.mp hmem with hmem | hmem
    · have hless := Std.compare_eq_lt.mp
        ((List.pairwise_append.mp hsorted).2.2 entry hmem _ List.mem_cons_self)
      exact Std.compare_eq_lt.mpr (UInt64.lt_trans hless hsucc)
    · rw [List.mem_singleton.mp hmem]
      exact Std.compare_eq_lt.mpr hsucc

/-- A stub stands where the next file would be created. -/
theorem stub_eq_nil (hfresh : walLane.segmentSeq + 1 ∉ files) : stub = [] := by
  refine List.eq_nil_iff_forall_not_mem.mpr fun entry hmem ↦ hfresh ?_
  rw [hactive, ← h.behind.key_eq entry hmem, ← Std.ExtTreeMap.isSome_getElem?_iff_mem,
    h.mem_files hmem]
  rfl

end

end Place

section

variable (h : Ready base first walLane files below whole stub)
  (hactive : walLane.segmentSeq + 1 = base + UInt64.ofNat whole.length ∧
    walLane.activeFirstBatch = lastFirst first whole)
include h hactive

theorem closed : Ready base first { walLane with isOpen := false } files below whole stub :=
  ⟨h.disk, h.behind, h.next, Or.inl hactive, fun hopen ↦ absurd hopen Bool.false_ne_true⟩

/-- A new file behind all others is a stub or, with its whole header, the active one. -/
theorem rotate (hmax : walLane.segmentSeq.toNat + 1 < 2 ^ 64) (script : RotationScript) :
    Prepared base first walLane below whole stub
      (walLane.rotate crc32c script files) := by
  unfold LocalWalLane.rotate
  dsimp only
  split_ifs with hrefused
  · exact ⟨rfl, rfl, rfl, rfl, whole, stub, rfl, .refl whole, h.closed hactive,
      fun hok ↦ nomatch hok⟩
  · obtain ⟨-, hfresh⟩ := not_or.mp hrefused
    obtain rfl := h.stub_eq_nil hactive.1 hfresh
    have hinsert (file : SegmentFile) := toList_insert_above file (h.keys_lt hactive.1 hmax rfl)
    have hsizes {file : SegmentFile} (hfile : file.bytes.length ≤ segmentHeaderLen) :
        ∀ entry ∈ (files.insert (walLane.segmentSeq + 1) file).toList,
          entry.2.bytes.length ≤ sizeBound walLane.targetBytes := by
      rw [hinsert, List.forall_mem_append, List.forall_mem_singleton]
      exact ⟨h.disk.sizes, hfile.trans (by unfold sizeBound; omega)⟩
    cases hheader : script.header with
    | some written =>
      dsimp only
      have hstub : Stub crc32c walLane.lane walLane.identity (base + UInt64.ofNat whole.length)
          [(walLane.segmentSeq + 1, ⟨(segmentHeader crc32c walLane.lane walLane.identity
            (walLane.segmentSeq + 1)).take written, 0⟩)] := by
        rw [← hactive.1]
        exact .of_take (.refl _) _ _ _ _
      refine ⟨rfl, rfl, rfl, rfl, whole, _, rfl, .refl whole, ⟨⟨?_, h.disk.below, h.disk.writers,
        hstub.looseEnd _, hsizes ?_⟩, hstub, h.next, Or.inl hactive,
        fun hopen ↦ absurd hopen Bool.false_ne_true⟩, fun hok ↦ nomatch hok⟩
      · rw [hinsert, h.disk.toList, List.append_nil, List.append_assoc]
      · rw [List.length_take, length_segmentHeader]
        exact min_le_right _ _
    | none =>
      dsimp only
      have hbatches : allBatches (whole ++ [⟨walLane.identity, []⟩]) =
          allBatches whole := by simp
      refine ⟨rfl, rfl, rfl, rfl, whole ++ [⟨walLane.identity, []⟩], [], hbatches, ?_,
        ⟨⟨?_, h.disk.below, ?_, .nothing, hsizes ?_⟩, .nothing, ?_, Or.inl ⟨?_, ?_⟩,
          fun _ ↦ ⟨?_, ?_⟩⟩,
        fun _ ↦ ⟨rfl, fun _ ↦ rfl⟩⟩
      · refine ⟨(List.dropLast_prefix whole).trans (List.prefix_append _ _), ?_⟩
        rw [List.length_append]
        exact Nat.le_add_right _ _
      · rw [hinsert, h.disk.toList, files_append, Segment.files, Segment.bytes,
          ← hactive.1, List.append_nil, List.append_nil, List.append_assoc]
        rfl
      · rw [List.forall_mem_append, List.forall_mem_singleton]
        exact ⟨h.disk.writers, .refl _⟩
      · exact (length_segmentHeader _ _ _).le
      · rw [hbatches]
        exact h.next
      · rw [hactive.1, List.length_append, List.length_singleton, ← add_ofNat_add]
        rfl
      · rw [lastFirst_concat]
        exact h.next
      · exact List.append_ne_nil_of_right_ne_nil _ (List.cons_ne_nil _ _)
      · exact ⟨_, Std.ExtTreeMap.getElem?_insert_self, (length_segmentHeader _ _ _).symm⟩

end

/-- The tablet path opens the last whole file again. -/
theorem ensureOpen (h : Ready base first walLane files below whole stub)
    (hbase : 1 ≤ base) (hbelow : whole = [] → below = []) (hheaded : walLane.Headed files)
    (hmax : walLane.segmentSeq.toNat + 1 < 2 ^ 64) (script : IoScript) :
    Prepared base first walLane below whole stub
      (walLane.ensureOpen crc32c script files) := by
  have hactive := h.active_eq hbase hheaded
  unfold LocalWalLane.ensureOpen
  split
  next hopen =>
    exact ⟨rfl, rfl, rfl, rfl, whole, stub, rfl, .refl whole, h, fun _ ↦ ⟨hopen, id⟩⟩
  split
  · exact h.rotate hactive hmax script.opening
  cases hfile : files[walLane.segmentSeq]? with
  | none =>
    exact ⟨rfl, rfl, rfl, rfl, whole, stub, rfl, .refl whole, h, fun hok ↦ nomatch hok⟩
  | some file =>
    dsimp only
    split_ifs with hreopen
    · exact ⟨rfl, rfl, rfl, rfl, whole, stub, rfl, .refl whole, h, fun hok ↦ nomatch hok⟩
    · refine ⟨rfl, rfl, rfl, rfl, whole, stub, rfl, .refl whole, ⟨h.disk, h.behind, h.next,
        Or.inl hactive, fun _ ↦ ⟨?_, file, hfile, rfl⟩⟩, fun _ ↦ ⟨rfl, id⟩⟩
      -- with no whole file the active one would be a stub
      rintro rfl
      have hmem := Std.ExtTreeMap.mem_toList_iff_getElem?_eq_some.mpr hfile
      rw [h.disk.toList, hbelow rfl, List.nil_append] at hmem
      exact succ_ne_self _ (hactive.1.trans (h.behind.key_eq _ hmem).symm)

section Writing

variable {front : List (Segment crc32c)} {held : Segment crc32c}
  (h : Ready base first walLane files below (front ++ [held]) stub)
include h

theorem next_eq : walLane.nextBatchSeq = first + UInt64.ofNat (allBatches front).length +
    UInt64.ofNat held.batches.length := by
  rw [h.next, add_ofNat_add, allBatches_append, List.length_append, allBatches_cons,
    allBatches_nil, List.append_nil]

variable (hopen : walLane.isOpen = true)
include hopen

/-- The open file is the last whole one. -/
theorem active_of_open : walLane.segmentSeq + 1 = base + UInt64.ofNat (front ++ [held]).length ∧
    walLane.activeFirstBatch = lastFirst first (front ++ [held]) := by
  rcases h.active with hactive | ⟨-, -, hclosed, -⟩
  · exact hactive
  · exact absurd (hclosed.symm.trans hopen) Bool.false_ne_true

/-- The open file holds its batches and nothing else, and is as long as the lane thinks. -/
theorem getElem_active :
    files[walLane.segmentSeq]? = some ⟨held.bytes walLane.lane walLane.segmentSeq
        (first + UInt64.ofNat (allBatches front).length), walLane.segmentBytes⟩ ∧
      walLane.segmentBytes = (held.bytes walLane.lane walLane.segmentSeq
        (first + UInt64.ofNat (allBatches front).length)).length := by
  obtain ⟨-, htoList⟩ := h.split (h.active_of_open hopen).1 rfl
  obtain ⟨-, file, hfile, hbytes⟩ := h.opened hopen
  have hthere := Std.ExtTreeMap.mem_toList_iff_getElem?_eq_some.mp
    (htoList ▸ List.mem_append_right _ List.mem_cons_self)
  cases hfile.symm.trans hthere
  exact ⟨hbytes ▸ hthere, hbytes⟩

theorem sizes_insert {after : SegmentFile}
    (hafter : after.bytes.length ≤ sizeBound walLane.targetBytes) :
    ∀ entry ∈ (files.insert walLane.segmentSeq after).toList,
      entry.2.bytes.length ≤ sizeBound walLane.targetBytes := by
  obtain ⟨-, htoList⟩ := h.split (h.active_of_open hopen).1 rfl
  have hbefore := h.disk.sizes
  rw [htoList, List.forall_mem_append, List.forall_mem_cons] at hbefore
  rw [toList_insert_at after htoList, List.forall_mem_append, List.forall_mem_cons]
  exact ⟨hbefore.1, hafter, hbefore.2.2⟩

variable {written : WrittenBatch crc32c} {script : IoScript}
  (hroom : walLane.segmentBytes + (written.frame walLane.lane walLane.segmentSeq
    walLane.nextBatchSeq).length ≤ sizeBound walLane.targetBytes)
include hroom

/-- A batch that is written as a whole follows the others. -/
theorem writeFrame_whole (hscript : script.frame = none) :
    Appended base first below written.batch walLane (front ++ [held])
      (walLane.writeFrame script
        (written.frame walLane.lane walLane.segmentSeq walLane.nextBatchSeq) files) := by
  have hactive := h.active_of_open hopen
  obtain ⟨hseq, htoList⟩ := h.split hactive.1 rfl
  obtain ⟨hfile, hbytes⟩ := h.getElem_active hopen
  obtain ⟨hfront, hheld⟩ := List.forall_mem_append.mp h.disk.writers
  have hlength (other : Segment crc32c) : (front ++ [other]).length = (front ++ [held]).length := by
    rw [List.length_append, List.length_append, List.length_singleton, List.length_singleton]
  have hbehind := h.behind
  rw [← hlength ⟨held.writer, held.batches ++ [written]⟩] at hbehind
  have hbatches : allBatches (front ++ [⟨held.writer, held.batches ++ [written]⟩]) =
      allBatches (front ++ [held]) ++ [written] := by simp
  simp only [LocalWalLane.writeFrame, hscript, hfile, Option.getD_some]
  refine .acknowledged rfl hbatches ⟨?_, (hlength _).ge⟩ ⟨rfl, rfl, rfl, fun _ ↦ hopen⟩
    ⟨⟨?_, h.disk.below, List.forall_mem_append.mpr ⟨hfront, ?_⟩, hbehind.looseEnd _,
      h.sizes_insert hopen ?_⟩, hbehind, ?_, Or.inl ⟨?_, ?_⟩,
      fun _ ↦ ⟨?_, _, Std.ExtTreeMap.getElem?_insert_self, ?_⟩⟩
  · rw [List.dropLast_concat]
    exact List.prefix_append _ _
  · rw [toList_insert_at _ htoList, files_append, Segment.files, bytes_append, Segment.files,
      ← hseq, ← h.next_eq]
    simp only [List.append_assoc, List.cons_append, List.nil_append]
  · exact List.forall_mem_singleton.mpr (hheld held List.mem_cons_self)
  · rw [List.length_append, ← hbytes]
    exact hroom
  · rw [hbatches, List.length_append, ← add_ofNat_add, ← h.next]
    rfl
  · rw [hlength]
    exact hactive.1
  · rw [lastFirst_concat, hactive.2, lastFirst_concat]
  · exact List.append_ne_nil_of_right_ne_nil _ (List.cons_ne_nil _ _)
  · rw [List.length_append, ← hbytes]

/-- A write that fails leaves part of the batch behind the others, or nothing at all. -/
theorem writeFrame_failed {cut : Nat × IoKind} (hscript : script.frame = some cut)
    (hstub : stub = []) :
    Appended base first below written.batch walLane (front ++ [held])
      (walLane.writeFrame script
        (written.frame walLane.lane walLane.segmentSeq walLane.nextBatchSeq) files) := by
  subst hstub
  have hactive := h.active_of_open hopen
  obtain ⟨hseq, htoList⟩ := h.split hactive.1 rfl
  obtain ⟨hfile, hbytes⟩ := h.getElem_active hopen
  obtain ⟨hfront, hheld⟩ := List.forall_mem_append.mp h.disk.writers
  obtain ⟨kept, kind⟩ := cut
  simp only [LocalWalLane.writeFrame, hscript, hfile, Option.getD_some]
  by_cases hpart :
      (written.frame walLane.lane walLane.segmentSeq walLane.nextBatchSeq).take kept = []
  · rw [hpart, List.append_nil]
    refine .refused (fun _ hok ↦ by cases hok) rfl (.refl _) ⟨rfl, rfl, rfl, fun _ ↦ hopen⟩
      ⟨⟨?_, h.disk.below, h.disk.writers, h.disk.loose, h.sizes_insert hopen ?_⟩, h.behind, h.next,
        Or.inl hactive,
        fun _ ↦ ⟨(h.opened hopen).1, _, Std.ExtTreeMap.getElem?_insert_self, hbytes⟩⟩
    · rw [toList_insert_at _ htoList, hbytes, ← htoList, h.disk.toList]
    · exact h.disk.sizes _ (Std.ExtTreeMap.mem_toList_iff_getElem?_eq_some.mpr hfile)
  · have hbegun : Begun crc32c (· = written.batch) walLane.lane walLane.segmentSeq
        (first + UInt64.ofNat (allBatches front).length + UInt64.ofNat held.batches.length)
        ((written.frame walLane.lane walLane.segmentSeq walLane.nextBatchSeq).take kept) := by
      rw [← h.next_eq]
      exact Or.inr ⟨written, rfl, List.take_prefix _ _⟩
    have hloose := LooseEnd.begun (hheld held List.mem_cons_self) hbegun fun _ ↦ hbytes.ge
    rw [hseq] at hloose
    refine .spoiled (fun _ hok ↦ by cases hok) rfl (.refl _) ⟨rfl, rfl, rfl, fun _ ↦ hopen⟩
      ⟨⟨front, held, _, rfl, List.cons_ne_nil _ _,
          ⟨?_, h.disk.below, hfront, hloose, h.sizes_insert hopen ?_⟩⟩, hopen, _,
        Std.ExtTreeMap.getElem?_insert_self, ?_⟩
    · rw [toList_insert_at _ htoList, List.append_assoc, hseq]
    · rw [List.length_append, List.length_take, ← hbytes]
      omega
    · dsimp only
      rw [List.length_append, ← hbytes]
      have hpos := List.length_pos_iff.mpr hpart
      omega

end Writing

/-- What the write of a batch makes of a lane with an open file. -/
theorem writeFrame (h : Ready base first walLane files below whole stub)
    (hopen : walLane.isOpen = true) (written : WrittenBatch crc32c)
    (hroom : walLane.segmentBytes + (written.frame walLane.lane walLane.segmentSeq
      walLane.nextBatchSeq).length ≤ sizeBound walLane.targetBytes)
    (script : IoScript) (hcut : script.frame ≠ none → stub = []) :
    Appended base first below written.batch walLane whole
      (walLane.writeFrame script
        (written.frame walLane.lane walLane.segmentSeq walLane.nextBatchSeq) files) := by
  obtain ⟨front, held, rfl⟩ := (List.eq_nil_or_concat whole).resolve_left (h.opened hopen).1
  rw [List.concat_eq_append] at h ⊢
  cases hscript : script.frame with
  | none => exact h.writeFrame_whole hopen hroom hscript
  | some cut =>
    refine h.writeFrame_failed hopen hroom hscript (hcut ?_)
    rw [hscript]
    exact Option.some_ne_none cut

end Ready

theorem Prepared.refused {batch : Batch} {step : LaneStep Unit}
    {outcome : Result DurabilityError UInt64}
    (h : Prepared base first walLane below whole stub step)
    (hhealth : walLane.health ≠ .failed) (hfails : ∀ number, outcome ≠ .ok number) :
    Appended base first below batch walLane whole ⟨outcome, step.lane, step.files⟩ := by
  obtain ⟨whole', stub', hbatches, hextends, hready, -⟩ := h.ready
  refine .refused hfails hbatches hextends ⟨h.lane, h.identity, h.targetBytes, ?_⟩ hready
  rw [h.health]
  exact fun hfailed ↦ absurd hfailed hhealth

/-- What an append does after the preparations, it does. -/
theorem Appended.of_prepared {batch : Batch} {before after : LocalWalLane}
    {whole' : List (Segment crc32c)} {step : LaneStep UInt64}
    (hlane : after.lane = before.lane) (hidentity : after.identity = before.identity)
    (htarget : after.targetBytes = before.targetBytes)
    (hnext : after.nextBatchSeq = before.nextBatchSeq)
    (hbatches : allBatches whole' = allBatches whole)
    (hextends : Segment.Extends whole whole')
    (h : Appended base first below batch after whole' step) :
    Appended base first below batch before whole step := by
  have hcontinues {last : LocalWalLane} (hlast : last.Continues after) : last.Continues before :=
    ⟨hlast.lane.trans hlane, hlast.identity.trans hidentity, hlast.targetBytes.trans htarget,
      hlast.failed⟩
  cases h with
  | acknowledged hbatch hall hmore hlast hready =>
    rw [hnext]
    exact .acknowledged hbatch (hbatches ▸ hall) (hextends.trans hmore) (hcontinues hlast) hready
  | refused hfails hall hmore hlast hready =>
    exact .refused hfails (hall.trans hbatches) (hextends.trans hmore) (hcontinues hlast) hready
  | spoiled hfails hall hmore hlast hspoiled =>
    exact .spoiled hfails (hall.trans hbatches) (hextends.trans hmore) (hcontinues hlast) hspoiled

namespace Ready

section

variable (h : Ready base first walLane files below whole stub) (hhealth : walLane.health ≠ .failed)
  (hmax : walLane.segmentSeq.toNat + 1 < 2 ^ 64) {script : IoScript}
  (hcut : script.frame ≠ none → stub = [])
include h hhealth hmax hcut

section

variable (hactive : walLane.segmentSeq + 1 = base + UInt64.ofNat whole.length ∧
  walLane.activeFirstBatch = lastFirst first whole)
include hactive

/-- Writing an encoded batch, with the rotation it may need. -/
theorem sealEncodedBody (written : WrittenBatch crc32c) :
    Appended base first below written.batch walLane whole
      (walLane.sealEncodedBody crc32c script written.body written.batch.entries.length files) := by
  obtain ⟨-, -, hcount, hsize⟩ := Batch.encode_eq_ok_iff.mp written.encode_eq
  have hbody : ¬2 ^ 32 ≤ written.body.length := by
    unfold walMaxBodyBytes at hsize
    omega
  have hentries : ¬2 ^ 16 ≤ written.batch.entries.length := by
    unfold walMaxRecordsPerBatch at hcount
    omega
  unfold LocalWalLane.sealEncodedBody
  by_cases hrotate : walLane.needsRotation (batchHeaderLen + written.body.length + batchFooterLen)
  · have hprepared := h.rotate hactive hmax script.rotation
    obtain ⟨whole', stub', hbatches, hextends, hready, hok⟩ := hprepared.ready
    simp only [if_pos hrotate]
    cases houtcome : (walLane.rotate crc32c script.rotation files).outcome with
    | err | panic => exact hprepared.refused hhealth fun _ hok ↦ nomatch hok
    | ok value =>
      dsimp only
      rw [if_neg hbody, if_neg hentries]
      obtain ⟨hopen, hstub⟩ := hok houtcome
      refine .of_prepared hprepared.lane hprepared.identity hprepared.targetBytes ?_ hbatches
        hextends (hready.writeFrame hopen written ?_ script fun hframe ↦ hstub (hcut hframe))
      · rw [hready.next, hbatches, h.next]
      · rw [(LocalWalLane.rotate_ok houtcome).2, WrittenBatch.frame, length_frame, sizeBound]
        omega
  · simp only [if_neg hrotate, if_neg hbody, if_neg hentries]
    simp only [LocalWalLane.needsRotation, Bool.or_eq_true, Bool.not_eq_true', Bool.and_eq_true,
      decide_eq_true_eq, not_or, Bool.not_eq_false, not_and, Nat.not_lt] at hrotate
    refine h.writeFrame hrotate.1 written ?_ script hcut
    have hlevel := hrotate.2
    rw [WrittenBatch.frame, length_frame, sizeBound]
    omega

theorem appendRecords {batch : Batch} (hreadable : batch.Readable crc32c) :
    Appended base first below batch walLane whole
      (walLane.appendRecords crc32c script batch files) := by
  have hcontinues : walLane.Continues walLane :=
    ⟨rfl, rfl, rfl, fun hfailed ↦ absurd hfailed hhealth⟩
  unfold LocalWalLane.appendRecords
  rw [if_neg hhealth]
  cases hencode : batch.encode with
  | ok body =>
    exact h.sealEncodedBody hhealth hmax hcut hactive ⟨batch, body, hencode, hreadable body hencode⟩
  | err | panic => exact .refused (fun _ hok ↦ nomatch hok) rfl (.refl whole) hcontinues h

end

/-- What an append makes of a lane that is ready. -/
theorem append (hbase : 1 ≤ base) (hbelow : whole = [] → below = [])
    (hheaded : walLane.Headed files) {batch : Batch} (hreadable : batch.Readable crc32c) :
    Appended base first below batch walLane whole
      (walLane.append crc32c script batch files) := by
  cases batch with
  | consensus records =>
    exact h.appendRecords hhealth hmax hcut (h.active_eq hbase hheaded) hreadable
  | tablet records =>
    have hprepared := h.ensureOpen hbase hbelow hheaded hmax script
    unfold LocalWalLane.append
    dsimp only
    cases houtcome : (walLane.ensureOpen crc32c script files).outcome with
    | err | panic => exact hprepared.refused hhealth fun _ hok ↦ nomatch hok
    | ok value =>
      obtain ⟨whole', stub', hbatches, hextends, hready, hok⟩ := hprepared.ready
      obtain ⟨hopen, hstub⟩ := hok houtcome
      refine .of_prepared hprepared.lane hprepared.identity hprepared.targetBytes ?_ hbatches
        hextends (hready.appendRecords ?_ ?_ (fun hframe ↦ hstub (hcut hframe))
          (hready.active_eq hbase (Or.inl hopen)) hreadable)
      · rw [hready.next, hbatches, h.next]
      · rw [hprepared.health]
        exact hhealth
      · rcases @LocalWalLane.segmentSeq_ensureOpen crc32c walLane files script with hsame | hfirst
        · rw [hsame]
          exact hmax
        · rw [hfirst]
          decide

end

end Ready

end Kivi.Durability
