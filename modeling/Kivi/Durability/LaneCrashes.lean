import Kivi.Durability.LaneAppends

/-!
# What a crash leaves of a lane

A crash leaves of every file what was synced and any part of the rest that follows it, and that is
then stable. The files that are there survive: a directory entry is durable once the file is
created. `Running` says how the files of a running process hold the batches of a lane, `Down` how
the files between two processes do. `Running.append` and `Running.crashed` lead from the one to the
other, and `Down.recovers` leads back: from any floor below which only whole files are, recovery
returns the settled batches behind it and at most one more.
-/

namespace Kivi.Durability

open Library Segment

/-- Where a lane is, and the size at which it moves on to a new file. -/
structure LanePlace where
  cluster : BitVec 128
  node : NodeId
  lane : UInt16
  targetBytes : UInt64

def LanePlace.identity (place : LanePlace) (incarnation : UInt64) : LaneIdentity :=
  ⟨place.cluster, place.node, incarnation⟩

/-- What a crash leaves of all files. -/
def crashed (keep : UInt64 → Nat) (files : LaneDirectory) : LaneDirectory :=
  files.map fun seq file ↦ file.cut (keep seq)

/-! ### Where a lane may append -/

/-- The lane does not stand on a file without a header, and its counters do not run out. -/
structure LocalWalLane.Placed (lane : LocalWalLane) (files : LaneDirectory) : Prop where
  headed : lane.Headed files
  segments : lane.segmentSeq.toNat + 1 < 2 ^ 64
  batches : lane.nextBatchSeq.toNat + 1 < 2 ^ 64

instance (lane : LocalWalLane) (files : LaneDirectory) : Decidable (lane.Placed files) :=
  decidable_of_iff (lane.Headed files ∧ lane.segmentSeq.toNat + 1 < 2 ^ 64 ∧
      lane.nextBatchSeq.toNat + 1 < 2 ^ 64)
    ⟨fun h ↦ ⟨h.1, h.2.1, h.2.2⟩, fun h ↦ ⟨h.headed, h.segments, h.batches⟩⟩

/-- The lane appends only where it may and where no failed append left bytes, and if the write of
the batch fails, no failed rotation left a file behind the active one. -/
structure LocalWalLane.Unspoiled (lane : LocalWalLane) (files : LaneDirectory) (script : IoScript) :
    Prop where
  placed : lane.Placed files
  level : lane.isOpen = true → lane.segmentBytes = (lane.activeFile files).bytes.length
  last : script.frame ≠ none → lane.segmentSeq + 1 ∉ files

instance (lane : LocalWalLane) (files : LaneDirectory) (script : IoScript) :
    Decidable (lane.Unspoiled files script) :=
  decidable_of_iff (lane.Placed files ∧
      (lane.isOpen = true → lane.segmentBytes = (lane.activeFile files).bytes.length) ∧
      (script.frame ≠ none → lane.segmentSeq + 1 ∉ files))
    ⟨fun h ↦ ⟨h.1, h.2.1, h.2.2⟩, fun h ↦ ⟨h.placed, h.level, h.last⟩⟩

/-! ### What a crash leaves -/

variable {crc32c : Checksum} {lane : UInt16} {identity : LaneIdentity}
  {targetBytes base first : UInt64} {files : LaneDirectory}
  {below loose stub : List (UInt64 × SegmentFile)} {whole : List (Segment crc32c)}
  {settled : List (WrittenBatch crc32c)} {offered : Batch → Prop}

/-- What a crash leaves of a list of files. -/
def crashedList (keep : UInt64 → Nat) (files : List (UInt64 × SegmentFile)) :
    List (UInt64 × SegmentFile) :=
  files.map fun entry ↦ (entry.1, entry.2.cut (keep entry.1))

theorem toList_crashed (keep : UInt64 → Nat) (files : LaneDirectory) :
    (crashed keep files).toList = crashedList keep files.toList := Std.ExtTreeMap.toList_map

theorem SegmentFile.length_cut_le (file : SegmentFile) (keep : Nat) :
    (file.cut keep).bytes.length ≤ file.bytes.length := by
  rw [cut, List.length_take]
  exact min_le_right _ _

theorem stable_crashedList (keep : UInt64 → Nat) (files : List (UInt64 × SegmentFile)) :
    ∀ entry ∈ crashedList keep files, entry.2.synced = entry.2.bytes.length := by
  intro entry hmem
  obtain ⟨old, -, rfl⟩ := List.mem_map.mp hmem
  rfl

/-- Whole files lose nothing. -/
theorem crashedList_files (keep : UInt64 → Nat) (lane : UInt16) (seq first : UInt64)
    (whole : List (Segment crc32c)) :
    crashedList keep (Segment.files lane seq first whole) =
      Segment.files lane seq first whole := by
  induction whole generalizing seq first with
  | nil => rfl
  | cons held rest ih =>
    rw [Segment.files, crashedList, List.map_cons, ← crashedList, ih]
    simp [SegmentFile.cut, List.take_of_length_le]

theorem OnDisk.crashed (h : OnDisk offered lane identity targetBytes base first files below
      whole settled loose) (keep : UInt64 → Nat) :
    OnDisk offered lane identity targetBytes base first (crashed keep files)
      (crashedList keep below) whole settled (crashedList keep loose) := by
  refine ⟨?_, ?_, h.writers, h.loose.cut keep, ?_⟩
  · rw [toList_crashed, h.toList, crashedList, List.map_append, List.map_append,
      ← crashedList, ← crashedList, ← crashedList, crashedList_files]
  · intro entry hmem
    obtain ⟨old, hold, rfl⟩ := List.mem_map.mp hmem
    exact h.below old hold
  · intro entry hmem
    rw [toList_crashed] at hmem
    obtain ⟨old, hold, rfl⟩ := List.mem_map.mp hmem
    exact (old.2.length_cut_le _).trans (h.sizes old hold)

theorem Stub.crashed {seq : UInt64} (h : Stub crc32c lane identity seq stub)
    (keep : UInt64 → Nat) : Stub crc32c lane identity seq (crashedList keep stub) := by
  cases h with
  | nothing => exact .nothing
  | @short file hshort => exact .short ((file.length_cut_le _).trans_lt hshort)
  | header hwriter => exact .of_take hwriter _ _ _ _

theorem Stub.length_le {seq : UInt64} (h : Stub crc32c lane identity seq stub) :
    ∀ entry ∈ stub, entry.2.bytes.length ≤ segmentHeaderLen := by
  cases h with
  | nothing => exact List.forall_mem_nil _
  | short hshort => exact List.forall_mem_singleton.mpr hshort.le
  | header hwriter => exact List.forall_mem_singleton.mpr (length_segmentHeader _ _ _).le

/-- A later process of the same node, to which more was offered, finds the same files. -/
theorem OnDisk.later {later : LaneIdentity} {more : Batch → Prop}
    (h : OnDisk offered lane identity targetBytes base first files below whole settled loose)
    (hlater : identity.Precedes later) (hmore : ∀ batch, offered batch → more batch) :
    OnDisk more lane later targetBytes base first files below whole settled loose := by
  have htrans {writer : LaneIdentity} (hwriter : writer.Precedes identity) :
      writer.Precedes later :=
    ⟨hwriter.cluster.trans hlater.cluster, hwriter.node.trans hlater.node,
      UInt64.le_trans hwriter.incarnation hlater.incarnation⟩
  refine ⟨h.toList, h.below, fun held hmem ↦ htrans (h.writers held hmem), ?_, h.sizes⟩
  cases h.loose with
  | nothing => exact .nothing
  | short hshort => exact .short hshort
  | begun hwriter hpart hsynced =>
    exact .begun (htrans hwriter) (hpart.imp_right fun ⟨written, hoffered, hprefix⟩ ↦
      ⟨written, hmore _ hoffered, hprefix⟩) hsynced

theorem Spoiled.mono {walLane : LocalWalLane} {more : Batch → Prop}
    (h : Spoiled offered base first walLane files below whole)
    (hmore : ∀ batch, offered batch → more batch) :
    Spoiled more base first walLane files below whole := by
  obtain ⟨front, held, loose, hwhole, hloose, hdisk⟩ := h.disk
  exact ⟨⟨front, held, loose, hwhole, hloose, hdisk.later (.refl _) hmore⟩, h.isOpen, h.leftOver⟩

/-! ### A lane whose last append did not fail -/

/-- No file is behind the active one, and it is as long as the lane thinks. -/
structure LocalWalLane.Tidy (walLane : LocalWalLane) (files : LaneDirectory) : Prop where
  topmost : ∀ seq ∈ files, seq ≤ walLane.segmentSeq
  level : walLane.isOpen = true →
    walLane.segmentBytes = (walLane.activeFile files).bytes.length

theorem LocalWalLane.activeFile_eq {walLane : LocalWalLane} {file : SegmentFile}
    (h : files[walLane.segmentSeq]? = some file) : walLane.activeFile files = file := by
  rw [activeFile, h, Option.getD_some]

theorem le_of_last {front : List (UInt64 × SegmentFile)} {last : UInt64} {file : SegmentFile}
    (h : files.toList = front ++ [(last, file)]) : ∀ seq ∈ files, seq ≤ last := by
  have hsorted := files.ordered_keys_toList
  rw [h] at hsorted
  intro seq hseq
  obtain ⟨found, hfound⟩ := Option.isSome_iff_exists.mp
    (Std.ExtTreeMap.isSome_getElem?_iff_mem.mpr hseq)
  have hmem := Std.ExtTreeMap.mem_toList_iff_getElem?_eq_some.mpr hfound
  rw [h, List.mem_append, List.mem_singleton] at hmem
  rcases hmem with hmem | heq
  · exact UInt64.le_of_lt (Std.compare_eq_lt.mp
      ((List.pairwise_append.mp hsorted).2.2 _ hmem _ List.mem_cons_self))
  · cases heq
    exact UInt64.le_refl _

/-- Nothing lies around a ready lane without a stub. -/
theorem Ready.tidy {walLane : LocalWalLane}
    (h : Ready base first walLane files [] whole stub)
    (hstub : stub = [] ∨ walLane.segmentSeq = base + UInt64.ofNat whole.length) :
    walLane.Tidy files := by
  refine ⟨?_, fun hopen ↦ ?_⟩
  · rcases h.active with ⟨hactive, -⟩ | ⟨hactive, -, -, entry, hmem, -⟩
    · have hnil : stub = [] := by
        refine hstub.resolve_right fun hseq ↦ ?_
        exact succ_ne_self _ (hactive.trans hseq.symm)
      subst hnil
      rcases List.eq_nil_or_concat whole with rfl | ⟨front, held, hwhole⟩
      · intro seq hseq
        have hempty : files.toList = [] := h.disk.toList
        rw [Std.ExtTreeMap.toList_eq_nil_iff] at hempty
        rw [hempty] at hseq
        exact absurd hseq Std.ExtTreeMap.not_mem_empty
      · rw [List.concat_eq_append] at hwhole
        exact le_of_last (h.split hactive hwhole).2
    · have htoList := h.disk.toList
      rw [hactive]
      cases h.behind with
      | nothing => exact absurd hmem List.not_mem_nil
      | short | header => exact le_of_last htoList
  · obtain ⟨-, file, hfile, hbytes⟩ := h.opened hopen
    rw [LocalWalLane.activeFile_eq hfile, hbytes]

namespace LocalWalLane.Tidy

variable {walLane : LocalWalLane}

theorem le_of_mem_insert {seq last : UInt64} {file : SegmentFile}
    (hfiles : ∀ seq ∈ files, seq ≤ last) (hseq : seq ≤ last) :
    ∀ key ∈ files.insert seq file, key ≤ last := by
  intro key hkey
  rcases Std.ExtTreeMap.mem_insert.mp hkey with heq | hmem
  · rw [← Std.compare_eq_iff_eq.mp heq]
    exact hseq
  · exact hfiles key hmem

section

variable (h : walLane.Tidy files)
include h

theorem rotate (hmax : walLane.segmentSeq.toNat + 1 < 2 ^ 64) :
    (walLane.rotate crc32c ⟨false, none⟩ files).lane.Tidy
      (walLane.rotate crc32c ⟨false, none⟩ files).files := by
  unfold LocalWalLane.rotate
  dsimp only
  by_cases hthere : walLane.segmentSeq + 1 ∈ files
  · rw [if_pos (Or.inr hthere)]
    exact ⟨h.topmost, fun hopen ↦ absurd hopen Bool.false_ne_true⟩
  · rw [if_neg (not_or.mpr ⟨Bool.false_ne_true, hthere⟩)]
    have hsucc : walLane.segmentSeq ≤ walLane.segmentSeq + 1 := by
      rw [UInt64.le_iff_toNat_le, UInt64.toNat_add, UInt64.toNat_one, Nat.mod_eq_of_lt hmax]
      exact Nat.le_succ _
    refine ⟨le_of_mem_insert (fun seq hseq ↦ UInt64.le_trans (h.topmost seq hseq) hsucc)
      (UInt64.le_refl _), fun _ ↦ ?_⟩
    rw [activeFile_eq Std.ExtTreeMap.getElem?_insert_self]
    exact (length_segmentHeader _ _ _).symm

theorem writeFrame (bytes : Bytes) :
    (walLane.writeFrame .clean bytes files).lane.Tidy
      (walLane.writeFrame .clean bytes files).files := by
  refine ⟨le_of_mem_insert h.topmost (UInt64.le_refl _), fun hopen ↦ ?_⟩
  simp only [LocalWalLane.writeFrame, IoScript.clean] at hopen ⊢
  rw [activeFile_eq Std.ExtTreeMap.getElem?_insert_self, List.length_append, h.level hopen]
  rfl

/-- An append without failing file operations leaves nothing lying around. -/
theorem append (hmax : walLane.segmentSeq.toNat + 1 < 2 ^ 64) (batch : Batch) :
    (walLane.append crc32c .clean batch files).lane.Tidy
      (walLane.append crc32c .clean batch files).files := by
  refine append_invariant (P := Tidy) ?_ ?_ (fun h ↦ h.rotate hmax) ?_ h
  · intro lane files file h hfile
    exact ⟨h.topmost,
      fun _ ↦ congrArg (fun active ↦ active.bytes.length) (activeFile_eq hfile).symm⟩
  · intro lane files body _ _ h
    exact h.writeFrame _
  · rintro lane files (hseq | hseq) h
    · exact h.rotate (hseq ▸ hmax)
    · refine h.rotate ?_
      rw [hseq]
      decide

/-- Nothing is behind the active file of a tidy lane. -/
theorem next_not_mem (hmax : walLane.segmentSeq.toNat + 1 < 2 ^ 64) :
    walLane.segmentSeq + 1 ∉ files := by
  intro hmem
  have hle := h.topmost _ hmem
  rw [UInt64.le_iff_toNat_le, UInt64.toNat_add, UInt64.toNat_one, Nat.mod_eq_of_lt hmax] at hle
  omega

theorem unspoiled (hplaced : walLane.Placed files) (script : IoScript) :
    walLane.Unspoiled files script :=
  ⟨hplaced, h.level, fun _ ↦ h.next_not_mem hplaced.segments⟩

end

end LocalWalLane.Tidy

/-! ### Running processes, and the files between two of them -/

/-- Something is behind the dropped files, if there are any: a whole file, or the file without a
header that the lane stands on. -/
def LocalWalLane.Anchors (walLane : LocalWalLane) (base : UInt64)
    (dropped whole : List (Segment crc32c)) : Prop :=
  dropped = [] ∨ dropped.length < whole.length ∨
    walLane.isOpen = false ∧ walLane.segmentSeq = base + UInt64.ofNat whole.length

section States

variable (place : LanePlace) (offered : Batch → Prop) (base first : UInt64)

/-- The lane of a running process, ready or with part of an offered batch behind the others. -/
structure Running (files : LaneDirectory) (incarnation : UInt64) (whole : List (Segment crc32c))
    (walLane : LocalWalLane) : Prop where
  lane : walLane.lane = place.lane
  identity : walLane.identity = place.identity incarnation
  targetBytes : walLane.targetBytes = place.targetBytes
  failed : walLane.health = .failed → walLane.isOpen = true
  state : (first.toNat + (allBatches whole).length < 2 ^ 64 ∧
      ∃ stub, Ready base first walLane files [] whole stub) ∨
    first.toNat + ((allBatches whole).length + 1) < 2 ^ 64 ∧
      Spoiled offered base first walLane files [] whole

/-- The files between two processes, some of them below a floor: they hold the settled batches and
at most one of the offered ones, or one of these was begun behind them. -/
inductive Down (files : LaneDirectory) (incarnation : UInt64) (dropped : List (Segment crc32c))
    (batches : List (WrittenBatch crc32c)) : Prop where
  | intro {kept : List (Segment crc32c)} {settled extra : List (WrittenBatch crc32c)}
    {loose : List (UInt64 × SegmentFile)}
    (hdisk : OnDisk offered place.lane (place.identity incarnation) place.targetBytes base
      first files [] (dropped ++ kept) settled loose)
    (hanchored : dropped = [] ∨ kept ≠ [] ∨ loose ≠ [])
    (hstable : ∀ entry ∈ loose, entry.2.synced = entry.2.bytes.length)
    (hbatches : allBatches (dropped ++ kept) ++ settled = batches ++ extra)
    (hextra : Trailing offered extra)
    (hroom : first.toNat + (batches ++ extra).length < 2 ^ 64)
    (hquiet : (∀ entry ∈ loose, entry.2.bytes.length ≤ segmentHeaderLen) ∨
      extra = [] ∧ first.toNat + (batches.length + 1) < 2 ^ 64) :
    Down files incarnation dropped batches

/-- No file at all holds no batch. -/
theorem Down.empty (crc32c : Checksum) (place : LanePlace) (offered : Batch → Prop) :
    @Down crc32c place offered 1 1 ∅ 0 [] [] := by
  have hnothing {P : UInt64 × SegmentFile → Prop} : ∀ entry ∈ [], P entry :=
    List.forall_mem_nil _
  exact @Down.intro crc32c place offered 1 1 ∅ 0 [] [] [] [] [] []
    ⟨rfl, hnothing, List.forall_mem_nil _, .nothing, hnothing⟩ (Or.inl rfl)
    hnothing rfl .nil (UInt64.toNat_lt 1) (Or.inl hnothing)

/-- A floor behind whole files. -/
structure LaneFloor.Above (floor : LaneFloor) (dropped : List (Segment crc32c))
    (batches : List (WrittenBatch crc32c)) : Prop where
  lane : floor.lane = place.lane
  firstSegment : floor.firstSegment = base + UInt64.ofNat dropped.length
  firstBatch : floor.firstBatch = first + UInt64.ofNat (allBatches dropped).length
  nextBatch : floor.nextBatch.toNat ≤ first.toNat + batches.length

end States

section Transitions

variable {place : LanePlace} {incarnation : UInt64} {walLane : LocalWalLane}
  {dropped : List (Segment crc32c)} {batches extra : List (WrittenBatch crc32c)}
  {more : Batch → Prop}

theorem toNat_add_ofNat {count : Nat} (h : first.toNat + count < 2 ^ 64) :
    (first + UInt64.ofNat count).toNat = first.toNat + count := by
  rw [UInt64.toNat_add, UInt64.toNat_ofNat', Nat.add_mod_mod]
  exact Nat.mod_eq_of_lt h

theorem LanePlace.identity_precedes (place : LanePlace) {incarnation : UInt64}
    (hroom : incarnation.toNat + 1 < 2 ^ 64) :
    (place.identity incarnation).Precedes (place.identity (incarnation + 1)) := by
  refine ⟨rfl, rfl, ?_⟩
  rw [UInt64.le_iff_toNat_le]
  change incarnation.toNat ≤ (incarnation + 1).toNat
  rw [UInt64.toNat_add, UInt64.toNat_one, Nat.mod_eq_of_lt hroom]
  exact Nat.le_succ _

theorem Running.mono (h : Running place offered base first files incarnation whole walLane)
    (hmore : ∀ batch, offered batch → more batch) :
    Running place more base first files incarnation whole walLane :=
  ⟨h.lane, h.identity, h.targetBytes, h.failed,
    h.state.imp_right (And.imp_right fun hspoiled ↦ hspoiled.mono hmore)⟩

/-! ### Crashes -/

section

variable (hlane : walLane.lane = place.lane)
  (hidentity : walLane.identity = place.identity incarnation)
  (htarget : walLane.targetBytes = place.targetBytes) (hdropped : dropped <+: whole)
  (keep : UInt64 → Nat)

include hlane hidentity htarget hdropped keep

/-- A crash of a ready lane loses no settled batch. -/
theorem Ready.crashed (h : Ready base first walLane files [] whole stub)
    (hanchored : dropped = [] ∨ dropped.length < whole.length ∨
      walLane.segmentSeq = base + UInt64.ofNat whole.length)
    (hbatches : allBatches whole = batches ++ extra) (hextra : Trailing offered extra)
    (hroom : first.toNat + (batches ++ extra).length < 2 ^ 64) :
    Down place offered base first (crashed keep files) incarnation dropped batches := by
  obtain ⟨kept, rfl⟩ := hdropped
  have hdisk := h.disk.crashed keep
  have hbehind := h.behind.crashed keep
  rw [hlane, hidentity, htarget] at hdisk
  refine .intro (hdisk.later (.refl _) fun _ ↦ False.elim) ?_ (stable_crashedList keep stub) ?_
    hextra hroom (Or.inl hbehind.length_le)
  · refine hanchored.imp_right fun hanchored ↦ ?_
    rcases hanchored with hless | hlast
    · refine Or.inl fun hnil ↦ ?_
      rw [hnil, List.append_nil] at hless
      exact Nat.lt_irrefl _ hless
    · refine Or.inr fun hnil ↦ ?_
      rcases h.active with ⟨hactive, -⟩ | ⟨-, -, -, entry, hmem, -⟩
      · rw [← hlast] at hactive
        exact succ_ne_self _ hactive
      · rw [crashedList, List.map_eq_nil_iff] at hnil
        rw [hnil] at hmem
        exact absurd hmem List.not_mem_nil
  · rw [List.append_nil]
    exact hbatches

/-- A crash behind a failed write loses no settled batch. -/
theorem Spoiled.crashed (h : Spoiled offered base first walLane files [] whole)
    (hanchored : dropped = [] ∨ dropped.length < whole.length)
    (hroom : first.toNat + ((allBatches whole).length + 1) < 2 ^ 64) :
    Down place offered base first (crashed keep files) incarnation dropped
      (allBatches whole) := by
  obtain ⟨front, held, loose, rfl, hloose, hdisk⟩ := h.disk
  have hfront : dropped <+: front := by
    refine List.prefix_of_prefix_length_le hdropped (List.prefix_append front [held]) ?_
    rcases hanchored with rfl | hless
    · exact Nat.zero_le _
    · rw [List.length_append, List.length_singleton] at hless
      omega
  obtain ⟨kept, rfl⟩ := hfront
  have hcrashed := hdisk.crashed keep
  rw [hlane, hidentity, htarget] at hcrashed
  refine @Down.intro _ _ _ _ _ _ _ _ _ _ _ [] _ hcrashed (Or.inr (Or.inr ?_))
    (stable_crashedList keep loose) ?_ .nil ?_ (Or.inr ⟨rfl, hroom⟩)
  · rw [crashedList, Ne, List.map_eq_nil_iff]
    exact hloose
  · simp
  · rw [List.append_nil]
    omega

end

theorem Running.crashed
    (h : Running place offered base first files incarnation whole walLane)
    (hdropped : dropped <+: whole) (hanchored : walLane.Anchors base dropped whole)
    (keep : UInt64 → Nat) :
    Down place offered base first (crashed keep files) incarnation dropped
      (allBatches whole) := by
  rcases h.state with ⟨hroom, stub, hready⟩ | ⟨hroom, hspoiled⟩
  · refine hready.crashed h.lane h.identity h.targetBytes hdropped keep
      (Or.imp_right (Or.imp_right And.right) hanchored) (List.append_nil _).symm .nil ?_
    rw [List.append_nil]
    exact hroom
  · refine hspoiled.crashed h.lane h.identity h.targetBytes hdropped keep ?_ hroom
    refine Or.imp_right (fun hanchored ↦ hanchored.resolve_right fun hclosed ↦ ?_) hanchored
    exact absurd (hclosed.1.symm.trans hspoiled.isOpen) Bool.false_ne_true

theorem Down.crashed (h : Down place offered base first files incarnation dropped batches)
    (keep : UInt64 → Nat) :
    Down place offered base first (crashed keep files) incarnation dropped batches := by
  obtain ⟨hdisk, hanchored, hstable, hbatches, hextra, hroom, hquiet⟩ := h
  refine .intro (hdisk.crashed keep) (hanchored.imp_right (Or.imp_right ?_))
    (stable_crashedList keep _) hbatches hextra hroom (hquiet.imp_left ?_)
  · rw [crashedList, Ne, Ne, List.map_eq_nil_iff]
    exact id
  · intro hshort entry hmem
    obtain ⟨old, hold, rfl⟩ := List.mem_map.mp hmem
    exact (old.2.length_cut_le _).trans (hshort old hold)

/-! ### Appends -/

/-- A careful append is refused, or does what an append does to a lane that is ready. -/
theorem Running.append (h : Running place offered base first files incarnation whole walLane)
    (hbase : 1 ≤ base) {batch : Batch} {script : IoScript}
    (hcareful : walLane.health = .failed ∨
      walLane.Unspoiled files script ∧ batch.Readable crc32c) :
    walLane.append crc32c script batch files =
        ⟨.err (.io .appendToFailedLane), walLane, files⟩ ∨
      first.toNat + ((allBatches whole).length + 1) < 2 ^ 64 ∧
        walLane.nextBatchSeq = first + UInt64.ofNat (allBatches whole).length ∧
        walLane.segmentSeq + 1 = base + UInt64.ofNat whole.length ∧
        Appended base first [] batch walLane whole
          (walLane.append crc32c script batch files) := by
  by_cases hhealth : walLane.health = .failed
  · -- A lane that gave up refuses every batch.
    left
    cases batch with
    | consensus records => exact if_pos hhealth
    | tablet records =>
      unfold LocalWalLane.append LocalWalLane.ensureOpen
      rw [if_pos (h.failed hhealth)]
      exact if_pos hhealth
  · obtain ⟨hunspoiled, hreadable⟩ := hcareful.resolve_left hhealth
    have hplaced := hunspoiled.placed
    rcases h.state with ⟨hroom, stub, hready⟩ | ⟨-, hspoiled⟩
    · have hmore := hplaced.batches
      rw [hready.next, toNat_add_ofNat hroom] at hmore
      have hactive := hready.active_eq hbase hplaced.headed
      have hcut : script.frame ≠ none → stub = [] := fun hframe ↦
        hready.stub_eq_nil hactive.1 (hunspoiled.last hframe)
      exact Or.inr ⟨hmore, hready.next, hactive.1, hready.append hhealth hplaced.segments hcut hbase
        (fun _ ↦ rfl) hplaced.headed hreadable⟩
    · obtain ⟨file, hfile, hlength⟩ := hspoiled.leftOver
      have hsame := hunspoiled.level hspoiled.isOpen
      rw [LocalWalLane.activeFile_eq hfile] at hsame
      exact absurd hsame hlength

theorem Segment.Extends.keeps {whole' : List (Segment crc32c)}
    (h : Segment.Extends whole whole') (hdropped : dropped <+: whole)
    (hanchored : dropped = [] ∨ dropped.length < whole.length) :
    dropped <+: whole' ∧ (dropped = [] ∨ dropped.length < whole'.length) := by
  rcases hanchored with rfl | hless
  · exact ⟨List.nil_prefix, Or.inl rfl⟩
  · refine ⟨List.IsPrefix.trans ?_ h.sealed, Or.inr (hless.trans_le h.length)⟩
    refine List.prefix_of_prefix_length_le hdropped (List.dropLast_prefix whole) ?_
    rw [List.length_dropLast]
    omega

section

variable {batch : Batch} {step : LaneStep UInt64}
  (h : Appended base first [] batch walLane whole step) (more : Batch → Prop) (hbatch : more batch)
  (hrunning : Running place offered base first files incarnation whole walLane)
  (hroom : first.toNat + ((allBatches whole).length + 1) < 2 ^ 64)
include h hbatch hrunning hroom

/-- The lane goes on, with the batch if it was acknowledged. -/
theorem Appended.running :
    ∃ whole', Segment.Extends whole whole' ∧
      Running place more base first step.files incarnation whole' step.lane ∧
      ((∃ written : WrittenBatch crc32c, written.batch = batch ∧
          step.outcome = .ok walLane.nextBatchSeq ∧
          allBatches whole' = allBatches whole ++ [written] ∧
          ∃ stub, Ready base first step.lane step.files [] whole' stub) ∨
        (∀ number, step.outcome ≠ .ok number) ∧
          allBatches whole' = allBatches whole) := by
  have hplace {after : LocalWalLane} (hcontinues : after.Continues walLane) :
      after.lane = place.lane ∧ after.identity = place.identity incarnation ∧
        after.targetBytes = place.targetBytes :=
    ⟨hcontinues.lane.trans hrunning.lane, hcontinues.identity.trans hrunning.identity,
      hcontinues.targetBytes.trans hrunning.targetBytes⟩
  cases h with
  | @acknowledged written whole' stub after files' hwritten hall hextends hcontinues hready =>
    obtain ⟨hlane, hidentity, htarget⟩ := hplace hcontinues
    refine ⟨whole', hextends, ⟨hlane, hidentity, htarget, hcontinues.failed,
      Or.inl ⟨?_, stub, hready⟩⟩, Or.inl ⟨written, hwritten, rfl, hall, stub, hready⟩⟩
    rw [hall, List.length_append]
    exact hroom
  | @refused outcome whole' stub after files' hfails hall hextends hcontinues hready =>
    obtain ⟨hlane, hidentity, htarget⟩ := hplace hcontinues
    refine ⟨whole', hextends, ⟨hlane, hidentity, htarget, hcontinues.failed,
      Or.inl ⟨?_, stub, hready⟩⟩, Or.inr ⟨hfails, hall⟩⟩
    rw [hall]
    omega
  | @spoiled outcome whole' after files' hfails hall hextends hcontinues hspoiled =>
    obtain ⟨hlane, hidentity, htarget⟩ := hplace hcontinues
    refine ⟨whole', hextends, ⟨hlane, hidentity, htarget, hcontinues.failed,
      Or.inr ⟨?_, hspoiled.mono fun _ hsame ↦ hsame ▸ hbatch⟩⟩, Or.inr ⟨hfails, hall⟩⟩
    rw [hall]
    exact hroom

/-- A crash inside an append. -/
theorem Appended.crashed (hdropped : dropped <+: whole)
    (hanchored : dropped = [] ∨ dropped.length < whole.length) (keep : UInt64 → Nat) :
    Down place more base first (crashed keep step.files) incarnation dropped
      (allBatches whole) := by
  obtain ⟨whole', hextends, hafter, hbatches⟩ := h.running more hbatch hrunning hroom
  obtain ⟨hdropped', hanchored'⟩ := hextends.keeps hdropped hanchored
  rcases hbatches with ⟨written, hwritten, -, hall, stub, hready⟩ | ⟨-, hall⟩
  · refine hready.crashed hafter.lane hafter.identity hafter.targetBytes hdropped' keep
      (hanchored'.imp_right Or.inl) hall (.singleton (hwritten ▸ hbatch)) ?_
    rw [List.length_append]
    exact hroom
  · rw [← hall]
    exact hafter.crashed hdropped' (hanchored'.imp_right Or.inl) keep

end

/-! ### Recovery -/

theorem LaneFloor.Above.toNat_firstBatch {floor : LaneFloor}
    (h : floor.Above place base first dropped batches)
    (hfits : first.toNat + (allBatches dropped).length < 2 ^ 64) :
    floor.firstBatch.toNat = first.toNat + (allBatches dropped).length := by
  rw [h.firstBatch, toNat_add_ofNat hfits]

/-- A lane that recovered from a floor is ready over all files, and nothing lies behind it. -/
theorem Ready.over_floor {kept : List (Segment crc32c)}
    (h : Ready (base + UInt64.ofNat dropped.length)
      (first + UInt64.ofNat (allBatches dropped).length) walLane files
      (Segment.files walLane.lane base first dropped) kept stub)
    (hwriters : ∀ held ∈ dropped, held.writer.Precedes walLane.identity)
    (hstub : stub = [] ∨
      walLane.segmentSeq = base + UInt64.ofNat dropped.length + UInt64.ofNat kept.length)
    (hanchored : dropped = [] ∨ kept ≠ [] ∨ stub ≠ []) :
    Ready base first walLane files [] (dropped ++ kept) stub ∧ walLane.Tidy files ∧
      walLane.Anchors base dropped (dropped ++ kept) := by
  rw [add_ofNat_add, ← List.length_append] at hstub
  rcases eq_or_ne kept [] with rfl | hkept
  · rw [List.append_nil] at hstub ⊢
    have hlast := hanchored.imp_right fun hsome ↦ hstub.resolve_left (hsome.resolve_left (· rfl))
    have hretreat := h.retreat hwriters (hlast.imp_right Or.inr)
    rw [List.append_nil] at hretreat
    refine ⟨hretreat, hretreat.tidy hstub, hlast.imp_right fun hlast ↦ Or.inr ⟨?_, hlast⟩⟩
    exact Bool.eq_false_iff.mpr fun hopen ↦ (h.opened hopen).1 rfl
  · have hretreat := h.retreat hwriters (Or.inr (Or.inl hkept))
    refine ⟨hretreat, hretreat.tidy hstub, Or.inr (Or.inl ?_)⟩
    rw [List.length_append]
    exact Nat.lt_add_of_pos_right (List.length_pos_iff.mpr hkept)

/-- The next process recovers from the floor, and its lane is running. -/
theorem Down.recovers (h : Down place offered base first files incarnation dropped batches)
    {floor : LaneFloor} (hfloor : floor.Above place base first dropped batches)
    (hbase : 1 ≤ base) (hfirst : 1 ≤ first) (hroom : incarnation.toNat + 1 < 2 ^ 64)
    (more : Batch → Prop) :
    ∃ extra rest whole' recovery walLane files', Trailing offered extra ∧
      (LocalWalLane.new place.lane (place.identity (incarnation + 1))
        place.targetBytes).recoverFrom crc32c floor files = .ok (recovery, walLane, files') ∧
      allBatches dropped ++ rest = batches ++ extra ∧
      recovery.records = recordsOf floor.firstBatch (batchesOf rest) ∧
      dropped <+: whole' ∧ allBatches whole' = batches ++ extra ∧
      Running place more base first files' (incarnation + 1) whole' walLane ∧
      walLane.Tidy files' ∧ walLane.Anchors base dropped whole' := by
  obtain @⟨kept, settled, extra, loose, hdisk, hanchored, hstable, hbatches, hextra, hfits,
    hquiet⟩ := h
  rw [allBatches_append, List.append_assoc] at hbatches
  have hlength := congrArg List.length hbatches
  rw [List.length_append] at hlength
  have hnumber := hfloor.toNat_firstBatch (by omega)
  have hlater := hdisk.later (place.identity_precedes hroom) fun _ ↦ id
  have hadvanced := hlater.advance hanchored
  rw [← hfloor.firstSegment, ← hfloor.firstBatch] at hadvanced
  have hsegment : 1 ≤ floor.firstSegment := by
    rw [hfloor.firstSegment]
    exact UInt64.le_trans hbase (hlater.base_le hanchored)
  have hbatch : 1 ≤ floor.firstBatch := by
    rw [UInt64.le_iff_toNat_le, hnumber]
    exact (UInt64.le_iff_toNat_le.mp hfirst).trans (Nat.le_add_right _ _)
  obtain ⟨last, recovery, walLane, files', hlast, hnone, hok, hrecords, hlane, hidentity, htarget,
      hhealth, hready⟩ :=
    @recoverFrom_files crc32c _ _ _ _ _ _
      (.new place.lane (place.identity (incarnation + 1)) place.targetBytes) floor hadvanced
      hfloor.lane hbatch hsegment rfl hstable
  have htotal : allBatches dropped ++ (allBatches kept ++ (settled ++ last)) =
      batches ++ (extra ++ last) := by
    rw [← List.append_assoc (allBatches kept), ← List.append_assoc, hbatches, List.append_assoc]
  -- a batch behind the settled ones is either in a whole file or at the loose end, not in both
  have hmany : Trailing offered (extra ++ last) ∧
      first.toNat + (batches ++ (extra ++ last)).length < 2 ^ 64 := by
    rcases hquiet with hshort | ⟨rfl, hspace⟩
    · rw [hnone hshort, List.append_nil]
      exact ⟨hextra, hfits⟩
    · refine ⟨hlast, ?_⟩
      have hone := hlast.1
      rw [List.nil_append, List.length_append]
      omega
  have hcount := congrArg List.length htotal
  rw [List.length_append] at hcount
  have hnext := hfloor.nextBatch
  have hgrown : (batches ++ (extra ++ last)).length = batches.length + (extra ++ last).length :=
    List.length_append
  obtain ⟨whole', stub, hwhole, hkept, hready, hstub, hempty⟩ := hready (by omega) (by omega)
  have hplace : walLane.lane = place.lane := hlane
  rw [hfloor.firstSegment, hfloor.firstBatch, ← hplace] at hready
  rw [hfloor.firstSegment] at hstub
  obtain ⟨hover, htidy, hstands⟩ := hready.over_floor (fun held hmem ↦ by
      rw [hidentity]
      exact hlater.writers held (List.mem_append_left _ hmem)) hstub (by
    refine hanchored.imp_right fun hsome ↦ not_and_or.mp fun hnil ↦ ?_
    rw [hnil.1, List.prefix_nil] at hwhole
    exact hsome.elim (· hwhole) (· (hempty hnil.1 hnil.2)))
  have hbatches' : allBatches (dropped ++ whole') = batches ++ (extra ++ last) := by
    rw [allBatches_append, hkept, htotal]
  refine ⟨extra ++ last, _, dropped ++ whole', recovery, walLane, files', hmany.1, hok, htotal,
    hrecords, List.prefix_append _ _, hbatches', ⟨hlane, hidentity, htarget, ?_, Or.inl ⟨?_, stub,
      hover⟩⟩, htidy, hstands⟩
  · rw [hhealth]
    exact fun hfailed ↦ nomatch hfailed
  · rw [hbatches']
    exact hmany.2

/-- The acknowledged batches stay where they are. -/
theorem getElem_batchesOf_append {number : UInt64} {batch : Batch}
    {more : List (WrittenBatch crc32c)}
    (h : 1 ≤ number ∧ number.toNat ≤ batches.length ∧
      (batchesOf batches)[number.toNat - 1]? = some batch) :
    1 ≤ number ∧ number.toNat ≤ (batches ++ more).length ∧
      (batchesOf (batches ++ more))[number.toNat - 1]? = some batch := by
  obtain ⟨hpos, hle, hget⟩ := h
  have hone : 1 ≤ number.toNat := UInt64.le_iff_toNat_le.mp hpos
  refine ⟨hpos, ?_, ?_⟩
  · rw [List.length_append]
    omega
  · rwa [batchesOf_append, List.getElem?_append_left (by rw [length_batchesOf]; omega)]

/-- A batch acknowledged under the next number comes after the others. -/
theorem acknowledged_next {acknowledged : List (UInt64 × Batch)} {number : UInt64}
    {written : WrittenBatch crc32c} (hascending : (acknowledged.map Prod.fst).Pairwise (· < ·))
    (h : ∀ entry ∈ acknowledged, 1 ≤ entry.1 ∧ entry.1.toNat ≤ batches.length ∧
      (batchesOf batches)[entry.1.toNat - 1]? = some entry.2)
    (hnumber : number.toNat = 1 + batches.length) :
    ((acknowledged ++ [(number, written.batch)]).map Prod.fst).Pairwise (· < ·) ∧
      ∀ entry ∈ acknowledged ++ [(number, written.batch)], 1 ≤ entry.1 ∧
        entry.1.toNat ≤ (batches ++ [written]).length ∧
        (batchesOf (batches ++ [written]))[entry.1.toNat - 1]? = some entry.2 := by
  rw [List.map_append, List.forall_mem_append, List.forall_mem_singleton]
  refine ⟨List.pairwise_append.mpr ⟨hascending, List.pairwise_singleton _ _, ?_⟩,
    fun entry hmem ↦ getElem_batchesOf_append (h entry hmem), ?_, ?_, ?_⟩
  · intro other hmem last hlast
    obtain ⟨entry, hentry, rfl⟩ := List.mem_map.mp hmem
    obtain rfl := List.mem_singleton.mp hlast
    have hle := (h entry hentry).2.1
    rw [UInt64.lt_iff_toNat_lt, hnumber]
    omega
  · rw [UInt64.le_iff_toNat_le, hnumber, UInt64.toNat_one]
    omega
  · rw [hnumber, List.length_append, List.length_singleton]
    omega
  · rw [hnumber, Nat.add_sub_cancel_left, batchesOf_append, List.getElem?_append_right]
    · simp [batchesOf]
    · rw [length_batchesOf]

end Transitions

end Kivi.Durability
