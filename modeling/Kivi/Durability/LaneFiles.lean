import Kivi.Durability.Lane

/-!
# What a lane leaves on disk

The files of a lane are, in their order, those below the floor, files of whole batches that are
all on stable storage, and at most one file with a loose end: a header that is not all there, or
batches behind which another batch was begun. `recoverFrom_files` says what recovery makes of
them: it returns the records of the whole batches, and cuts the loose end off.
-/

namespace Kivi.Durability

open Library Library.OrderedMaps

variable {crc32c : Checksum}

/-! ### Files of whole batches -/

theorem add_ofNat_add (first : UInt64) (some more : Nat) :
    first + UInt64.ofNat some + UInt64.ofNat more = first + UInt64.ofNat (some + more) := by
  rw [UInt64.ofNat_add, UInt64.add_assoc]

/-- What a file of whole batches holds, and the process that began it. -/
structure Segment (crc32c : Checksum) where
  writer : LaneIdentity
  batches : List (WrittenBatch crc32c)

variable {lane : UInt16} {seq first : UInt64}

namespace Segment

def bytes (held : Segment crc32c) (lane : UInt16) (seq first : UInt64) : Bytes :=
  segmentHeader crc32c lane held.writer seq ++ framesOf lane seq first held.batches

/-- The batches of consecutive files. -/
def allBatches (segments : List (Segment crc32c)) : List (WrittenBatch crc32c) :=
  segments.flatMap (·.batches)

@[simp] theorem allBatches_nil : allBatches ([] : List (Segment crc32c)) = [] := rfl

@[simp] theorem allBatches_cons (held : Segment crc32c) (rest : List (Segment crc32c)) :
    allBatches (held :: rest) = held.batches ++ allBatches rest := rfl

@[simp] theorem allBatches_append (front back : List (Segment crc32c)) :
    allBatches (front ++ back) = allBatches front ++ allBatches back := List.flatMap_append

/-- The files of consecutive segments, the first with the given number and first batch. -/
def files (lane : UInt16) : UInt64 → UInt64 → List (Segment crc32c) → List (UInt64 × SegmentFile)
  | _, _, [] => []
  | seq, first, held :: rest =>
    (seq, ⟨held.bytes lane seq first, (held.bytes lane seq first).length⟩) ::
      files lane (seq + 1) (first + UInt64.ofNat held.batches.length) rest

@[simp] theorem length_files (lane : UInt16) (seq first : UInt64)
    (segments : List (Segment crc32c)) :
    (files lane seq first segments).length = segments.length := by
  induction segments generalizing seq first with
  | nil => rfl
  | cons held rest ih => rw [files, List.length_cons, ih, List.length_cons]

theorem files_eq_nil {segments : List (Segment crc32c)} :
    files lane seq first segments = [] ↔ segments = [] := by
  rw [← List.length_eq_zero_iff, length_files, List.length_eq_zero_iff]

theorem files_append (lane : UInt16) (seq first : UInt64) (front back : List (Segment crc32c)) :
    files lane seq first (front ++ back) =
      files lane seq first front ++
        files lane (seq + UInt64.ofNat front.length)
          (first + UInt64.ofNat (allBatches front).length) back := by
  induction front generalizing seq first with
  | nil => simp [files]
  | cons held rest ih =>
    rw [List.cons_append, files, ih, files, List.cons_append, List.length_cons, succ_add_ofNat,
      allBatches_cons, List.length_append, add_ofNat_add]

end Segment

open Segment

/-! ### The loose end -/

/-- One of the offered batches was begun under the given number, and maybe finished. -/
def Begun (crc32c : Checksum) (offered : Batch → Prop) (lane : UInt16)
    (seq batchSeq : UInt64) (part : Bytes) : Prop :=
  part = [] ∨ ∃ written : WrittenBatch crc32c, offered written.batch ∧
    part <+: written.frame lane seq batchSeq

/-- At most one batch, and one that was offered. -/
def Trailing (offered : Batch → Prop) (extra : List (WrittenBatch crc32c)) : Prop :=
  extra.length ≤ 1 ∧ ∀ written ∈ extra, offered written.batch

variable {offered : Batch → Prop}

theorem Trailing.nil : Trailing offered ([] : List (WrittenBatch crc32c)) :=
  ⟨Nat.zero_le 1, List.forall_mem_nil _⟩

theorem Trailing.singleton {written : WrittenBatch crc32c} (h : offered written.batch) :
    Trailing offered [written] := ⟨Nat.le_refl 1, List.forall_mem_singleton.mpr h⟩

theorem Begun.take {batchSeq : UInt64} {part : Bytes}
    (h : Begun crc32c offered lane seq batchSeq part) (kept : Nat) :
    Begun crc32c offered lane seq batchSeq (part.take kept) := by
  rcases h with rfl | ⟨written, hoffered, hpart⟩
  · exact Or.inl List.take_nil
  · exact Or.inr ⟨written, hoffered, (List.take_prefix kept part).trans hpart⟩

theorem Begun.cutOff_or_frame {batchSeq : UInt64} {part : Bytes}
    (h : Begun crc32c offered lane seq batchSeq part) :
    CutOff crc32c lane seq batchSeq part ∨
      ∃ written : WrittenBatch crc32c, offered written.batch ∧
        part = written.frame lane seq batchSeq := by
  rcases h with rfl | ⟨written, hoffered, hpart⟩
  · exact Or.inl (Or.inl rfl)
  by_cases hcut : part.length < (written.frame lane seq batchSeq).length
  · exact Or.inl (Or.inr ⟨written, hpart, hcut⟩)
  · exact Or.inr ⟨written, hoffered, hpart.eq_of_length_le (Nat.not_lt.mp hcut)⟩

/-- The file behind the whole ones, if there is one, and the batches that are settled in it. -/
inductive LooseEnd (crc32c : Checksum) (offered : Batch → Prop) (lane : UInt16)
    (identity : LaneIdentity) (seq first : UInt64) :
    List (WrittenBatch crc32c) → List (UInt64 × SegmentFile) → Prop where
  | nothing : LooseEnd crc32c offered lane identity seq first [] []
  | short {file : SegmentFile} (hshort : file.bytes.length < segmentHeaderLen) :
    LooseEnd crc32c offered lane identity seq first [] [(seq, file)]
  | begun {held : Segment crc32c} {part : Bytes} {synced : Nat}
    (hwriter : held.writer.Precedes identity)
    (hpart : Begun crc32c offered lane seq (first + UInt64.ofNat held.batches.length) part)
    (hsynced : held.batches ≠ [] → (held.bytes lane seq first).length ≤ synced) :
    LooseEnd crc32c offered lane identity seq first held.batches
      [(seq, ⟨held.bytes lane seq first ++ part, synced⟩)]

/-- What a crash leaves of a file: at least what was synced, and that is then stable. -/
def SegmentFile.cut (file : SegmentFile) (keep : Nat) : SegmentFile :=
  let kept := file.bytes.take (max file.synced keep)
  ⟨kept, kept.length⟩

variable {settled : List (WrittenBatch crc32c)} {loose : List (UInt64 × SegmentFile)}

/-- A crash cuts a loose end to a loose end. -/
theorem LooseEnd.cut {identity : LaneIdentity}
    (h : LooseEnd crc32c offered lane identity seq first settled loose) (keep : UInt64 → Nat) :
    LooseEnd crc32c offered lane identity seq first settled
      (loose.map fun entry ↦ (entry.1, entry.2.cut (keep entry.1))) := by
  cases h with
  | nothing => exact .nothing
  | @short file hshort =>
    refine .short (lt_of_le_of_lt ?_ hshort)
    rw [SegmentFile.cut, List.length_take]
    exact min_le_right _ _
  | @begun held part synced hwriter hpart hsynced =>
    set kept := max synced (keep seq) with hkept
    by_cases hwhole : (held.bytes lane seq first).length ≤ kept
    · have htake : (held.bytes lane seq first ++ part).take kept =
          held.bytes lane seq first ++ part.take (kept - (held.bytes lane seq first).length) := by
        rw [List.take_append, List.take_of_length_le hwhole]
      simp only [List.map_cons, List.map_nil, SegmentFile.cut, ← hkept, htake]
      refine .begun hwriter (hpart.take _) fun _ ↦ ?_
      rw [List.length_append]
      omega
    · have hnone : held.batches = [] := by
        by_contra hsome
        have hlength := hsynced hsome
        omega
      have hheader : (held.bytes lane seq first).length = segmentHeaderLen := by
        rw [Segment.bytes, hnone, framesOf, List.append_nil, length_segmentHeader]
      rw [hnone]
      refine .short ?_
      simp only [SegmentFile.cut, ← hkept, List.length_take]
      omega

/-! ### All files -/

/-- No file grows beyond the target or what one batch needs. -/
def sizeBound (targetBytes : UInt64) : Nat :=
  max targetBytes.toNat (segmentHeaderLen + (batchHeaderLen + walMaxBodyBytes + batchFooterLen))

theorem sizeBound_le_readCap (targetBytes : UInt64) :
    sizeBound targetBytes ≤ LocalWalLane.readCap targetBytes := by
  have hfits : targetBytes.toNat < 2 ^ 64 := targetBytes.toNat_lt
  unfold sizeBound LocalWalLane.readCap segmentHeaderLen batchHeaderLen walMaxBodyBytes
    batchFooterLen
  omega

/-- The files of a lane whose floor is at segment `base` and batch `first`: those below it, whole
ones, and the loose end. -/
structure OnDisk {crc32c : Checksum} (offered : Batch → Prop) (lane : UInt16)
    (identity : LaneIdentity) (targetBytes base first : UInt64) (files : LaneDirectory)
    (below : List (UInt64 × SegmentFile)) (whole : List (Segment crc32c))
    (settled : List (WrittenBatch crc32c)) (loose : List (UInt64 × SegmentFile)) : Prop where
  toList : files.toList = below ++ (Segment.files lane base first whole ++ loose)
  below : ∀ entry ∈ below, entry.1 < base
  writers : ∀ held ∈ whole, held.writer.Precedes identity
  loose : LooseEnd crc32c offered lane identity (base + UInt64.ofNat whole.length)
    (first + UInt64.ofNat (allBatches whole).length) settled loose
  sizes : ∀ entry ∈ files.toList, entry.2.bytes.length ≤ sizeBound targetBytes

theorem Segment.keys_files_ge {base : UInt64} {whole : List (Segment crc32c)}
    (hsorted : (Segment.files lane base first whole ++ loose).Pairwise
      fun a b ↦ compare a.1 b.1 = .lt)
    (hloose : ∀ entry ∈ loose, whole = [] → entry.1 = base) :
    ∀ entry ∈ Segment.files lane base first whole ++ loose, base ≤ entry.1 := by
  cases whole with
  | nil =>
    intro entry hmem
    rw [hloose entry hmem rfl]
    exact UInt64.le_refl _
  | cons held rest =>
    rw [files, List.cons_append] at hsorted ⊢
    intro entry hmem
    rcases List.mem_cons.mp hmem with rfl | hmem
    · exact UInt64.le_refl _
    · exact UInt64.le_of_lt (Std.compare_eq_lt.mp ((List.pairwise_cons.mp hsorted).1 entry hmem))

theorem LooseEnd.key_eq {identity : LaneIdentity}
    (h : LooseEnd crc32c offered lane identity seq first settled loose) :
    ∀ entry ∈ loose, entry.1 = seq := by
  cases h with
  | nothing => exact List.forall_mem_nil _
  | short hshort => simp
  | begun hwriter hpart hsynced => simp

section Recovery

variable {lane : UInt16} {identity : LaneIdentity} {targetBytes base first : UInt64}
  {files : LaneDirectory} {below loose : List (UInt64 × SegmentFile)}
  {whole : List (Segment crc32c)} {settled : List (WrittenBatch crc32c)}

/-- The files from the floor on. -/
theorem OnDisk.retained (h : OnDisk offered lane identity targetBytes base first files below
      whole settled loose) :
    (files.keys.filter fun seq ↦ decide (base ≤ seq)) =
      (Segment.files lane base first whole ++ loose).map Prod.fst := by
  have hsorted := files.ordered_keys_toList
  rw [h.toList] at hsorted
  have hge := keys_files_ge (List.pairwise_append.mp hsorted).2.1 fun entry hmem hnil ↦ by
    rw [h.loose.key_eq entry hmem, hnil]
    exact UInt64.add_zero base
  rw [← Std.ExtTreeMap.map_fst_toList_eq_keys, h.toList, List.map_append, List.filter_append,
    List.filter_eq_nil_iff.mpr, List.nil_append, List.filter_eq_self.mpr]
  · intro seq hmem
    obtain ⟨entry, hentry, rfl⟩ := List.mem_map.mp hmem
    exact decide_eq_true (hge entry hentry)
  · intro seq hmem
    obtain ⟨entry, hentry, rfl⟩ := List.mem_map.mp hmem
    simpa using h.below entry hentry

theorem checkGaps_files (whole : List (Segment crc32c)) (base first : UInt64)
    (rest : List UInt64) :
    LocalWalLane.checkGaps lane base ((Segment.files lane base first whole).map Prod.fst ++ rest) =
      LocalWalLane.checkGaps lane (base + UInt64.ofNat whole.length) rest := by
  induction whole generalizing base first with
  | nil => simp [Segment.files]
  | cons held others ih =>
    rw [Segment.files, List.map_cons, List.cons_append, LocalWalLane.checkGaps,
      if_neg (not_not.mpr rfl), ih, List.length_cons, succ_add_ofNat]

theorem OnDisk.checkGaps (h : OnDisk offered lane identity targetBytes base first files below
      whole settled loose) :
    LocalWalLane.checkGaps lane base
      ((Segment.files lane base first whole ++ loose).map Prod.fst) = .ok () := by
  rw [List.map_append, checkGaps_files]
  cases h.loose with
  | nothing => rfl
  | short | begun => simp [LocalWalLane.checkGaps]

/-- The first batch of the last of consecutive files. -/
def Segment.lastFirst (first : UInt64) (segments : List (Segment crc32c)) : UInt64 :=
  first + UInt64.ofNat (allBatches segments.dropLast).length

theorem Segment.lastFirst_concat (first : UInt64) (front : List (Segment crc32c))
    (held : Segment crc32c) :
    lastFirst first (front ++ [held]) = first + UInt64.ofNat (allBatches front).length := by
  rw [lastFirst, List.dropLast_concat]

theorem Segment.lastFirst_cons (held next : Segment crc32c) (rest : List (Segment crc32c))
    (first : UInt64) :
    lastFirst first (held :: next :: rest) =
      lastFirst (first + UInt64.ofNat held.batches.length) (next :: rest) := by
  rw [lastFirst, List.dropLast_cons_cons, allBatches_cons, List.length_append, ← add_ofNat_add]
  rfl

variable {walLane : LocalWalLane} {found : LocalWalLane.RecoveryScan}

theorem scanRetained_cons {rest : List UInt64} {file : SegmentFile} {scanned : ScannedSegment}
    (hfile : found.files[seq]? = some file)
    (hsize : file.bytes.length ≤ LocalWalLane.readCap walLane.targetBytes)
    (hscan : scanSegment crc32c walLane.lane walLane.identity seq file.bytes rest.isEmpty
      found.state = .ok scanned) :
    walLane.scanRetained crc32c (seq :: rest) found =
      walLane.scanRetained crc32c rest
        { state := scanned.state
          activeFirstBatch := if rest.isEmpty then found.state.expected else found.activeFirstBatch
          truncated := found.truncated + scanned.truncated
          files := if 0 < scanned.truncated
            then found.files.insert seq ⟨file.bytes.take scanned.kept, scanned.kept⟩
            else found.files } := by
  have hread : ¬LocalWalLane.readCap walLane.targetBytes < file.bytes.length := Nat.not_lt.mpr hsize
  rw [LocalWalLane.scanRetained]
  simp only [bind, Except.bind, throw, throwThe, MonadExceptOf.throw, hfile, Option.getD_some,
    if_neg hread, hscan]

/-- The loop passes over files of whole batches. -/
theorem scanRetained_whole {walLane : LocalWalLane} {whole : List (Segment crc32c)}
    {base first : UInt64} {rest : List UInt64} {found : LocalWalLane.RecoveryScan}
    (hget : ∀ entry ∈ Segment.files walLane.lane base first whole,
      found.files[entry.1]? = some entry.2 ∧
        entry.2.bytes.length ≤ LocalWalLane.readCap walLane.targetBytes)
    (hwriters : ∀ held ∈ whole, held.writer.Precedes walLane.identity)
    (hexpected : found.state.expected = first) :
    walLane.scanRetained crc32c
        ((Segment.files walLane.lane base first whole).map Prod.fst ++ rest) found =
      walLane.scanRetained crc32c rest
        { found with
          state := found.state.past (allBatches whole)
          activeFirstBatch := if rest = [] ∧ whole ≠ [] then lastFirst first whole
            else found.activeFirstBatch } := by
  induction whole generalizing base first found with
  | nil =>
    subst hexpected
    simp [Segment.files, ScanState.past, batchesOf, recordsOf]
  | cons held others ih =>
    subst hexpected
    obtain ⟨hfile, hsize⟩ := hget _ List.mem_cons_self
    have hscan := scanSegment_whole (hwriters held List.mem_cons_self) walLane.lane base
      ((Segment.files walLane.lane (base + 1)
        (found.state.expected + UInt64.ofNat held.batches.length) others).map Prod.fst ++
          rest).isEmpty found.state held.batches
    rw [Segment.files, List.map_cons, List.cons_append, scanRetained_cons hfile hsize hscan,
      if_neg (Nat.lt_irrefl 0)]
    refine (@ih (base + 1) _ ⟨found.state.past held.batches, _, _, found.files⟩ ?_ ?_ rfl).trans ?_
    · exact fun entry hmem ↦ hget entry (List.mem_cons_of_mem _ hmem)
    · exact fun other hmem ↦ hwriters other (List.mem_cons_of_mem _ hmem)
    dsimp only
    congr 2
    · rw [allBatches_cons, ScanState.past_append]
    · cases others with
      | nil =>
        cases rest with
        | nil => simp [Segment.files, lastFirst]
        | cons seq rest => simp [Segment.files]
      | cons next others =>
        cases rest with
        | nil => simp [ScanState.past, lastFirst_cons]
        | cons seq rest => simp [Segment.files]

/-- What recovery leaves of the loose end: nothing, an empty file, or a file of whole batches. -/
inductive CleanEnd (crc32c : Checksum) (lane : UInt16) (identity : LaneIdentity)
    (seq first : UInt64) : List (WrittenBatch crc32c) → List (UInt64 × SegmentFile) → Prop where
  | nothing : CleanEnd crc32c lane identity seq first [] []
  | empty : CleanEnd crc32c lane identity seq first [] [(seq, ⟨[], 0⟩)]
  | whole {held : Segment crc32c} (hwriter : held.writer.Precedes identity) :
    CleanEnd crc32c lane identity seq first held.batches
      [(seq, ⟨held.bytes lane seq first, (held.bytes lane seq first).length⟩)]

/-- Recovery cuts the last file behind the bytes it keeps. -/
theorem toList_cut_last {seq : UInt64} {front : List (UInt64 × SegmentFile)}
    {bytes part : Bytes} {synced : Nat}
    (htoList : files.toList = front ++ [(seq, ⟨bytes ++ part, synced⟩)])
    (hstable : synced = (bytes ++ part).length) :
    (if 0 < part.length
      then files.insert seq ⟨(bytes ++ part).take bytes.length, bytes.length⟩
      else files).toList = front ++ [(seq, ⟨bytes, bytes.length⟩)] := by
  by_cases hempty : part = []
  · subst hempty hstable
    simpa using htoList
  · rw [if_pos (List.length_pos_iff.mpr hempty), List.take_left]
    exact toList_insert_at _ htoList

theorem Segment.bytes_append (held : Segment crc32c) (written : WrittenBatch crc32c)
    (lane : UInt16) (seq first : UInt64) :
    (Segment.mk held.writer (held.batches ++ [written])).bytes lane seq first =
      held.bytes lane seq first ++
        written.frame lane seq (first + UInt64.ofNat held.batches.length) := by
  simp only [bytes, framesOf_append, framesOf, List.append_nil, List.append_assoc]

/-- Recovery keeps the files and makes none of them longer. -/
def Shortened (clean loose : List (UInt64 × SegmentFile)) : Prop :=
  List.Forall₂ (fun kept found ↦ kept.1 = found.1 ∧
    kept.2.bytes.length ≤ found.2.bytes.length) clean loose

theorem Shortened.singleton {kept found : SegmentFile}
    (h : kept.bytes.length ≤ found.bytes.length) : Shortened [(seq, kept)] [(seq, found)] :=
  .cons ⟨rfl, h⟩ .nil

namespace Shortened

variable {clean : List (UInt64 × SegmentFile)} (h : Shortened clean loose)

include h

theorem keys_eq : clean.map Prod.fst = loose.map Prod.fst := by
  induction h with
  | nil => rfl
  | cons hentry _ ih => rw [List.map_cons, List.map_cons, hentry.1, ih]

theorem eq_nil_iff : clean = [] ↔ loose = [] := by
  rw [← List.length_eq_zero_iff, ← List.length_eq_zero_iff, List.Forall₂.length_eq h]

theorem length_le {bound : Nat} (hloose : ∀ entry ∈ loose, entry.2.bytes.length ≤ bound) :
    ∀ entry ∈ clean, entry.2.bytes.length ≤ bound := by
  induction h with
  | nil => exact List.forall_mem_nil _
  | cons hentry _ ih =>
    rw [List.forall_mem_cons] at hloose ⊢
    exact ⟨hentry.2.trans hloose.1, ih hloose.2⟩

end Shortened

section

variable {walLane : LocalWalLane} (hstable : ∀ entry ∈ loose, entry.2.synced = entry.2.bytes.length)

include hstable

/-- The scan of the loose end returns what is settled in it, and at most one batch more. -/
theorem scanRetained_loose {seq first : UInt64} {front : List (UInt64 × SegmentFile)}
    {found : LocalWalLane.RecoveryScan}
    (h : LooseEnd crc32c offered walLane.lane walLane.identity seq first settled loose)
    (htoList : found.files.toList = front ++ loose)
    (hsize : ∀ entry ∈ loose, entry.2.bytes.length ≤ LocalWalLane.readCap walLane.targetBytes)
    (hexpected : found.state.expected = first) :
    ∃ extra clean after, walLane.scanRetained crc32c (loose.map Prod.fst) found = .ok after ∧
      Trailing offered extra ∧
      ((∀ entry ∈ loose, entry.2.bytes.length ≤ segmentHeaderLen) → extra = []) ∧
      CleanEnd crc32c walLane.lane walLane.identity seq first (settled ++ extra) clean ∧
      Shortened clean loose ∧ after.files.toList = front ++ clean ∧
      after.state = found.state.past (settled ++ extra) ∧
      after.activeFirstBatch = (if loose = [] then found.activeFirstBatch else first) := by
  subst hexpected
  have hfile : ∀ entry ∈ loose, found.files[entry.1]? = some entry.2 := by
    intro entry hmem
    rw [← Std.ExtTreeMap.mem_toList_iff_getElem?_eq_some, htoList]
    exact List.mem_append_right front hmem
  cases h with
  | nothing =>
    refine ⟨[], [], found, rfl, Trailing.nil, fun _ ↦ rfl, .nothing, .nil, htoList, ?_, rfl⟩
    simp [ScanState.past, batchesOf, recordsOf]
  | @short file hshort =>
    have hscan := @scanSegment_short crc32c walLane.lane walLane.identity seq file.bytes hshort
      found.state
    refine ⟨[], [(seq, ⟨[], 0⟩)], _, scanRetained_cons (hfile _ List.mem_cons_self)
      (hsize _ List.mem_cons_self) hscan, Trailing.nil, fun _ ↦ rfl, .empty,
      .singleton (Nat.zero_le _), ?_, ?_, rfl⟩
    · exact @toList_cut_last _ seq front [] file.bytes file.synced htoList
        (hstable _ List.mem_cons_self)
    · simp [ScanState.past, batchesOf, recordsOf]
  | @begun held part synced hwriter hpart hsynced =>
    rcases hpart.cutOff_or_frame with hcut | ⟨written, hoffered, rfl⟩
    · have hscan := scanSegment_torn hwriter hcut
      have hclean := @CleanEnd.whole crc32c walLane.lane _ seq found.state.expected held hwriter
      rw [← List.append_assoc] at hscan
      rw [← List.append_nil held.batches] at hclean
      refine ⟨[], _, _, scanRetained_cons (hfile _ List.mem_cons_self)
        (hsize _ List.mem_cons_self) hscan, Trailing.nil, fun _ ↦ rfl, hclean,
        .singleton (by rw [List.length_append]; exact Nat.le_add_right _ _), ?_, ?_, rfl⟩
      · have hkept : segmentHeaderLen +
            (framesOf walLane.lane seq found.state.expected held.batches).length =
              (held.bytes walLane.lane seq found.state.expected).length := by
          rw [Segment.bytes, List.length_append, length_segmentHeader]
        simp only [hkept]
        exact toList_cut_last htoList (hstable _ List.mem_cons_self)
      · simp
    · have hscan := scanSegment_whole hwriter walLane.lane seq true found.state
        (held.batches ++ [written])
      have hclean := @CleanEnd.whole crc32c walLane.lane _ seq found.state.expected
        ⟨held.writer, held.batches ++ [written]⟩ hwriter
      rw [← bytes_append] at htoList hfile hsize hstable ⊢
      have hlast := hstable _ List.mem_cons_self
      dsimp only at hlast
      subst hlast
      refine ⟨[written], _, _, scanRetained_cons (hfile _ List.mem_cons_self)
        (hsize _ List.mem_cons_self) hscan, .singleton hoffered, fun hshort ↦ ?_, hclean,
        .singleton (Nat.le_refl _), htoList, rfl, rfl⟩
      have hlength := hshort _ List.mem_cons_self
      rw [bytes_append, Segment.bytes, List.length_append, List.length_append,
        length_segmentHeader, WrittenBatch.frame, length_frame, batchHeaderLen] at hlength
      omega

/-- The records that recovery returns, and the batches behind the settled ones. -/
theorem scanRetained_files {start : UInt64}
    (h : OnDisk offered walLane.lane walLane.identity walLane.targetBytes base first files
      below whole settled loose) :
    ∃ extra clean after, walLane.scanRetained crc32c
        ((Segment.files walLane.lane base first whole ++ loose).map Prod.fst)
        ⟨⟨first, []⟩, start, 0, files⟩ = .ok after ∧
      Trailing offered extra ∧
      ((∀ entry ∈ loose, entry.2.bytes.length ≤ segmentHeaderLen) → extra = []) ∧
      CleanEnd crc32c walLane.lane walLane.identity (base + UInt64.ofNat whole.length)
        (first + UInt64.ofNat (allBatches whole).length) (settled ++ extra) clean ∧
      Shortened clean loose ∧
      after.files.toList = below ++ (Segment.files walLane.lane base first whole ++ clean) ∧
      after.state = ScanState.past ⟨first, []⟩ (allBatches whole ++ (settled ++ extra)) ∧
      after.activeFirstBatch =
        (if loose = [] then if whole = [] then start else lastFirst first whole
          else first + UInt64.ofNat (allBatches whole).length) := by
  have hbound : ∀ entry ∈ files.toList,
      entry.2.bytes.length ≤ LocalWalLane.readCap walLane.targetBytes := fun entry hmem ↦
    (h.sizes entry hmem).trans (sizeBound_le_readCap _)
  rw [h.toList] at hbound
  have hget : ∀ entry ∈ Segment.files walLane.lane base first whole,
      files[entry.1]? = some entry.2 ∧
        entry.2.bytes.length ≤ LocalWalLane.readCap walLane.targetBytes := by
    intro entry hmem
    have hthere := List.mem_append_right below (List.mem_append_left loose hmem)
    refine ⟨?_, hbound entry hthere⟩
    rw [← Std.ExtTreeMap.mem_toList_iff_getElem?_eq_some, h.toList]
    exact hthere
  have hwhole := @scanRetained_whole crc32c walLane whole base first (loose.map Prod.fst)
    ⟨⟨first, []⟩, start, 0, files⟩ hget h.writers rfl
  rw [List.map_append, hwhole]
  obtain ⟨extra, clean, after, hscan, hextra, hnone, hclean, hshort, hafter, hstate, hactive⟩ :=
    @scanRetained_loose crc32c offered loose settled walLane hstable _ _
      (below ++ Segment.files walLane.lane base first whole)
      ⟨.past ⟨first, []⟩ (allBatches whole), _, _, files⟩ h.loose
      (by rw [h.toList, List.append_assoc])
      (fun entry hmem ↦ hbound entry (List.mem_append_right _ (List.mem_append_right _ hmem)))
      rfl
  refine ⟨extra, clean, after, hscan, hextra, hnone, hclean, hshort, ?_, ?_, ?_⟩
  · rw [hafter, List.append_assoc]
  · rw [hstate, ScanState.past_append]
  · rw [hactive]
    by_cases hloose : loose = []
    · by_cases hwhole : whole = [] <;> simp [hloose, hwhole]
    · rw [if_neg hloose, if_neg hloose]

end

/-! ### A lane that is ready -/

/-- Behind the whole files there is nothing, or a file whose header may not be all there. -/
inductive Stub (crc32c : Checksum) (lane : UInt16) (identity : LaneIdentity)
    (seq : UInt64) : List (UInt64 × SegmentFile) → Prop where
  | nothing : Stub crc32c lane identity seq []
  | short {file : SegmentFile} (hshort : file.bytes.length < segmentHeaderLen) :
    Stub crc32c lane identity seq [(seq, file)]
  | header {writer : LaneIdentity} {synced : Nat} (hwriter : writer.Precedes identity) :
    Stub crc32c lane identity seq [(seq, ⟨segmentHeader crc32c lane writer seq, synced⟩)]

/-- The lane knows where its last whole file ends, or stands on a stub that recovery left. -/
structure Ready {crc32c : Checksum} (base first : UInt64) (walLane : LocalWalLane)
    (files : LaneDirectory) (below : List (UInt64 × SegmentFile)) (whole : List (Segment crc32c))
    (stub : List (UInt64 × SegmentFile)) : Prop where
  disk : OnDisk (fun _ ↦ False) walLane.lane walLane.identity walLane.targetBytes base first
    files below whole [] stub
  behind : Stub crc32c walLane.lane walLane.identity (base + UInt64.ofNat whole.length) stub
  next : walLane.nextBatchSeq = first + UInt64.ofNat (allBatches whole).length
  active : walLane.segmentSeq + 1 = base + UInt64.ofNat whole.length ∧
      walLane.activeFirstBatch = lastFirst first whole ∨
    walLane.segmentSeq = base + UInt64.ofNat whole.length ∧
      walLane.activeFirstBatch = first + UInt64.ofNat (allBatches whole).length ∧
      walLane.isOpen = false ∧ ∃ entry ∈ stub, entry.2.bytes.length < segmentHeaderLen
  opened : walLane.isOpen = true → whole ≠ [] ∧
    ∃ file, files[walLane.segmentSeq]? = some file ∧ walLane.segmentBytes = file.bytes.length

theorem max_eq_left_of_le {high low : UInt64} (h : low ≤ high) : max high low = high := by
  rw [UInt64.le_iff_toNat_le] at h
  change (if high ≤ low then low else high) = high
  split_ifs with hle
  · rw [UInt64.le_iff_toNat_le] at hle
    exact UInt64.toNat_inj.mp (Nat.le_antisymm h hle)
  · rfl

theorem LaneFloor.next_of_fits {floor : LaneFloor} {total : Nat} (hfirst : 1 ≤ floor.firstBatch)
    (hfits : floor.firstBatch.toNat + total < 2 ^ 64)
    (hnext : floor.nextBatch.toNat ≤ floor.firstBatch.toNat + total) :
    max (floor.firstBatch + UInt64.ofNat total) (max floor.nextBatch 1) =
      floor.firstBatch + UInt64.ofNat total := by
  have hsum : (floor.firstBatch + UInt64.ofNat total).toNat = floor.firstBatch.toNat + total := by
    rw [UInt64.toNat_add, UInt64.toNat_ofNat', Nat.add_mod_mod, Nat.mod_eq_of_lt hfits]
  have hone : (1 : UInt64).toNat = 1 := rfl
  rw [UInt64.le_iff_toNat_le] at hfirst
  refine max_eq_left_of_le ?_
  change (if floor.nextBatch ≤ 1 then 1 else floor.nextBatch) ≤ _
  split_ifs with hle
  · rw [UInt64.le_iff_toNat_le, hsum]
    omega
  · rw [UInt64.le_iff_toNat_le, hsum]
    exact hnext

theorem recoverFrom_of_scan {floor : LaneFloor} {retained : List UInt64}
    (hlane : floor.lane = walLane.lane) (hfirst : 1 ≤ floor.firstBatch)
    (hretained : (files.keys.filter fun seq ↦ decide (floor.firstSegment ≤ seq)) = retained)
    (hgaps : LocalWalLane.checkGaps walLane.lane floor.firstSegment retained = .ok ())
    (hscan : walLane.scanRetained crc32c retained
      ⟨⟨floor.firstBatch, []⟩, walLane.activeFirstBatch, 0, files⟩ = .ok found) :
    walLane.recoverFrom crc32c floor files =
      .ok (⟨found.state.records, retained.length, found.truncated⟩,
        { walLane with
          segmentSeq := retained.getLast?.getD (max (files.keys.getLast?.getD 0)
            (if floor.firstSegment = 0 then 0 else floor.firstSegment - 1))
          nextBatchSeq := max found.state.expected (max floor.nextBatch 1)
          activeFirstBatch := if retained.isEmpty
            then max found.state.expected (max floor.nextBatch 1) else found.activeFirstBatch },
        found.files) := by
  have hmax : max floor.firstBatch 1 = floor.firstBatch := max_eq_left_of_le hfirst
  simp only [LocalWalLane.recoverFrom, bind, Except.bind, pure, Except.pure, throw, throwThe,
    MonadExceptOf.throw, if_neg (not_not.mpr hlane), hmax, hretained, hgaps, hscan]

/-- Cutting a file that was scanned keeps `P`. -/
def KeptByCut (crc32c : Checksum) (walLane : LocalWalLane) (P : LaneDirectory → Prop)
    (seq : UInt64) : Prop :=
  ∀ {files : LaneDirectory} {last : Bool} {state : ScanState} {scanned : ScannedSegment}, P files →
    scanSegment crc32c walLane.lane walLane.identity seq (files[seq]?.getD ⟨[], 0⟩).bytes last
      state = .ok scanned → 0 < scanned.truncated → ∀ file, P (files.insert seq file)

/-- What holds of the files holds after the loop, if cutting keeps it. -/
theorem scanRetained_invariant {P : LaneDirectory → Prop} {seqs : List UInt64}
    {after : LocalWalLane.RecoveryScan} (hcut : ∀ seq ∈ seqs, KeptByCut crc32c walLane P seq)
    (hfound : P found.files) (h : walLane.scanRetained crc32c seqs found = .ok after) :
    P after.files := by
  induction seqs generalizing found with
  | nil =>
    cases h
    exact hfound
  | cons head rest ih =>
    simp only [LocalWalLane.scanRetained, bind, Except.bind, throw, throwThe, MonadExceptOf.throw]
      at h
    split at h
    · cases h
    cases hscan : scanSegment crc32c walLane.lane walLane.identity head
        (found.files[head]?.getD ⟨[], 0⟩).bytes rest.isEmpty found.state with
    | error error =>
      rw [hscan] at h
      cases h
    | ok scanned =>
      rw [hscan] at h
      refine ih (fun seq hmem ↦ hcut seq (List.mem_cons_of_mem _ hmem)) ?_ h
      dsimp only
      split_ifs with htruncated
      · exact hcut head List.mem_cons_self hfound hscan htruncated _
      · exact hfound

/-- The same of a recovery, which neither opens nor closes the lane. -/
theorem recoverFrom_invariant {P : LaneDirectory → Prop} {floor : LaneFloor}
    {recovery : LocalWalLane.LaneRecovery} {after : LocalWalLane} {files' : LaneDirectory}
    (hcut : ∀ seq ∈ files, KeptByCut crc32c walLane P seq) (hfiles : P files)
    (h : walLane.recoverFrom crc32c floor files = .ok (recovery, after, files')) :
    P files' ∧ after.isOpen = walLane.isOpen := by
  simp only [LocalWalLane.recoverFrom, bind, Except.bind, pure, Except.pure, throw, throwThe,
    MonadExceptOf.throw] at h
  split at h
  · cases h
  split at h
  · cases h
  split at h
  · cases h
  next found hscan =>
  cases h
  refine ⟨scanRetained_invariant (fun seq hmem ↦ hcut seq ?_) hfiles hscan, rfl⟩
  exact Std.ExtTreeMap.mem_keys.mp (List.mem_of_mem_filter hmem)

/-- With no file from the floor on, the next segment is the one of the floor. -/
theorem OnDisk.highest (h : OnDisk offered lane identity targetBytes base first files below
      [] settled []) (hbase : 1 ≤ base) :
    max (files.keys.getLast?.getD 0) (if base = 0 then 0 else base - 1) + 1 = base := by
  have hpos : 1 ≤ base.toNat := UInt64.le_iff_toNat_le.mp hbase
  have hzero : base ≠ 0 := by
    rintro rfl
    exact absurd hpos (by decide)
  have hsub : (base - 1).toNat = base.toNat - 1 := UInt64.toNat_sub_of_le _ _ hbase
  have hlast : files.keys.getLast?.getD 0 ≤ base - 1 := by
    rw [UInt64.le_iff_toNat_le, hsub, ← Std.ExtTreeMap.map_fst_toList_eq_keys, h.toList]
    cases hkey : ((below ++ (Segment.files lane base first [] ++ [])).map Prod.fst).getLast? with
    | none => exact Nat.zero_le _
    | some key =>
      obtain ⟨entry, hentry, rfl⟩ := List.mem_map.mp (List.mem_of_getLast? hkey)
      have hless := h.below entry (by simpa [Segment.files] using hentry)
      have hlt := UInt64.lt_iff_toNat_lt.mp hless
      rw [Option.getD_some]
      omega
  have hmax : max (files.keys.getLast?.getD 0) (base - 1) = base - 1 := if_pos hlast
  rw [if_neg hzero, hmax]
  exact UInt64.sub_add_cancel base 1

variable {batches : List (WrittenBatch crc32c)} {clean : List (UInt64 × SegmentFile)}

theorem CleanEnd.eq_nil (h : CleanEnd crc32c lane identity seq first batches clean)
    (hnil : clean = []) :
    batches = [] := by
  cases h with
  | nothing => rfl
  | empty => cases hnil
  | whole hwriter => cases hnil

/-- What a scan leaves is whole segments and at most a stub, and the lane can append behind them. -/
theorem ready_of_clean {highest : UInt64}
    (hclean : CleanEnd crc32c walLane.lane walLane.identity (base + UInt64.ofNat whole.length)
      (first + UInt64.ofNat (allBatches whole).length) batches clean)
    (htoList : files.toList =
      below ++ (Segment.files walLane.lane base first whole ++ clean))
    (hbelow : ∀ entry ∈ below, entry.1 < base)
    (hwriters : ∀ held ∈ whole, held.writer.Precedes walLane.identity)
    (hsizes : ∀ entry ∈ files.toList, entry.2.bytes.length ≤ sizeBound walLane.targetBytes)
    (hclosed : walLane.isOpen = false)
    (hnext : walLane.nextBatchSeq =
      first + UInt64.ofNat (allBatches whole ++ batches).length)
    (hhighest : whole = [] → clean = [] → highest + 1 = base)
    (hseq : walLane.segmentSeq = ((Segment.files walLane.lane base first whole ++ clean).map
      Prod.fst).getLast?.getD highest)
    (hactive : walLane.activeFirstBatch =
      if clean = [] then lastFirst first whole
      else first + UInt64.ofNat (allBatches whole).length) :
    ∃ whole' stub, whole <+: whole' ∧
      allBatches whole' = allBatches whole ++ batches ∧
      Ready base first walLane files below whole' stub ∧
      (stub = [] ∨ walLane.segmentSeq = base + UInt64.ofNat whole'.length) ∧
      (whole' = [] → stub = [] → clean = []) := by
  have hopened {P : Prop} : walLane.isOpen = true → P := by
    rw [hclosed]
    exact fun h ↦ absurd h Bool.false_ne_true
  cases hclean with
  | nothing =>
    refine ⟨whole, [], List.prefix_rfl, (List.append_nil _).symm,
      ⟨⟨htoList, hbelow, hwriters, .nothing, hsizes⟩, .nothing, ?_, Or.inl ⟨?_, hactive⟩, hopened⟩,
      Or.inl rfl, fun _ _ ↦ rfl⟩
    · rw [hnext, List.append_nil]
    · rw [hseq, List.append_nil]
      rcases List.eq_nil_or_concat whole with rfl | ⟨front, held, rfl⟩
      · exact (hhighest rfl rfl).trans (UInt64.add_zero base).symm
      · rw [List.concat_eq_append, List.length_append, List.length_singleton, ← add_ofNat_add]
        simp [files_append, Segment.files]
  | empty =>
    have hempty : ([] : Bytes).length < segmentHeaderLen := by decide
    have hlast : walLane.segmentSeq = base + UInt64.ofNat whole.length := by
      rw [hseq, List.map_append, List.map_cons, List.map_nil, List.getLast?_concat,
        Option.getD_some]
    refine ⟨whole, _, List.prefix_rfl, (List.append_nil _).symm,
      ⟨⟨htoList, hbelow, hwriters, .short hempty, hsizes⟩, .short hempty, ?_,
        Or.inr ⟨hlast, hactive, hclosed, _, List.mem_cons_self, hempty⟩, hopened⟩, Or.inr hlast,
      fun _ hnil ↦ nomatch hnil⟩
    rw [hnext, List.append_nil]
  | @whole held hwriter =>
    refine ⟨whole ++ [held], [], List.prefix_append _ _, ?_, ⟨⟨?_, hbelow, ?_, .nothing, hsizes⟩,
      .nothing, ?_, Or.inl ⟨?_, ?_⟩, hopened⟩, Or.inl rfl, fun hnil ↦ ?_⟩
    · rw [allBatches_append, allBatches_cons, allBatches_nil,
        List.append_nil]
    · rw [htoList, files_append, List.append_nil]
      rfl
    · intro other hmem
      rcases List.mem_append.mp hmem with hmem | hmem
      · exact hwriters other hmem
      · rw [List.mem_singleton.mp hmem]
        exact hwriter
    · rw [hnext, allBatches_append, allBatches_cons, allBatches_nil,
        List.append_nil]
    · rw [hseq, List.map_append, List.map_cons, List.map_nil, List.getLast?_concat,
        Option.getD_some, List.length_append, List.length_singleton, ← add_ofNat_add]
      rfl
    · rw [hactive, lastFirst_concat]
      rfl
    · exact absurd hnil (List.append_ne_nil_of_right_ne_nil _ (List.cons_ne_nil _ _))

/-- What recovery returns, and that the lane is ready again. -/
theorem recoverFrom_files {walLane : LocalWalLane} {floor : LaneFloor}
    (h : OnDisk offered walLane.lane walLane.identity walLane.targetBytes floor.firstSegment
      floor.firstBatch files below whole settled loose)
    (hlane : floor.lane = walLane.lane) (hfirst : 1 ≤ floor.firstBatch)
    (hbase : 1 ≤ floor.firstSegment) (hclosed : walLane.isOpen = false)
    (hstable : ∀ entry ∈ loose, entry.2.synced = entry.2.bytes.length) :
    ∃ extra recovery after files', Trailing offered extra ∧
      ((∀ entry ∈ loose, entry.2.bytes.length ≤ segmentHeaderLen) → extra = []) ∧
      walLane.recoverFrom crc32c floor files = .ok (recovery, after, files') ∧
      recovery.records = recordsOf floor.firstBatch
        (batchesOf (allBatches whole ++ (settled ++ extra))) ∧
      after.lane = walLane.lane ∧ after.identity = walLane.identity ∧
      after.targetBytes = walLane.targetBytes ∧ after.health = walLane.health ∧
      (floor.firstBatch.toNat + (allBatches whole ++ (settled ++ extra)).length < 2 ^ 64 →
        floor.nextBatch.toNat ≤ floor.firstBatch.toNat +
          (allBatches whole ++ (settled ++ extra)).length →
        ∃ whole' stub, whole <+: whole' ∧
          allBatches whole' = allBatches whole ++ (settled ++ extra) ∧
          Ready floor.firstSegment floor.firstBatch after files' below whole' stub ∧
          (stub = [] ∨
            after.segmentSeq = floor.firstSegment + UInt64.ofNat whole'.length) ∧
          (whole' = [] → stub = [] → loose = [])) := by
  obtain ⟨extra, clean, found, hscan, hextra, hnone, hclean, hshort, hfiles, hstate, hactive⟩ :=
    @scanRetained_files crc32c _ _ _ _ _ _ _ _ walLane hstable walLane.activeFirstBatch h
  refine ⟨extra, _, _, _, hextra, hnone,
    recoverFrom_of_scan hlane hfirst h.retained h.checkGaps hscan, ?_, rfl, rfl, rfl, rfl, ?_⟩
  · exact congrArg ScanState.records hstate
  · intro hfits hnext
    have hnumber := LaneFloor.next_of_fits hfirst hfits hnext
    have hsizes := h.sizes
    rw [h.toList, List.forall_mem_append, List.forall_mem_append] at hsizes
    have hhighest : whole = [] → clean = [] → max (files.keys.getLast?.getD 0)
        (if floor.firstSegment = 0 then 0 else floor.firstSegment - 1) + 1 =
          floor.firstSegment := by
      rintro rfl hnil
      obtain rfl := hshort.eq_nil_iff.mp hnil
      exact h.highest hbase
    rw [hstate, ScanState.past, hnumber, ← hshort.eq_nil_iff]
    refine ready_of_clean hclean hfiles h.below h.writers ?_ hclosed rfl hhighest ?_ ?_
    · rw [hfiles, List.forall_mem_append, List.forall_mem_append]
      exact ⟨hsizes.1, hsizes.2.1, hshort.length_le hsizes.2.2⟩
    · rw [List.map_append, List.map_append, hshort.keys_eq]
    · dsimp only
      by_cases hnil : loose = []
      · have hclosing := hshort.eq_nil_iff.mpr hnil
        rw [if_pos hclosing, hactive, if_pos hnil, hclean.eq_nil hclosing, hnil, List.append_nil]
        by_cases hwhole : whole = []
        · rw [hwhole]
          rfl
        · rw [if_neg hwhole, if_neg]
          simpa [files_eq_nil] using hwhole
      · rw [if_neg (mt hshort.eq_nil_iff.mp hnil), hactive, if_neg hnil, if_neg]
        simp [hnil]

/-! ### Another floor -/

variable {dropped kept : List (Segment crc32c)}

/-- The file of a floor is there, if there are files below it. -/
theorem OnDisk.key_mem (h : OnDisk offered lane identity targetBytes base first files below
      (dropped ++ kept) settled loose) (hanchored : kept ≠ [] ∨ loose ≠ []) :
    ∃ file rest, Segment.files lane (base + UInt64.ofNat dropped.length)
        (first + UInt64.ofNat (allBatches dropped).length) kept ++ loose =
      (base + UInt64.ofNat dropped.length, file) :: rest := by
  cases kept with
  | cons held others => exact ⟨_, _, List.cons_append⟩
  | nil =>
    obtain ⟨entry, rest, rfl⟩ := List.exists_cons_of_ne_nil (hanchored.resolve_left (· rfl))
    refine ⟨entry.2, rest, ?_⟩
    have hkey := h.loose.key_eq entry List.mem_cons_self
    rw [List.append_nil] at hkey
    rw [Segment.files, List.nil_append, ← hkey]

/-- Whole files may lie below the floor. -/
theorem OnDisk.advance (h : OnDisk offered lane identity targetBytes base first files []
      (dropped ++ kept) settled loose) (hanchored : dropped = [] ∨ kept ≠ [] ∨ loose ≠ []) :
    OnDisk offered lane identity targetBytes (base + UInt64.ofNat dropped.length)
      (first + UInt64.ofNat (allBatches dropped).length) files
      (Segment.files lane base first dropped) kept settled loose := by
  refine ⟨?_, ?_, fun held hmem ↦ h.writers held (List.mem_append_right _ hmem), ?_, h.sizes⟩
  · rw [h.toList, files_append, List.nil_append, List.append_assoc]
  · rcases hanchored with rfl | hanchored
    · exact List.forall_mem_nil _
    · obtain ⟨file, rest, hnext⟩ := h.key_mem hanchored
      have hsorted := files.ordered_keys_toList
      rw [h.toList, files_append, List.nil_append, List.append_assoc, hnext] at hsorted
      exact fun entry hmem ↦ Std.compare_eq_lt.mp
        ((List.pairwise_append.mp hsorted).2.2 entry hmem _ List.mem_cons_self)
  · have hloose := h.loose
    rwa [List.length_append, allBatches_append, List.length_append, ← add_ofNat_add,
      ← add_ofNat_add] at hloose

theorem OnDisk.base_le (h : OnDisk offered lane identity targetBytes base first files []
      (dropped ++ kept) settled loose) (hanchored : dropped = [] ∨ kept ≠ [] ∨ loose ≠ []) :
    base ≤ base + UInt64.ofNat dropped.length := by
  cases dropped with
  | nil => exact UInt64.le_of_eq (UInt64.add_zero base).symm
  | cons head others => exact UInt64.le_of_lt ((h.advance hanchored).below _ List.mem_cons_self)

/-- A lane that recovered from a floor is ready over all files. -/
theorem Ready.retreat {stub : List (UInt64 × SegmentFile)}
    (h : Ready (base + UInt64.ofNat dropped.length)
      (first + UInt64.ofNat (allBatches dropped).length) walLane files
      (Segment.files walLane.lane base first dropped) kept stub)
    (hwriters : ∀ held ∈ dropped, held.writer.Precedes walLane.identity)
    (hanchored : dropped = [] ∨ kept ≠ [] ∨
      walLane.segmentSeq = base + UInt64.ofNat dropped.length) :
    Ready base first walLane files [] (dropped ++ kept) stub := by
  have hseq : base + UInt64.ofNat (dropped ++ kept).length =
      base + UInt64.ofNat dropped.length + UInt64.ofNat kept.length := by
    rw [List.length_append, add_ofNat_add]
  have hbatch : first + UInt64.ofNat (allBatches (dropped ++ kept)).length =
      first + UInt64.ofNat (allBatches dropped).length +
        UInt64.ofNat (allBatches kept).length := by
    rw [allBatches_append, List.length_append, add_ofNat_add]
  refine ⟨⟨?_, List.forall_mem_nil _, ?_, ?_, h.disk.sizes⟩, ?_, ?_, ?_, ?_⟩
  · rw [h.disk.toList, files_append, List.nil_append, List.append_assoc]
  · intro held hmem
    rcases List.mem_append.mp hmem with hmem | hmem
    · exact hwriters held hmem
    · exact h.disk.writers held hmem
  · rw [hseq, hbatch]
    exact h.disk.loose
  · rw [hseq]
    exact h.behind
  · rw [hbatch]
    exact h.next
  · rw [hseq, hbatch]
    refine h.active.imp_left fun ⟨hactive, hfirst⟩ ↦ ⟨hactive, ?_⟩
    rcases List.eq_nil_or_concat kept with rfl | ⟨front, held, rfl⟩
    · rcases hanchored with rfl | hkept | hlast
      · simpa [lastFirst] using hfirst
      · exact absurd rfl hkept
      · -- the lane would stand on the file behind its own
        rw [hlast, List.length_nil] at hactive
        exact absurd ((UInt64.add_right_inj _).mp hactive) (by decide)
    · rw [List.concat_eq_append] at hfirst ⊢
      rw [hfirst, ← List.append_assoc, lastFirst_concat, lastFirst_concat,
        allBatches_append, List.length_append, add_ofNat_add]
  · exact fun hopen ↦ ⟨List.append_ne_nil_of_right_ne_nil _ (h.opened hopen).1,
      (h.opened hopen).2⟩

end Recovery

end Kivi.Durability
