import Kivi.Durability.Crashes

/-!
# One flipped bit in a segment file

Every byte of a file is covered by a checksum that is compared before the scanner trusts a length:
the segment header by its own, a batch header by its own, the body by the one in the footer and the
footer by its own. So a file whose appends were not interrupted is refused after any change of one
bit (`scanSegment_flipped`), and with it the lane (`recovery_of_flipped_bit`). All that is assumed
of the checksum is that it changes with one bit of its input.
-/

namespace Kivi.Durability

open Library Library.Bytes Library.Crc Library.FramedScan Library.Runs
open State (leU32 length_leU32)
open Std (ExtTreeMap)

variable {crc32c : Checksum}

/-! ### Sealed bytes -/

theorem leU32_injective : Function.Injective leU32 := by
  intro first second h
  have hvalue := congrArg ofLeBytes h
  rw [leU32, leU32, ofLeBytes_leBytes 4 _ first.toNat_lt, ofLeBytes_leBytes 4 _ second.toNat_lt]
    at hvalue
  exact UInt32.toNat_inj.mp hvalue

variable {flipped : Bytes}

/-- Sealed bytes with a flipped bit are not sealed. -/
theorem sealed_flipped (hcrc : ∀ bytes flipped, FlippedBit bytes flipped →
      crc32c bytes ≠ crc32c flipped) {covered other rest rest' : Bytes}
    (h : FlippedBit (sealed crc32c covered) flipped) (hlength : other.length = covered.length) :
    flipped ++ rest ≠ sealed crc32c other ++ rest' := by
  intro heq
  unfold sealed at h heq
  rcases h.of_append with ⟨changed, hchanged, rfl⟩ | ⟨changed, hchanged, rfl⟩
  · rw [List.append_assoc, List.append_assoc] at heq
    obtain ⟨rfl, htail⟩ := List.append_inj heq (hchanged.length_eq.trans hlength.symm)
    have hstored := (List.append_inj htail (by rw [length_leU32, length_leU32])).1
    exact hcrc _ _ hchanged (leU32_injective hstored)
  · rw [List.append_assoc, List.append_assoc] at heq
    obtain ⟨rfl, htail⟩ := List.append_inj heq hlength.symm
    have hstored := (List.append_inj htail hchanged.length_eq).1
    exact hchanged.ne hstored.symm

/-! ### Batches -/

/-- What an append writes. -/
structure WrittenFrame where
  lane : UInt16
  segment : UInt64
  batchSeq : UInt64
  body : Bytes
  count : Nat
  size : body.length ≤ walMaxBodyBytes

namespace WrittenFrame

variable (written : WrittenFrame)

def header : BatchHeader :=
  ⟨walMagicBatch, 1, 0, written.batchSeq, UInt32.ofNat written.body.length,
    UInt16.ofNat written.count, 0, written.lane, written.segment, 0⟩

def footer (crc32c : Checksum) : BatchFooter :=
  ⟨walMagicFooter, written.batchSeq, crc32c written.body⟩

def bytes (crc32c : Checksum) : Bytes :=
  frame crc32c written.lane written.segment written.batchSeq written.body written.count

theorem bytes_eq (crc32c : Checksum) :
    written.bytes crc32c = sealed crc32c written.header.covered ++
      (written.body ++ sealed crc32c (written.footer crc32c).covered) := rfl

theorem bytes_ne_nil (crc32c : Checksum) : written.bytes crc32c ≠ [] := by
  refine List.ne_nil_of_length_pos ?_
  rw [bytes, length_frame, batchHeaderLen]
  omega

theorem toNat_bodyLen : written.header.bodyLen.toNat = written.body.length :=
  UInt32.toNat_ofNat_of_lt' (lt_of_le_of_lt written.size (by decide))

end WrittenFrame

theorem covered_batchHeader_injective : Function.Injective BatchHeader.covered := by
  intro first second h
  have hfirst := @readBatchHeader_eq_ok_iff Unit () (first.covered ++ (leU32 0 ++ [])) [] 0 first
  have hsecond := @readBatchHeader_eq_ok_iff Unit () (first.covered ++ (leU32 0 ++ [])) [] 0 second
  have hsame := (hfirst.mpr rfl).symm.trans (hsecond.mpr (by rw [h]))
  simpa using hsame

theorem covered_batchFooter_injective : Function.Injective BatchFooter.covered := by
  intro first second h
  have hfirst := @readBatchFooter_eq_ok_iff Unit () (first.covered ++ (leU32 0 ++ [])) [] 0 first
  have hsecond := @readBatchFooter_eq_ok_iff Unit () (first.covered ++ (leU32 0 ++ [])) [] 0 second
  have hsame := (hfirst.mpr rfl).symm.trans (hsecond.mpr (by rw [h]))
  simpa using hsame

variable {bytes : Bytes}

/-- A batch header that is there as a whole is refused, or is read as it was written. -/
theorem parseBatch_error_or_header {lane : UInt16} {segment : UInt64} {state : ScanState}
    (hlength : batchHeaderLen ≤ bytes.length) :
    (∃ error, parseBatch crc32c lane segment state bytes = .error error) ∨
      ∃ header : BatchHeader, header.Accepted lane segment state.expected ∧
        ∃ rest, bytes = sealed crc32c header.covered ++ rest := by
  cases hcheck : checkBatchHeader crc32c lane segment state.expected bytes with
  | error error =>
    refine Or.inl ⟨error, ?_⟩
    simp only [parseBatch, if_neg (Nat.not_lt.mpr hlength), bind, Except.bind, hcheck]
  | ok header => exact Or.inr ⟨header, checkBatchHeader_eq_ok_iff.mp hcheck⟩

theorem header_of_sealed {header other : BatchHeader} {rest rest' : Bytes}
    (h : sealed crc32c header.covered ++ rest = sealed crc32c other.covered ++ rest') :
    other = header ∧ rest' = rest := by
  unfold sealed at h
  rw [List.append_assoc, List.append_assoc] at h
  obtain ⟨hcovered, htail⟩ := List.append_inj h
    (by rw [length_covered_batchHeader, length_covered_batchHeader])
  have hrest := (List.append_inj htail (by rw [length_leU32, length_leU32])).2
  exact ⟨(covered_batchHeader_injective hcovered).symm, hrest.symm⟩

theorem length_sealed_header (header : BatchHeader) :
    (sealed crc32c header.covered).length = batchHeaderLen := by
  rw [length_sealed, length_covered_batchHeader]
  rfl

namespace WrittenFrame

variable (written : WrittenFrame)

/-- The scanner passes over a batch or fails. -/
theorem parseBatch_passes (lane : UInt16) (segment : UInt64) (state : ScanState)
    (rest : Bytes) :
    (∃ error, parseBatch crc32c lane segment state (written.bytes crc32c ++ rest) =
        .error error) ∨
      ∃ next, parseBatch crc32c lane segment state (written.bytes crc32c ++ rest) =
        .ok (.item next (written.bytes crc32c).length) := by
  have hlength : (written.bytes crc32c).length =
      batchHeaderLen + written.body.length + batchFooterLen := length_frame _ _ _ _ _
  have hthere : batchHeaderLen ≤ (written.bytes crc32c ++ rest).length := by
    rw [List.length_append, hlength]
    omega
  rcases parseBatch_error_or_header hthere with herror | ⟨header, haccepted, others, heq⟩
  · exact Or.inl herror
  · rw [bytes_eq, List.append_assoc] at heq
    obtain ⟨rfl, rfl⟩ := header_of_sealed heq
    rw [hlength, bytes_eq, List.append_assoc, parseBatch_of_header haccepted, toNat_bodyLen]
    have hwhole : ¬(written.body ++ sealed crc32c (written.footer crc32c).covered ++ rest).length <
        written.body.length + batchFooterLen := by
      rw [List.length_append, List.length_append, length_sealed, length_covered_batchFooter,
        batchFooterLen]
      omega
    rw [if_neg hwhole]
    cases readBatch crc32c lane segment written.header.batchSeq written.header.recordCount.toNat
        ((written.body ++ sealed crc32c (written.footer crc32c).covered ++ rest).take
          written.body.length)
        (((written.body ++ sealed crc32c (written.footer crc32c).covered ++ rest).drop
          written.body.length).take batchFooterLen) with
    | error error => exact Or.inl ⟨error, rfl⟩
    | ok records => exact Or.inr ⟨_, rfl⟩

section Flipped

variable (hcrc : ∀ bytes flipped, FlippedBit bytes flipped → crc32c bytes ≠ crc32c flipped)

include hcrc

/-- A bit of the body or of the footer is noticed when the footer is read. -/
theorem readBatch_flipped {changed : Bytes}
    (h : FlippedBit (written.body ++ sealed crc32c (written.footer crc32c).covered) changed)
    (lane : UInt16) (segment : UInt64) (rest : Bytes) (records : List RecoveredRecord) :
    readBatch crc32c lane segment written.header.batchSeq written.header.recordCount.toNat
      ((changed ++ rest).take written.body.length)
      (((changed ++ rest).drop written.body.length).take batchFooterLen) ≠ .ok records := by
  have hfooterLength : (sealed crc32c (written.footer crc32c).covered).length = batchFooterLen := by
    rw [length_sealed, length_covered_batchFooter]
    rfl
  intro hread
  obtain ⟨⟨tail, hfooter⟩, -⟩ := readBatch_eq_ok_iff.mp hread
  rcases h.of_append with ⟨body, hbody, rfl⟩ | ⟨footer, hflipped, rfl⟩
  · rw [List.append_assoc, List.take_left' hbody.length_eq, List.drop_left' hbody.length_eq,
      List.take_left' hfooterLength] at hfooter
    unfold sealed at hfooter
    rw [List.append_assoc] at hfooter
    have hcovered := (List.append_inj hfooter
      (by rw [length_covered_batchFooter, length_covered_batchFooter])).1
    have hsums := covered_batchFooter_injective hcovered
    exact hcrc _ _ hbody (BatchFooter.mk.inj hsums).2.2
  · rw [List.append_assoc, List.take_left, List.drop_left,
      List.take_left' (hflipped.length_eq.trans hfooterLength)] at hfooter
    rw [← List.append_nil footer] at hfooter
    refine sealed_flipped hcrc hflipped ?_ hfooter
    rw [length_covered_batchFooter, length_covered_batchFooter]

/-- A batch with a flipped bit is refused. -/
theorem parseBatch_flipped (h : FlippedBit (written.bytes crc32c) flipped) (lane : UInt16)
    (segment : UInt64) (state : ScanState) (rest : Bytes) :
    ∃ error, parseBatch crc32c lane segment state (flipped ++ rest) = .error error := by
  have hlength : (written.bytes crc32c).length =
      batchHeaderLen + written.body.length + batchFooterLen := length_frame _ _ _ _ _
  have hthere : batchHeaderLen ≤ (flipped ++ rest).length := by
    rw [List.length_append, h.length_eq, hlength]
    omega
  rcases parseBatch_error_or_header hthere with herror | ⟨header, haccepted, others, heq⟩
  · exact herror
  rw [bytes_eq] at h hlength
  rw [List.length_append, length_sealed_header] at hlength
  rcases h.of_append with ⟨changed, hchanged, rfl⟩ | ⟨changed, hchanged, rfl⟩
  · rw [List.append_assoc] at heq
    refine absurd heq (sealed_flipped hcrc hchanged ?_)
    rw [length_covered_batchHeader, length_covered_batchHeader]
  · rw [List.append_assoc] at heq
    obtain ⟨rfl, rfl⟩ := header_of_sealed heq
    have hwhole : ¬(changed ++ rest).length < written.body.length + batchFooterLen := by
      rw [List.length_append, hchanged.length_eq]
      omega
    rw [List.append_assoc, parseBatch_of_header haccepted, toNat_bodyLen, if_neg hwhole]
    cases hread : readBatch crc32c lane segment written.header.batchSeq
        written.header.recordCount.toNat ((changed ++ rest).take written.body.length)
        (((changed ++ rest).drop written.body.length).take batchFooterLen) with
    | error error => exact ⟨error, rfl⟩
    | ok records => exact absurd hread (written.readBatch_flipped hcrc hchanged lane segment rest _)

end Flipped

end WrittenFrame

/-! ### Files -/

/-- A file of a header and batches, whatever they say. -/
def Intact (crc32c : Checksum) (bytes : Bytes) : Prop :=
  ∃ (lane : UInt16) (writer : LaneIdentity) (seq : UInt64) (frames : List WrittenFrame),
    bytes = segmentHeader crc32c lane writer seq ++
      (frames.map fun written ↦ written.bytes crc32c).flatten

theorem passes_frames (lane : UInt16) (segment : UInt64) (frames : List WrittenFrame) :
    Passes (parseBatch crc32c lane segment)
      (frames.map fun written ↦ written.bytes crc32c) := by
  intro frame hmem
  obtain ⟨written, -, rfl⟩ := List.mem_map.mp hmem
  exact ⟨written.bytes_ne_nil crc32c, written.parseBatch_passes lane segment⟩

/-- A file whose header is there is refused, or its batches decide. -/
theorem scanSegment_error_or_scans {lane : UInt16} {identity : LaneIdentity} {segment : UInt64}
    {bytes : Bytes} (hlength : segmentHeaderLen ≤ bytes.length) (isLast : Bool)
    (state : ScanState) :
    (∃ error, scanSegment crc32c lane identity segment bytes isLast state = .error error) ∨
      (∃ header : SegmentHeader, ∃ rest, bytes = sealed crc32c header.covered ++ rest) ∧
      (∀ error, Scans (parseBatch crc32c lane segment) state segmentHeaderLen
          (bytes.drop segmentHeaderLen) (.error error) →
        scanSegment crc32c lane identity segment bytes isLast state = .error error) ∧
      ∀ last total, Scans (parseBatch crc32c lane segment) state segmentHeaderLen
          (bytes.drop segmentHeaderLen) (.ok ⟨last, total, none⟩) →
        scanSegment crc32c lane identity segment bytes isLast state = .ok ⟨total, 0, last⟩ := by
  have hthere : ¬bytes.length < segmentHeaderLen := Nat.not_lt.mpr hlength
  have hfuel : (bytes.drop segmentHeaderLen).length ≤ bytes.length := by
    rw [List.length_drop]
    omega
  cases hcheck : checkSegmentHeader crc32c lane identity segment bytes with
  | error error =>
    refine Or.inl ⟨error, ?_⟩
    simp only [scanSegment, if_neg hthere, bind, Except.bind, hcheck]
  | ok value =>
    obtain ⟨header, -, rest, heq⟩ := checkSegmentHeader_eq_ok_iff.mp hcheck
    refine Or.inr ⟨⟨header, rest, heq⟩, fun error hscans ↦ ?_, fun last total hscans ↦ ?_⟩
    all_goals simp only [scanSegment, if_neg hthere, bind, Except.bind, pure, Except.pure, hcheck,
      hscans _ hfuel]

/-- Nothing of such a file is cut. -/
theorem Intact.truncated_eq_zero (h : Intact crc32c bytes) {lane : UInt16}
    {identity : LaneIdentity} {segment : UInt64} {isLast : Bool} {state : ScanState}
    {scanned : ScannedSegment}
    (hscan : scanSegment crc32c lane identity segment bytes isLast state = .ok scanned) :
    scanned.truncated = 0 := by
  obtain ⟨place, writer, seq, frames, rfl⟩ := h
  have hheader := @length_segmentHeader crc32c place writer seq
  have hlength : segmentHeaderLen ≤ (segmentHeader crc32c place writer seq ++
      (frames.map fun written ↦ written.bytes crc32c).flatten).length := by
    rw [List.length_append, hheader]
    omega
  rcases @scanSegment_error_or_scans crc32c lane identity segment _ hlength isLast state with
    ⟨error, herror⟩ | ⟨-, hfails, hends⟩
  · rw [herror] at hscan
    cases hscan
  · rw [List.drop_left' hheader] at hfails hends
    rcases scan_passes (passes_frames lane segment frames) state segmentHeaderLen with
      ⟨error, herror⟩ | ⟨last, total, hlast⟩
    · rw [hfails _ herror] at hscan
      cases hscan
    · rw [hends _ _ hlast] at hscan
      cases hscan
      rfl

/-- A file with a flipped bit is refused. -/
theorem scanSegment_flipped
    (hcrc : ∀ bytes flipped, FlippedBit bytes flipped → crc32c bytes ≠ crc32c flipped)
    (h : Intact crc32c bytes) (hflipped : FlippedBit bytes flipped) (lane : UInt16)
    (identity : LaneIdentity) (segment : UInt64) (isLast : Bool) (state : ScanState) :
    ∃ error, scanSegment crc32c lane identity segment flipped isLast state = .error error := by
  obtain ⟨place, writer, seq, frames, rfl⟩ := h
  have hlength : segmentHeaderLen ≤ flipped.length := by
    rw [hflipped.length_eq, List.length_append, length_segmentHeader]
    omega
  rcases @scanSegment_error_or_scans crc32c lane identity segment _ hlength isLast state with
    herror | ⟨⟨header, rest, heq⟩, hfails, -⟩
  · exact herror
  rcases hflipped.of_append with ⟨changed, hchanged, rfl⟩ | ⟨changed, hchanged, rfl⟩
  · refine absurd heq (sealed_flipped hcrc hchanged ?_)
    rw [length_covered_segmentHeader, length_covered_segmentHeader]
  · obtain ⟨front, part, back, other, hparts, hpart, rfl⟩ := hchanged.of_flatten
    have hmem : part ∈ frames.map fun written ↦ written.bytes crc32c := by
      rw [hparts]
      exact List.mem_append_right _ List.mem_cons_self
    obtain ⟨written, -, rfl⟩ := List.mem_map.mp hmem
    have hpasses := @passes_frames crc32c lane segment frames
    rw [hparts, Passes, List.forall_mem_append] at hpasses
    obtain ⟨error, herror⟩ := scan_fails hpasses.1
      (List.append_ne_nil_of_left_ne_nil hpart.ne_nil back.flatten)
      (fun state ↦ written.parseBatch_flipped hcrc hpart lane segment state back.flatten) state
      segmentHeaderLen
    refine ⟨error, hfails error ?_⟩
    rwa [List.drop_left' (length_segmentHeader _ _ _)]

/-! ### Lanes -/

variable {walLane : LocalWalLane} {found : LocalWalLane.RecoveryScan}

/-- One unreadable segment makes recovery fail. -/
theorem scanRetained_fails {seq : UInt64} {file : SegmentFile}
    (hfails : ∀ isLast state, ∃ error, scanSegment crc32c walLane.lane walLane.identity seq
      file.bytes isLast state = .error error)
    {seqs : List UInt64} (hmem : seq ∈ seqs) (hfile : found.files[seq]? = some file) :
    ∃ error, walLane.scanRetained crc32c seqs found = .error error := by
  induction seqs generalizing found with
  | nil => exact absurd hmem List.not_mem_nil
  | cons head rest ih =>
    simp only [LocalWalLane.scanRetained, bind, Except.bind, throw, throwThe, MonadExceptOf.throw]
    split
    · exact ⟨_, rfl⟩
    by_cases hhead : head = seq
    · obtain ⟨error, herror⟩ := hfails rest.isEmpty found.state
      rw [hhead, hfile, Option.getD_some, herror]
      exact ⟨error, rfl⟩
    · cases scanSegment crc32c walLane.lane walLane.identity head
          (found.files[head]?.getD ⟨[], 0⟩).bytes rest.isEmpty found.state with
      | error error => exact ⟨error, rfl⟩
      | ok scanned =>
        refine ih ((List.mem_cons.mp hmem).resolve_left (Ne.symm hhead)) ?_
        dsimp only
        split_ifs
        · rw [ExtTreeMap.getElem?_insert, if_neg]
          · exact hfile
          · simpa using hhead
        · exact hfile

variable {files : LaneDirectory}

theorem recoverFrom_fails {floor : LaneFloor} {seq : UInt64} {file : SegmentFile}
    (hfile : files[seq]? = some file) (hretained : floor.firstSegment ≤ seq)
    (hfails : ∀ isLast state, ∃ error, scanSegment crc32c walLane.lane walLane.identity seq
      file.bytes isLast state = .error error) :
    ∃ error, walLane.recoverFrom crc32c floor files = .error error := by
  have hmem : seq ∈ files.keys.filter fun seq ↦ decide (floor.firstSegment ≤ seq) := by
    refine List.mem_filter.mpr ⟨?_, decide_eq_true hretained⟩
    rw [ExtTreeMap.mem_keys, ← ExtTreeMap.isSome_getElem?_iff_mem, hfile]
    rfl
  simp only [LocalWalLane.recoverFrom, bind, Except.bind, throw, throwThe, MonadExceptOf.throw]
  split
  · exact ⟨_, rfl⟩
  cases LocalWalLane.checkGaps walLane.lane floor.firstSegment
      (files.keys.filter fun seq ↦ decide (floor.firstSegment ≤ seq)) with
  | error error => exact ⟨error, rfl⟩
  | ok value =>
    have hstart : (LocalWalLane.RecoveryScan.mk ⟨max floor.firstBatch 1, []⟩
      walLane.activeFirstBatch 0 files).files[seq]? = some file := hfile
    obtain ⟨error, herror⟩ := scanRetained_fails hfails hmem hstart
    rw [herror]
    exact ⟨error, rfl⟩

/-! ### Runs without interrupted appends -/

/-- All files are intact and synced. -/
def IntactFiles (crc32c : Checksum) (files : LaneDirectory) : Prop :=
  ∀ (seq : UInt64) (file : SegmentFile), files[seq]? = some file →
    Intact crc32c file.bytes ∧ file.synced = file.bytes.length

/-- The open file of a lane is there. -/
structure LaneIntact (crc32c : Checksum) (walLane : LocalWalLane)
    (files : LaneDirectory) : Prop where
  intact : IntactFiles crc32c files
  opened : walLane.isOpen = true → walLane.segmentSeq ∈ files

theorem IntactFiles.insert {files : LaneDirectory} (h : IntactFiles crc32c files) {seq : UInt64}
    {file : SegmentFile} (hbytes : Intact crc32c file.bytes)
    (hsynced : file.synced = file.bytes.length) : IntactFiles crc32c (files.insert seq file) := by
  intro key other hother
  rw [ExtTreeMap.getElem?_insert] at hother
  split_ifs at hother with hkey
  · cases hother
    exact ⟨hbytes, hsynced⟩
  · exact h key other hother

theorem Intact.header (crc32c : Checksum) (lane : UInt16) (writer : LaneIdentity)
    (seq : UInt64) : Intact crc32c (segmentHeader crc32c lane writer seq) :=
  ⟨lane, writer, seq, [], (List.append_nil _).symm⟩

theorem Intact.append {bytes : Bytes} (h : Intact crc32c bytes) (written : WrittenFrame) :
    Intact crc32c (bytes ++ written.bytes crc32c) := by
  obtain ⟨lane, writer, seq, frames, rfl⟩ := h
  refine ⟨lane, writer, seq, frames ++ [written], ?_⟩
  simp [List.append_assoc]

namespace LaneIntact

variable {walLane : LocalWalLane} {files : LaneDirectory}

theorem rotate (h : LaneIntact crc32c walLane files) :
    LaneIntact crc32c (walLane.rotate crc32c ⟨false, none⟩ files).lane
      (walLane.rotate crc32c ⟨false, none⟩ files).files := by
  unfold LocalWalLane.rotate
  dsimp only
  by_cases hthere : walLane.segmentSeq + 1 ∈ files
  · rw [if_pos (Or.inr hthere)]
    exact ⟨h.intact, fun hopen ↦ absurd hopen Bool.false_ne_true⟩
  · rw [if_neg (not_or.mpr ⟨Bool.false_ne_true, hthere⟩)]
    exact ⟨h.intact.insert (.header crc32c _ _ _) rfl,
      fun _ ↦ ExtTreeMap.mem_insert_self⟩

theorem writeFrame (h : LaneIntact crc32c walLane files) (hopen : walLane.isOpen = true)
    (written : WrittenFrame) :
    LaneIntact crc32c (walLane.writeFrame .clean (written.bytes crc32c) files).lane
      (walLane.writeFrame .clean (written.bytes crc32c) files).files := by
  obtain ⟨file, hfile⟩ := Option.isSome_iff_exists.mp
    (ExtTreeMap.isSome_getElem?_iff_mem.mpr (h.opened hopen))
  refine ⟨h.intact.insert ?_ rfl, fun _ ↦ ExtTreeMap.mem_insert_self⟩
  rw [hfile]
  exact (h.intact _ file hfile).1.append written

theorem append (h : LaneIntact crc32c walLane files) (batch : Batch) :
    LaneIntact crc32c (walLane.append crc32c .clean batch files).lane
      (walLane.append crc32c .clean batch files).files := by
  refine LocalWalLane.append_invariant (P := LaneIntact crc32c) ?_ ?_ rotate (fun _ ↦ rotate) h
  · intro lane files file h hfile
    refine ⟨h.intact, fun _ ↦ ?_⟩
    rw [← ExtTreeMap.isSome_getElem?_iff_mem, hfile]
    rfl
  · intro lane files body hencode hopen h
    exact h.writeFrame hopen ⟨lane.lane, lane.segmentSeq, lane.nextBatchSeq, body,
      batch.entries.length, (Batch.encode_eq_ok_iff.mp hencode).2.2.2⟩

end LaneIntact

theorem IntactFiles.crashed (h : IntactFiles crc32c files) (keep : UInt64 → Nat) :
    IntactFiles crc32c (crashed keep files) := by
  intro seq file hfile
  rw [Durability.crashed, ExtTreeMap.getElem?_map] at hfile
  obtain ⟨old, hold, rfl⟩ := Option.map_eq_some_iff.mp hfile
  obtain ⟨hbytes, hsynced⟩ := h seq old hold
  refine ⟨?_, rfl⟩
  rw [SegmentFile.cut, hsynced, List.take_of_length_le (le_max_left _ _)]
  exact hbytes

/-- Nothing interrupts an append. -/
def WalEvent.Uninterrupted : WalEvent → Prop
  | .crash (some _) _ => False
  | _ => True

/-- All files are intact, and the running process has its open file among them. -/
structure WalWorld.Undamaged (crc32c : Checksum) (world : WalWorld) : Prop where
  files : IntactFiles crc32c world.files
  lane : ∀ walLane ∈ world.lane, LaneIntact crc32c walLane world.files

namespace WalWorld

variable {place : LanePlace} {world : WalWorld}

theorem undamaged_initial : initial.Undamaged crc32c :=
  ⟨fun seq file h ↦ by simp [initial] at h, fun _ h ↦ by cases h⟩

theorem Undamaged.die (h : IntactFiles crc32c files) (keep : UInt64 → Nat) (world : WalWorld) :
    (world.die keep files).Undamaged crc32c :=
  ⟨h.crashed keep, fun _ h ↦ by cases h⟩

theorem Undamaged.start (h : world.Undamaged crc32c) :
    (world.start crc32c place).Undamaged crc32c := by
  unfold WalWorld.start
  split
  · exact h
  cases hrecover : world.recover crc32c place with
  | error error => exact ⟨h.files, h.lane⟩
  | ok recovered =>
    obtain ⟨recovery, walLane, files⟩ := recovered
    obtain ⟨rfl, hclosed⟩ := recoverFrom_invariant (P := (· = world.files)) (by
      intro seq hmem current last state scanned hsame hscan htruncated
      obtain ⟨file, hfile⟩ := Option.isSome_iff_exists.mp
        (ExtTreeMap.isSome_getElem?_iff_mem.mpr hmem)
      rw [hsame, hfile] at hscan
      exact absurd ((h.files seq file hfile).1.truncated_eq_zero hscan) htruncated.ne') rfl hrecover
    refine ⟨h.files, fun other hother ↦ ?_⟩
    cases hother
    exact ⟨h.files, fun hopen ↦ absurd (hclosed.symm.trans hopen) Bool.false_ne_true⟩

theorem Undamaged.append (h : world.Undamaged crc32c) (batch : Batch) :
    (world.append crc32c batch .clean).Undamaged crc32c := by
  unfold WalWorld.append
  cases hlane : world.lane with
  | none => exact h
  | some walLane =>
    dsimp only
    have hafter := (h.lane walLane hlane).append batch
    cases houtcome : (walLane.append crc32c .clean batch world.files).outcome with
    | ok number =>
      refine ⟨hafter.intact, fun other hother ↦ ?_⟩
      cases hother
      exact hafter
    | err error =>
      refine ⟨hafter.intact, fun other hother ↦ ?_⟩
      cases hother
      exact hafter
    | panic => exact .die hafter.intact _ _

theorem Undamaged.step (h : world.Undamaged crc32c) {event : WalEvent}
    (huninterrupted : event.Uninterrupted) :
    (world.step crc32c place event).Undamaged crc32c := by
  cases event with
  | start => exact h.start
  | append batch => exact h.append batch
  | crash pending keep =>
    cases pending with
    | some pending => exact huninterrupted.elim
    | none =>
      have hcrash : world.step crc32c place (.crash none keep) = world.die keep world.files := by
        cases hlane : world.lane <;> simp only [WalWorld.step, crash, hlane]
      rw [hcrash]
      exact .die h.files keep world

end WalWorld

/-- Whatever appends wrote, one flipped bit in one retained file makes recovery fail. -/
theorem recovery_of_flipped_bit
    (hcrc : ∀ bytes flipped, FlippedBit bytes flipped → crc32c bytes ≠ crc32c flipped)
    (place : LanePlace) {events : List WalEvent}
    (huninterrupted : ∀ event ∈ events, event.Uninterrupted) {seq : UInt64} {file : SegmentFile}
    (hfile : (run (WalWorld.step crc32c place) .initial events).files[seq]? = some file)
    {flipped : Bytes} (hflipped : FlippedBit file.bytes flipped) (floor : LaneFloor)
    (hretained : floor.firstSegment ≤ seq) (walLane : LocalWalLane) :
    ∃ error, walLane.recoverFrom crc32c floor
      ((run (WalWorld.step crc32c place) .initial events).files.insert seq
        ⟨flipped, flipped.length⟩) = .error error := by
  have hundamaged : (run (WalWorld.step crc32c place) .initial events).Undamaged crc32c :=
    run_invariant_along (fun _ _ hevent h ↦ h.step hevent) WalWorld.undamaged_initial
      (along_of_forall _ huninterrupted)
  have hintact := (hundamaged.files seq file hfile).1
  refine recoverFrom_fails ExtTreeMap.getElem?_insert_self hretained fun isLast state ↦ ?_
  exact scanSegment_flipped hcrc hintact hflipped _ _ _ isLast state

/-- Two appends by two processes. -/
def twoAppends : List WalEvent :=
  [.start, .append oneRecord, .crash none fun _ ↦ 0, .start, .append oneRecord]

/-- The file they are in. -/
def twoAppendsFile : SegmentFile :=
  ((run (WalWorld.step Crc.crc32c laneZero) .initial twoAppends).files[(1 : UInt64)]?).getD ⟨[], 0⟩

/-- A bit of the first batch is flipped, and another process recovers the lane. -/
theorem recovery_of_twoAppends_flipped :
    (run (WalWorld.step Crc.crc32c laneZero) .initial twoAppends).acknowledged =
        [(1, oneRecord), (2, oneRecord)] ∧
      ∃ error, (LocalWalLane.new 0 (laneZero.identity 3) 1000).recoverFrom Crc.crc32c (.forLane 0)
        ((run (WalWorld.step Crc.crc32c laneZero) .initial twoAppends).files.insert 1
          ⟨twoAppendsFile.bytes.take 130 ++
              flipBit (twoAppendsFile.bytes.getD 130 0) 3 :: twoAppendsFile.bytes.drop 131,
            twoAppendsFile.bytes.length⟩) = .error error := by
  refine ⟨by decide +kernel, ?_⟩
  have huninterrupted : ∀ event ∈ twoAppends, event.Uninterrupted := by
    simp [twoAppends, WalEvent.Uninterrupted]
  have hfile : (run (WalWorld.step Crc.crc32c laneZero) .initial twoAppends).files[(1 : UInt64)]? =
      some twoAppendsFile := by decide +kernel
  have hbytes : twoAppendsFile.bytes = twoAppendsFile.bytes.take 130 ++
      twoAppendsFile.bytes.getD 130 0 :: twoAppendsFile.bytes.drop 131 := by decide +kernel
  have hflipped : FlippedBit twoAppendsFile.bytes (twoAppendsFile.bytes.take 130 ++
      flipBit (twoAppendsFile.bytes.getD 130 0) 3 :: twoAppendsFile.bytes.drop 131) :=
    ⟨_, _, 3, _, hbytes, rfl⟩
  have hfails := recovery_of_flipped_bit (fun _ _ ↦ Crc.crc32c_ne_of_flippedBit) laneZero
    huninterrupted hfile hflipped (.forLane 0) (UInt64.le_refl 1)
    (.new 0 (laneZero.identity 3) 1000)
  rwa [hflipped.length_eq] at hfails

end Kivi.Durability
