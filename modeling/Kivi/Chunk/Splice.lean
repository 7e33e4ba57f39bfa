import Kivi.Chunk.Manifest

/-!
# Writing into a chunked value

A range write on a chunked value keeps the chunks that lie wholly below it and cuts the rest anew:
the kept head of the chunk it begins in, zeros up to it, the patch, and what the old value has
behind it. `SpliceStream.Rests` says which bytes a stream will still give; a piece is the front of
them (`fillPiece_eq_ok`). `spliceRangeJob_value` gives the bytes that come out for every old value,
offset and patch: what follows the patch starts where the patch ends, but no later than at the end
of the chunk behind the one the patch begins in.
-/

namespace Kivi.Chunk

open Library Library.Fallible

variable {α μ : Type}

/-- What the splice will do, from the manifest alone. -/
structure SplicePlan (α : Type) where
  entries : List (ChunkEntry α)
  chunking : Chunking
  newTotal : Nat
  pieces : List Nat
  kept : List (ChunkEntry α)
  keptLen : Nat
  boundary : Nat
  patchEnd : Nat

/-- Bytes at hand, or a run of zeros. -/
inductive SpliceSegment where
  | mem (bytes : Bytes)
  | zeros (count : Nat)
deriving DecidableEq

/-- The bytes still to be cut: segments, and then entries to be read, the first of them from
`tailSkip` on. -/
structure SpliceStream (α : Type) where
  segments : List SpliceSegment
  tail : List (ChunkEntry α)
  tailSkip : Nat

/-- A value that is staged; its canonical manifest bytes are left out. -/
structure StagedValue (α μ : Type) where
  chunks : List (α × Nat)
  manifest : μ
  logicalLen : Nat
deriving DecidableEq

/-! ### The plan -/

/-- The entries of full size that end at or below the offset, and their length added to
`keptLen`. -/
def keepEntries (chunkSize offset : Nat) :
    Nat → List (ChunkEntry α) → Except (ChunkError α μ) (List (ChunkEntry α) × Nat)
  | keptLen, [] => .ok ([], keptLen)
  | keptLen, entry :: rest => do
    ensure (keptLen + entry.len < 2 ^ 64) (.invalid .splicePrefix)
    if entry.len ≠ chunkSize ∨ offset < keptLen + entry.len then pure ([], keptLen)
    else do
      let (kept, length) ← keepEntries chunkSize offset (keptLen + entry.len) rest
      pure (entry :: kept, length)

section Lane

variable [Ord α] [Std.TransOrd α] [Ord μ] [Std.TransOrd μ]

def splicePlan (contents : Contents α μ) (manifest : μ) (logicalLen offset patchLen : Nat) :
    Except (ChunkError α μ) (SplicePlan α) := do
  let loaded ← contents.readManifest manifest
  ensure (loaded.totalLen = logicalLen)
    (.corruptManifest (some manifest) (.rootClaim loaded.totalLen logicalLen))
  ensure (loaded.chunkingVersion = chunkingV1)
    (.unsupported (.spliceChunking loaded.chunkingVersion))
  ensure (loaded.codec = codecNone) (.unsupported (.spliceCodec loaded.codec))
  ensure (loaded.chunkSize ≠ 0) (.corruptManifest (some manifest) .zeroChunkSize)
  let chunking : Chunking := ⟨chunkingV1, loaded.chunkSize⟩
  chunking.validate
  ensure (offset + patchLen < 2 ^ 64) (.invalid .spliceRange)
  let patchEnd := offset + patchLen
  let newTotal := max logicalLen patchEnd
  let pieces := chunking.splitLengths newTotal
  ensure (pieces.length ≤ maxChunksPerManifest) (.tooLarge pieces.length maxChunksPerManifest)
  let (kept, keptLen) ← keepEntries loaded.chunkSize offset 0 loaded.entries
  pure ⟨loaded.entries, chunking, newTotal, pieces, kept, keptLen, kept.length, patchEnd⟩

/-! ### The stream -/

/-- Bytes that are queued, if there are any. -/
def queued (bytes : Option Bytes) : List SpliceSegment :=
  match bytes with
  | some (first :: rest) => [.mem (first :: rest)]
  | _ => []

/-- The search for the first entry behind the patch, from `index` on. -/
def SplicePlan.scanTail (plan : SplicePlan α) (logicalLen : Nat) :
    Nat → Nat → List (ChunkEntry α) → Nat → Nat
  | _, _, [], tailFrom => tailFrom
  | index, start, entry :: rest, tailFrom =>
    plan.scanTail logicalLen (index + 1) (start + entry.len) rest
      (if plan.boundary < index ∧ plan.patchEnd < start + entry.len ∧ start < logicalLen ∧
          tailFrom = plan.entries.length then index
        else tailFrom)

/-- The kept head and the tail of the chunk that the patch begins in, and the first entry behind
it. -/
def SplicePlan.boundarySpans (plan : SplicePlan α) (contents : Contents α μ) (offset : Nat) :
    Except (ChunkError α μ) (Option Bytes × Option Bytes × Nat) :=
  match plan.entries[plan.boundary]? with
  | none => .ok (none, none, plan.entries.length)
  | some entry => do
    let cached ← contents.readEntry entry
    ensure (plan.keptLen ≤ offset) (.invalid .spliceOffset)
    let rel := offset - plan.keptLen
    let sameTail :=
      if plan.patchEnd < plan.keptLen + entry.len then
        some (cached.drop (plan.patchEnd - plan.keptLen))
      else none
    let head := if entry.len ≤ rel then cached else cached.take rel
    pure (some head, sameTail, plan.boundary + 1)

def SpliceStream.openAt (contents : Contents α μ) (plan : SplicePlan α) (offset : Nat)
    (patch : Bytes) (logicalLen : Nat) : Except (ChunkError α μ) (SpliceStream α) := do
  let (head, sameTail, tailFrom) ← plan.boundarySpans contents offset
  let gap := if 0 < offset - logicalLen then [.zeros (offset - logicalLen)] else []
  let segments := queued head ++ gap ++ queued (some patch) ++ queued sameTail
  let tailFrom := plan.scanTail logicalLen 0 0 plan.entries tailFrom
  let tailSkip :=
    if tailFrom < plan.entries.length then
      plan.patchEnd - lengthOf (plan.entries.take tailFrom)
    else 0
  pure ⟨segments, plan.entries.drop tailFrom, tailSkip⟩

/-- The rounds of `fill_piece` up to the next read: the bytes that are cut, the segments that are
left and how many bytes are still missing. -/
def takeSegments : List SpliceSegment → Nat → Bytes × List SpliceSegment × Nat
  | segments, 0 => ([], segments, 0)
  | [], need => ([], [], need)
  | .mem bytes :: rest, need =>
    if bytes.length ≤ need then
      let (piece, left, missing) := takeSegments rest (need - bytes.length)
      (bytes ++ piece, left, missing)
    else (bytes.take need, .mem (bytes.drop need) :: rest, 0)
  | .zeros count :: rest, need =>
    if count ≤ need then
      let (piece, left, missing) := takeSegments rest (need - count)
      (List.replicate count 0 ++ piece, left, missing)
    else (List.replicate need 0, .zeros (count - need) :: rest, 0)

/-- One piece: the segments first, and then one entry after the other. -/
def fillPiece (contents : Contents α μ) (manifest : μ) :
    List SpliceSegment → List (ChunkEntry α) → Nat → Nat →
      Except (ChunkError α μ) (Bytes × SpliceStream α)
  | segments, [], skip, need =>
    match takeSegments segments need with
    | (piece, left, 0) => .ok (piece, ⟨left, [], skip⟩)
    | (_, _, _ + 1) => .error (.corruptManifest (some manifest) .ranDry)
  | segments, entry :: rest, skip, need =>
    match takeSegments segments need with
    | (piece, left, 0) => .ok (piece, ⟨left, entry :: rest, skip⟩)
    | (piece, _, missing + 1) => do
      let bytes ← contents.readEntry entry
      -- of a skip that is longer than the chunk nothing is carried on
      let pushed := queued (some (bytes.drop (min skip bytes.length)))
      let (more, stream) ← fillPiece contents manifest pushed rest 0 (missing + 1)
      pure (piece ++ more, stream)

/-! ### The job -/

/-- The loop over the pieces: each is cut, stored under its address and listed. -/
def stagePieces (addressing : Addressing α μ) (manifest : μ) :
    List Nat → SpliceStream α → Contents α μ →
      Except (ChunkError α μ) (List (ChunkEntry α) × Contents α μ)
  | [], _, contents => .ok ([], contents)
  | need :: rest, stream, contents => do
    let (piece, stream) ←
      fillPiece contents manifest stream.segments stream.tail stream.tailSkip need
    let id := addressing.chunkId piece
    let (entries, contents) ←
      stagePieces addressing manifest rest stream (contents.stageChunk id piece)
    pure (⟨id, need⟩ :: entries, contents)

variable [DecidableEq α]

def spliceRangeJob (addressing : Addressing α μ) (contents : Contents α μ) (manifest : μ)
    (logicalLen offset : Nat) (patch : Bytes) :
    Except (ChunkError α μ) (StagedValue α μ × Contents α μ) := do
  let plan ← splicePlan contents manifest logicalLen offset patch.length
  if patch = [] ∧ offset ≤ logicalLen ∧ offset = plan.keptLen then do
    let built ← buildManifest addressing.zero plan.chunking codecNone plan.newTotal
      (plan.kept ++ plan.entries.drop plan.boundary)
    let id := addressing.manifestId built
    pure (⟨[], id, plan.newTotal⟩, contents.stageManifest id built)
  else do
    let stream ← SpliceStream.openAt contents plan offset patch logicalLen
    let skipped := plan.keptLen / plan.chunking.chunkSize
    let (entries, contents) ←
      stagePieces addressing manifest (plan.pieces.drop skipped) stream contents
    let built ← buildManifest addressing.zero plan.chunking codecNone plan.newTotal
      (plan.kept ++ entries)
    let id := addressing.manifestId built
    pure (⟨entries.map fun entry ↦ (entry.id, entry.len), id, plan.newTotal⟩,
      contents.stageManifest id built)

end Lane

/-! ### The bytes of a stream -/

def SpliceSegment.bytes : SpliceSegment → Bytes
  | .mem bytes => bytes
  | .zeros count => List.replicate count 0

def flat (segments : List SpliceSegment) : Bytes := segments.flatMap SpliceSegment.bytes

/-- Blocks one after the other, the first from `skip` on. -/
def skipFirst (skip : Nat) : List Bytes → Bytes
  | [] => []
  | block :: rest => block.drop skip ++ rest.flatten

@[simp] theorem flat_nil : flat [] = [] := rfl

@[simp] theorem flat_cons (segment : SpliceSegment) (rest : List SpliceSegment) :
    flat (segment :: rest) = segment.bytes ++ flat rest := rfl

@[simp] theorem flat_append (front back : List SpliceSegment) :
    flat (front ++ back) = flat front ++ flat back := by
  simp [flat]

@[simp] theorem flat_queued (bytes : Option Bytes) :
    flat (queued bytes) = bytes.getD [] := by
  rcases bytes with _ | _ | ⟨first, rest⟩
  · rfl
  · rfl
  · simp [queued, SpliceSegment.bytes]

theorem skipFirst_zero (blocks : List Bytes) : skipFirst 0 blocks = blocks.flatten := by
  cases blocks with
  | nil => rfl
  | cons block rest => rfl

/-- Taking from the segments is taking from their bytes. -/
theorem takeSegments_eq (segments : List SpliceSegment) (need : Nat) :
    (takeSegments segments need).1 = (flat segments).take need ∧
      flat (takeSegments segments need).2.1 = (flat segments).drop need ∧
      (takeSegments segments need).2.2 = need - (flat segments).length := by
  fun_induction takeSegments segments need with
  | case1 segments => simp
  | case2 need _ => simp
  | case3 bytes rest need _ hle piece left missing htake ih =>
    simp only [htake] at ih
    obtain ⟨hpiece, hleft, hmissing⟩ := ih
    simp only [flat_cons, SpliceSegment.bytes, List.length_append]
    refine ⟨?_, ?_, by omega⟩
    · rw [List.take_append, List.take_of_length_le hle, hpiece]
    · rw [List.drop_append, List.drop_of_length_le hle, hleft, List.nil_append]
  | case4 bytes rest need _ hle =>
    have hlt : need ≤ bytes.length := by omega
    simp only [flat_cons, SpliceSegment.bytes, List.length_append]
    refine ⟨(List.take_append_of_le_length hlt).symm, (List.drop_append_of_le_length hlt).symm,
      by omega⟩
  | case5 count rest need _ hle piece left missing htake ih =>
    have hle' : (List.replicate count (0 : UInt8)).length ≤ need := by
      rwa [List.length_replicate]
    simp only [htake] at ih
    obtain ⟨hpiece, hleft, hmissing⟩ := ih
    simp only [flat_cons, SpliceSegment.bytes, List.length_append, List.length_replicate]
    refine ⟨?_, ?_, by omega⟩
    · rw [List.take_append, List.take_of_length_le hle', hpiece, List.length_replicate]
    · rw [List.drop_append, List.drop_of_length_le hle', hleft, List.nil_append,
        List.length_replicate]
  | case6 count rest need _ hle =>
    have hlt : need ≤ (List.replicate count (0 : UInt8)).length := by
      rw [List.length_replicate]
      omega
    simp only [flat_cons, SpliceSegment.bytes, List.length_append, List.length_replicate]
    refine ⟨?_, ?_, by omega⟩
    · rw [List.take_append_of_le_length hlt, List.take_replicate, Nat.min_eq_left (by omega)]
    · rw [List.drop_append_of_le_length hlt, List.drop_replicate]

variable {stream : SpliceStream α} {manifest : μ} {blocks : List Bytes}
  {entries : List (ChunkEntry α)}

section Lane

variable [Ord α] [Std.TransOrd α] [Ord μ] [Std.TransOrd μ]

/-- The bytes that a stream will still give. -/
def SpliceStream.Rests (contents : Contents α μ) (stream : SpliceStream α)
    (bytes : Bytes) : Prop :=
  ∃ blocks, List.Forall₂ contents.Holds stream.tail blocks ∧
    flat stream.segments ++ skipFirst stream.tailSkip blocks = bytes

variable {contents later : Contents α μ}

theorem SpliceStream.Rests.extends (h : later.Extends contents) {bytes : Bytes}
    (hrests : stream.Rests contents bytes) :
    stream.Rests later bytes := by
  obtain ⟨blocks, hblocks, heq⟩ := hrests
  exact ⟨blocks, h.forall₂ hblocks, heq⟩

/-- A piece is the front of what a stream gives. -/
theorem fillPiece_eq_ok {segments : List SpliceSegment} {tail : List (ChunkEntry α)}
    {skip need : Nat} {piece : Bytes} {next : SpliceStream α}
    (hblocks : List.Forall₂ contents.Holds tail blocks)
    (h : fillPiece contents manifest segments tail skip need = .ok (piece, next)) :
    piece = (flat segments ++ skipFirst skip blocks).take need ∧ piece.length = need ∧
      next.Rests contents ((flat segments ++ skipFirst skip blocks).drop need) := by
  induction tail generalizing segments skip need piece next blocks with
  | nil =>
    cases hblocks
    obtain ⟨hpiece, hleft, hmissing⟩ := takeSegments_eq segments need
    simp only [skipFirst, List.append_nil]
    rw [fillPiece] at h
    rcases htake : takeSegments segments need with ⟨cut, left, _ | missing⟩
    · rw [htake] at h hpiece hleft hmissing
      cases h
      simp only at hpiece hleft hmissing
      refine ⟨hpiece, ?_, [], .nil, by simpa [skipFirst] using hleft⟩
      rw [hpiece, List.length_take]
      omega
    · rw [htake] at h
      cases h
  | cons entry rest ih =>
    obtain ⟨block, others, hblock, hothers, rfl⟩ := List.forall₂_cons_left_iff.mp hblocks
    obtain ⟨hpiece, hleft, hmissing⟩ := takeSegments_eq segments need
    rw [fillPiece] at h
    rcases htake : takeSegments segments need with ⟨cut, left, _ | missing⟩
    · rw [htake] at h hpiece hleft hmissing
      cases h
      simp only at hpiece hleft hmissing
      have hle : need ≤ (flat segments).length := by omega
      rw [List.take_append_of_le_length hle, List.drop_append_of_le_length hle]
      refine ⟨hpiece, ?_, block :: others, hblocks, by rw [hleft]⟩
      rw [hpiece, List.length_take]
      omega
    · rw [htake] at h hpiece hleft hmissing
      simp only [bind_eq_ok_iff, Contents.readEntry_eq_ok_iff] at h
      simp only at hpiece hleft hmissing
      obtain ⟨bytes, hread, ⟨more, stream⟩, hmore, heq⟩ := h
      cases heq
      have hsame : bytes = block := Option.some.inj (hread.1.symm.trans hblock.1)
      subst hsame
      obtain ⟨hmorePiece, hmoreLength, hrests⟩ := ih hothers hmore
      have hdrop : (bytes.drop (min skip bytes.length)) = bytes.drop skip := by
        rcases Nat.le_total skip bytes.length with hle | hle
        · rw [Nat.min_eq_left hle]
        · rw [Nat.min_eq_right hle, List.drop_length, List.drop_of_length_le hle]
      simp only [flat_queued, Option.getD_some, hdrop, skipFirst_zero] at hmorePiece hrests
      have hlt : (flat segments).length ≤ need := by omega
      have hneed : missing + 1 = need - (flat segments).length := hmissing
      rw [List.take_of_length_le hlt] at hpiece
      refine ⟨?_, ?_, ?_⟩
      · rw [skipFirst, List.take_append, List.take_of_length_le hlt, hpiece, hmorePiece, hneed]
      · rw [List.length_append, hpiece, hmoreLength]
        omega
      · rw [skipFirst, List.drop_append, List.drop_of_length_le hlt, List.nil_append, ← hneed]
        exact hrests

variable [Std.LawfulEqOrd α] {addressing : Addressing α μ}

/-- The entries of the staged pieces hold the front of what the stream gives. -/
theorem stagePieces_eq_ok (hfree : addressing.Collisionless) (hsound : contents.Sound addressing)
    {pieces : List Nat} {bytes : Bytes} (hrests : stream.Rests contents bytes)
    (h : stagePieces addressing manifest pieces stream contents = .ok (entries, later)) :
    later.Extends contents ∧ later.Sound addressing ∧
      ∃ blocks, List.Forall₂ later.Holds entries blocks ∧
        blocks.flatten = bytes.take pieces.sum ∧ lengthOf entries = pieces.sum := by
  induction pieces generalizing stream contents bytes entries with
  | nil =>
    cases h
    exact ⟨.refl _, hsound, [], .nil, by simp, rfl⟩
  | cons need rest ih =>
    simp only [stagePieces, bind_eq_ok_iff] at h
    obtain ⟨⟨piece, next⟩, hfill, ⟨others, final⟩, hothers, heq⟩ := h
    cases heq
    obtain ⟨blocks, hblocks, hbytes⟩ := hrests
    obtain ⟨hpiece, hlength, hnext⟩ := fillPiece_eq_ok hblocks hfill
    rw [hbytes] at hpiece hnext
    have hstaged := contents.extends_stageChunk (addressing.chunkId piece) piece
    obtain ⟨hextends, hfinal, tailBlocks, htail, hflatten, hsum⟩ :=
      ih (hsound.stageChunk piece) (hnext.extends hstaged) hothers
    refine ⟨hextends.trans hstaged, hfinal, piece :: tailBlocks, .cons ?_ htail, ?_, ?_⟩
    · exact ⟨hextends.chunk _ _ (hsound.getElem?_stageChunk hfree piece), hlength⟩
    · rw [List.flatten_cons, hflatten, hpiece, List.sum_cons, List.take_add]
    · rw [lengthOf_cons, hsum, List.sum_cons]

end Lane

/-! ### Where the old bytes go -/

/-- What the scan keeps is below the offset, and it stops where it has to. -/
structure Kept (chunkSize offset : Nat) (kept others : List (ChunkEntry α)) : Prop where
  full : ∀ entry ∈ kept, entry.len = chunkSize
  below : lengthOf kept ≤ offset
  stops : ∀ entry rest, others = entry :: rest → entry.len = chunkSize →
    offset < lengthOf kept + entry.len

variable {offset : Nat} {kept : List (ChunkEntry α)}

/-- Whole chunks are kept up to the one that the offset falls into. -/
theorem keepEntries_eq_ok {chunkSize keptLen length : Nat}
    (h : keepEntries (μ := μ) chunkSize offset keptLen entries = .ok (kept, length)) :
    length = keptLen + lengthOf kept ∧ ∃ others, entries = kept ++ others ∧
      (∀ entry ∈ kept, entry.len = chunkSize) ∧ (keptLen ≤ offset → length ≤ offset) ∧
      ∀ entry rest, others = entry :: rest → entry.len = chunkSize →
        offset < length + entry.len := by
  induction entries generalizing keptLen kept with
  | nil =>
    cases h
    exact ⟨rfl, [], rfl, by simp, id, by simp⟩
  | cons entry rest ih =>
    simp only [keepEntries, bind_eq_ok_iff, Unique.exists_iff, ensure_eq_ok_iff] at h
    obtain ⟨-, h⟩ := h
    split at h
    next hstop =>
      cases h
      refine ⟨rfl, entry :: rest, rfl, by simp, id, ?_⟩
      rintro other others heq hfull
      obtain ⟨rfl, -⟩ := List.cons.inj heq
      exact hstop.resolve_left (absurd hfull)
    next hstop =>
      rw [bind_eq_ok_iff] at h
      obtain ⟨⟨more, total⟩, hmore, heq⟩ := h
      cases heq
      obtain ⟨hlength, others, hentries, hall, hbelow, hstops⟩ := ih hmore
      rw [not_or, not_not] at hstop
      refine ⟨by rw [hlength, lengthOf_cons, Nat.add_assoc], others, by rw [hentries]; rfl, ?_, ?_,
        hstops⟩
      · intro other hmem
        rcases List.mem_cons.mp hmem with rfl | hmem
        · exact hstop.1
        · exact hall other hmem
      · exact fun _ ↦ hbelow (Nat.le_of_not_lt hstop.2)

/-- The guard of the search is never met: an entry behind the chunk that the patch begins in was
taken as the tail before. -/
theorem SplicePlan.scanTail_eq (plan : SplicePlan α) {logicalLen index start tailFrom : Nat}
    {entries : List (ChunkEntry α)} (hlen : index + entries.length = plan.entries.length)
    (htail : tailFrom = plan.entries.length → plan.entries.length ≤ plan.boundary + 1) :
    plan.scanTail logicalLen index start entries tailFrom = tailFrom := by
  induction entries generalizing index start with
  | nil => rfl
  | cons entry rest ih =>
    rw [List.length_cons] at hlen
    rw [scanTail, if_neg]
    · exact ih (by omega)
    · rintro ⟨hindex, -, -, hlast⟩
      have := htail hlast
      omega

/-- The end of the chunk behind the one that the offset lies in. -/
def ChunkManifest.reach (manifest : ChunkManifest α) (offset : Nat) : Nat :=
  lengthOf (manifest.entries.take (offset / manifest.chunkSize + 2))

theorem lengthOf_eq_mul {chunkSize : Nat} (h : ∀ entry ∈ entries, entry.len = chunkSize) :
    lengthOf entries = entries.length * chunkSize := by
  induction entries with
  | nil => simp
  | cons entry rest ih =>
    rw [lengthOf_cons, ih fun other hmem ↦ h other (List.mem_cons_of_mem _ hmem),
      h entry List.mem_cons_self, List.length_cons, Nat.succ_mul, Nat.add_comm]

variable {others : List (ChunkEntry α)}

theorem Kept.reach_eq {manifest : ChunkManifest α} (hformed : manifest.Formed)
    (hsize : manifest.chunkSize ≠ 0) (hentries : manifest.entries = kept ++ others)
    (h : Kept manifest.chunkSize offset kept others) :
    manifest.reach offset = lengthOf kept + lengthOf (others.take 2) := by
  have hmul := lengthOf_eq_mul h.full
  have hbelow := h.below
  have hle : kept.length ≤ offset / manifest.chunkSize := by
    rw [Nat.le_div_iff_mul_le (Nat.pos_of_ne_zero hsize), ← hmul]
    exact hbelow
  rw [ChunkManifest.reach, hentries, List.take_append, List.take_of_length_le (by omega),
    lengthOf_append]
  congr 2
  by_cases hshort : others.length ≤ 2
  · rw [List.take_of_length_le hshort, List.take_of_length_le (by omega)]
  · -- the chunk is not the last one, so it is full and the offset lies in it
    obtain ⟨entry, rest, rfl⟩ := List.exists_cons_of_ne_nil
      (List.ne_nil_of_length_pos (by omega : 0 < others.length))
    have hrest : rest ≠ [] := by
      rintro rfl
      simp at hshort
    have hfull := hformed.full kept entry rest hentries hrest
    have hstops := h.stops entry rest rfl hfull
    rw [hfull, hmul] at hstops
    have hlt : offset / manifest.chunkSize < kept.length + 1 := by
      rw [Nat.div_lt_iff_lt_mul (Nat.pos_of_ne_zero hsize), Nat.succ_mul]
      exact hstops
    congr 1
    omega

theorem flat_gap (count : Nat) :
    flat (if 0 < count then [.zeros count] else []) = List.replicate count 0 := by
  split_ifs with h
  · simp [SpliceSegment.bytes]
  · rw [Nat.eq_zero_of_not_pos h]
    rfl

section Lane

variable [Ord α] [Std.TransOrd α] [Ord μ] [Std.TransOrd μ] {contents later : Contents α μ}
  {block : Bytes}

/-- Skipping in the first of the blocks only, when it is not skipped as a whole. -/
theorem skipFirst_eq_drop {skip : Nat} {rest : List Bytes} :
    skipFirst skip (block :: rest) = (block ++ rest.flatten).drop (min skip block.length) := by
  rw [skipFirst, List.drop_append_of_le_length (Nat.min_le_right _ _)]
  rcases Nat.le_total skip block.length with hle | hle
  · rw [Nat.min_eq_left hle]
  · rw [Nat.min_eq_right hle, List.drop_length, List.drop_of_length_le hle]

variable {plan : SplicePlan α}

theorem boundarySpans_eq_ok {entry : ChunkEntry α}
    (hentry : plan.entries[plan.boundary]? = some entry) (hblock : contents.Holds entry block)
    {head sameTail : Option Bytes} {tailFrom : Nat}
    (h : plan.boundarySpans contents offset = .ok (head, sameTail, tailFrom)) :
    head.getD [] = block.take (offset - plan.keptLen) ∧
      sameTail.getD [] = block.drop (plan.patchEnd - plan.keptLen) ∧
      tailFrom = plan.boundary + 1 := by
  simp only [SplicePlan.boundarySpans, hentry, bind_eq_ok_iff, Contents.readEntry_eq_ok_iff] at h
  obtain ⟨cached, hread, -, -, heq⟩ := h
  cases heq
  have hsame : cached = block := Option.some.inj (hread.1.symm.trans hblock.1)
  subst hsame
  have hlength := hblock.2
  refine ⟨?_, ?_, rfl⟩
  · split_ifs
    · rw [List.take_of_length_le (by omega)]
      rfl
    · rfl
  · split_ifs
    · rfl
    · rw [List.drop_of_length_le (by omega)]
      rfl

/-- The tail of the chunk that the patch begins in, and what is read behind it. -/
theorem tail_eq {entry : ChunkEntry α} {rest : List (ChunkEntry α)}
    {restBlocks : List Bytes} (hblock : contents.Holds entry block)
    (hrest : List.Forall₂ contents.Holds rest restBlocks) {front count patchEnd : Nat}
    (hle : front ≤ patchEnd) :
    block.drop (patchEnd - front) ++
        skipFirst (if count < count + rest.length then patchEnd - (front + entry.len) else 0)
          restBlocks =
      (block ++ restBlocks.flatten).drop
        (min patchEnd (front + lengthOf ((entry :: rest).take 2)) - front) := by
  have hlength := hblock.2
  cases hrest with
  | nil =>
    simp only [skipFirst, List.append_nil, List.flatten_nil, List.take_succ_cons, List.take_nil,
      lengthOf_cons, lengthOf_nil, Nat.add_zero]
    rcases Nat.le_total patchEnd (front + entry.len) with hend | hend
    · rw [Nat.min_eq_left hend]
    · rw [Nat.min_eq_right hend, List.drop_of_length_le (by omega),
        List.drop_of_length_le (by omega)]
  | @cons next nextBlock more moreBlocks hnext hmore =>
    have hnextLength := hnext.2
    have hmore : count < count + (next :: more).length := by
      rw [List.length_cons]
      omega
    rw [if_pos hmore, skipFirst_eq_drop]
    simp only [List.take_succ_cons, List.take_zero, lengthOf_cons, lengthOf_nil, Nat.add_zero,
      List.flatten_cons]
    rcases Nat.le_total patchEnd (front + entry.len) with hend | hend
    · rw [Nat.min_eq_left (by omega : patchEnd ≤ front + (entry.len + next.len)),
        Nat.sub_eq_zero_of_le hend, Nat.zero_min, List.drop_zero,
        List.drop_append_of_le_length (by omega)]
    · have hbehind : block.length ≤
          min patchEnd (front + (entry.len + next.len)) - front := by omega
      have hskip : min patchEnd (front + (entry.len + next.len)) - front - block.length =
          min (patchEnd - (front + entry.len)) nextBlock.length := by omega
      rw [List.drop_of_length_le (by omega : block.length ≤ patchEnd - front), List.nil_append]
      conv_rhs => rw [List.drop_append, List.drop_of_length_le hbehind, List.nil_append, hskip]

/-- What follows the patch starts where it ends, if that is in the chunk the patch begins in or in
the next one, and at the end of the next one otherwise. -/
theorem openAt_eq_ok {manifest : ChunkManifest α} (hformed : manifest.Formed)
    (hentries : manifest.entries = kept ++ others)
    (hkept : Kept manifest.chunkSize offset kept others)
    (hblocks : List.Forall₂ contents.Holds others blocks) (hplan : plan.entries = kept ++ others)
    (hboundary : plan.boundary = kept.length) (hkeptLen : plan.keptLen = lengthOf kept)
    {patch : Bytes} (hpatchEnd : offset ≤ plan.patchEnd)
    (h : SpliceStream.openAt contents plan offset patch (lengthOf manifest.entries) =
      .ok stream) :
    stream.Rests contents (blocks.flatten.take (offset - lengthOf kept) ++
      List.replicate (offset - lengthOf manifest.entries) 0 ++ patch ++
      blocks.flatten.drop (min plan.patchEnd (lengthOf kept + lengthOf (others.take 2)) -
        lengthOf kept)) := by
  have hbelow := hkept.below
  simp only [SpliceStream.openAt, bind_eq_ok_iff] at h
  obtain ⟨⟨head, sameTail, tailFrom⟩, hspans, heq⟩ := h
  cases heq
  cases hblocks with
  | nil =>
    have hnone : plan.entries[plan.boundary]? = none := by
      rw [hplan, hboundary, List.append_nil]
      exact List.getElem?_eq_none (Nat.le_refl _)
    rw [SplicePlan.boundarySpans, hnone] at hspans
    cases hspans
    refine ⟨[], ?_, ?_⟩
    · dsimp only
      rw [plan.scanTail_eq (Nat.zero_add _) fun _ ↦ by rw [hplan, hboundary]; simp,
        List.drop_length]
      exact .nil
    · simp only [flat_append, flat_gap]
      simp [skipFirst]
  | @cons entry block rest restBlocks hblock hrest =>
    have hentry : plan.entries[plan.boundary]? = some entry := by
      rw [hplan, hboundary]
      simp
    obtain ⟨hhead, hsame, rfl⟩ := boundarySpans_eq_ok hentry hblock hspans
    have hcount : plan.entries.length = kept.length + 1 + rest.length := by
      rw [hplan, List.length_append, List.length_cons]
      omega
    have hscan := fun logicalLen ↦ @SplicePlan.scanTail_eq _ plan logicalLen 0 0
      (plan.boundary + 1) plan.entries (Nat.zero_add _) fun hlast ↦ Nat.le_of_eq hlast.symm
    have hdrop : (kept ++ entry :: rest).drop (kept.length + 1) = rest := by simp
    have htake : lengthOf ((kept ++ entry :: rest).take (kept.length + 1)) =
        lengthOf kept + entry.len := by
      simp [List.take_append, List.take_of_length_le]
    have hfront : (block ++ restBlocks.flatten).take (offset - lengthOf kept) =
        block.take (offset - lengthOf kept) := by
      by_cases hle : offset - lengthOf kept ≤ block.length
      · exact List.take_append_of_le_length hle
      · -- the offset is behind the chunk, so the chunk is the last one
        have hlast : rest = [] := by
          by_contra hne
          have hfull := hformed.full kept entry rest hentries hne
          have hstops := hkept.stops entry rest rfl hfull
          have hlength := hblock.2
          omega
        subst hlast
        cases hrest
        simp
    refine ⟨restBlocks, ?_, ?_⟩
    · dsimp only
      rw [hscan, hplan, hboundary, hdrop]
      exact hrest
    · dsimp only
      rw [hscan, hcount, hplan, hboundary, htake]
      simp only [flat_append, flat_queued, flat_gap, Option.getD_some, hhead, hsame,
        List.flatten_cons, hkeptLen, hfront, List.append_assoc, List.append_cancel_left_eq]
      exact tail_eq hblock hrest (Nat.le_trans hbelow hpatchEnd)

/-- What a plan says of the old value and of the new length. -/
theorem splicePlan_eq_ok {logicalLen patchLen : Nat}
    (h : splicePlan contents manifest logicalLen offset patchLen = .ok plan) :
    ∃ loaded others, contents.manifests[manifest]? = some loaded ∧ loaded.chunkSize ≠ 0 ∧
      plan.entries = loaded.entries ∧ loaded.entries = plan.kept ++ others ∧
      Kept loaded.chunkSize offset plan.kept others ∧ plan.boundary = plan.kept.length ∧
      plan.keptLen = lengthOf plan.kept ∧ plan.patchEnd = offset + patchLen ∧
      plan.newTotal = max logicalLen (offset + patchLen) := by
  simp only [splicePlan, Contents.readManifest] at h
  cases hloaded : contents.manifests[manifest]? with
  | none =>
    rw [hloaded] at h
    cases h
  | some loaded =>
    simp only [hloaded, bind_eq_ok_iff, Except.ok.injEq, exists_eq_left', Unique.exists_iff,
      ensure_eq_ok_iff] at h
    obtain ⟨-, -, -, hsize, -, -, -, ⟨kept, keptLen⟩, hkeep, heq⟩ := h
    cases heq
    obtain ⟨hlength, others, hentries, hfull, hbelow, hstops⟩ := keepEntries_eq_ok hkeep
    rw [Nat.zero_add] at hlength
    subst hlength
    exact ⟨loaded, others, rfl, hsize, rfl, hentries, ⟨hfull, hbelow (Nat.zero_le _), hstops⟩, rfl,
      rfl, rfl, rfl⟩

theorem split_blocks (h : List.Forall₂ contents.Holds (kept ++ others) blocks) :
    ∃ front back, List.Forall₂ contents.Holds kept front ∧
      List.Forall₂ contents.Holds others back ∧
      front.flatten = blocks.flatten.take (lengthOf kept) ∧
      back.flatten = blocks.flatten.drop (lengthOf kept) := by
  have hfront := List.forall₂_take kept.length h
  have hback := List.forall₂_drop kept.length h
  rw [List.take_left] at hfront
  rw [List.drop_left] at hback
  have hlength := Contents.length_flatten hfront
  have hwhole : blocks.flatten =
      (blocks.take kept.length).flatten ++ (blocks.drop kept.length).flatten := by
    rw [← List.flatten_append, List.take_append_drop]
  refine ⟨_, _, hfront, hback, ?_, ?_⟩
  · rw [hwhole, List.take_left' hlength]
  · rw [hwhole, List.drop_left' hlength]

/-- The old bytes with the patch, and behind it what the stream goes on with. -/
theorem take_spliced {old patch : Bytes} {front offset behind : Nat} (hfront : front ≤ offset)
    (hbehind : front ≤ behind) (hle : front ≤ old.length) :
    old.take front ++ ((old.drop front).take (offset - front) ++
        List.replicate (offset - old.length) 0 ++ patch ++
        (old.drop front).drop (behind - front)).take
          (max old.length (offset + patch.length) - front) =
      old.take offset ++ List.replicate (offset - old.length) 0 ++ patch ++
        (old.drop behind).take (old.length - (offset + patch.length)) := by
  have hhead : old.take front ++ (old.drop front).take (offset - front) = old.take offset := by
    rw [← List.take_add, Nat.add_sub_cancel' hfront]
  have hlength : ((old.drop front).take (offset - front) ++
      List.replicate (offset - old.length) 0 ++ patch).length = offset + patch.length - front := by
    simp only [List.length_append, List.length_take, List.length_drop, List.length_replicate]
    omega
  have hrest : max old.length (offset + patch.length) - front - (offset + patch.length - front) =
      old.length - (offset + patch.length) := by omega
  have hwhole := List.take_of_length_le
    (show _ ≤ max old.length (offset + patch.length) - front by rw [hlength]; omega)
  rw [List.take_append, hwhole, hlength, hrest, List.drop_drop, Nat.add_sub_cancel' hbehind]
  simp only [← List.append_assoc, hhead]

variable [DecidableEq α] [Std.LawfulEqOrd α] {addressing : Addressing α μ}

/-- The bytes that come out of a splice, for every old value, offset and patch. -/
theorem spliceRangeJob_value (hfree : addressing.Collisionless)
    (hsound : contents.Sound addressing) {loaded : ChunkManifest α}
    (hloaded : contents.manifests[manifest]? = some loaded) {old : Bytes}
    (hold : contents.value manifest old.length = .ok old) {patch : Bytes}
    {staged : StagedValue α μ}
    (h : spliceRangeJob addressing contents manifest old.length offset patch =
      .ok (staged, later)) :
    later.Extends contents ∧ later.value staged.manifest staged.logicalLen =
      .ok (old.take offset ++ List.replicate (offset - old.length) 0 ++ patch ++
        (old.drop (min (offset + patch.length) (loaded.reach offset))).take
          (old.length - (offset + patch.length))) := by
  obtain ⟨found, hfound, htotal, ⟨blocks, hblocks, hflatten⟩, hlength⟩ :=
    Contents.value_eq_ok_iff.mp hold
  obtain rfl : found = loaded := Option.some.inj (hfound.symm.trans hloaded)
  simp only [spliceRangeJob, bind_eq_ok_iff] at h
  obtain ⟨plan, hplan, h⟩ := h
  obtain ⟨other, others, hother, hsize, hentries, hsplit, hkept, hboundary, hkeptLen, hpatchEnd,
    hnewTotal⟩ := splicePlan_eq_ok hplan
  obtain rfl : other = found := Option.some.inj (hother.symm.trans hloaded)
  have hformed := (hsound.manifest _ _ hloaded).2
  have hreach := hkept.reach_eq hformed hsize hsplit
  have hbelow := hkept.below
  rw [hsplit] at hblocks
  obtain ⟨front, back, hfront, hback, hfrontBytes, hbackBytes⟩ := split_blocks hblocks
  rw [hflatten] at hfrontBytes hbackBytes
  have hlengthOf : lengthOf other.entries = old.length := hformed.total.trans htotal
  have hkeptLe : lengthOf plan.kept ≤ old.length := by
    rw [← hlengthOf, hsplit, lengthOf_append]
    omega
  have hspliced := @take_spliced old patch (lengthOf plan.kept) offset
    (min (offset + patch.length) (other.reach offset)) hbelow (by omega) hkeptLe
  by_cases hnothing : patch = [] ∧ offset ≤ old.length ∧ offset = plan.keptLen
  · -- all entries are kept
    rw [if_pos hnothing, bind_eq_ok_iff] at h
    obtain ⟨built, hbuilt, heq⟩ := h
    cases heq
    obtain ⟨hbuiltEntries, hbuiltTotal, hbuiltFormed⟩ := buildManifest_eq_ok hbuilt
    obtain ⟨rfl, hoffset, hkeptOffset⟩ := hnothing
    rw [hentries, hsplit, hboundary, List.drop_left] at hbuiltEntries
    have hstaged := contents.extends_stageManifest (addressing.manifestId built) built
    have hvalue := Contents.value_of_formed (hsound.getElem?_stageManifest hfree built)
      hbuiltFormed (hstaged.forall₂ (hbuiltEntries ▸ hblocks))
    rw [hbuiltTotal, hflatten] at hvalue
    have hmin : min offset (other.reach offset) = offset := by omega
    have hgap : offset - old.length = 0 := by omega
    have hbehind : (old.drop offset).take (old.length - offset) = old.drop offset :=
      List.take_of_length_le (Nat.le_of_eq List.length_drop)
    refine ⟨hstaged, hvalue.trans ?_⟩
    rw [List.length_nil, Nat.add_zero, hmin, hgap, List.replicate_zero, List.append_nil,
      List.append_nil, hbehind, List.take_append_drop]
  · rw [if_neg hnothing] at h
    simp only [bind_eq_ok_iff] at h
    obtain ⟨stream, hopen, ⟨entries, grown⟩, hpieces, built, hbuilt, heq⟩ := h
    cases heq
    obtain ⟨hbuiltEntries, hbuiltTotal, hbuiltFormed⟩ := buildManifest_eq_ok hbuilt
    rw [← hlengthOf] at hopen
    have hrests := openAt_eq_ok hformed hsplit hkept hback (hentries.trans hsplit) hboundary
      hkeptLen (by omega) hopen
    obtain ⟨hextends, hgrown, newBlocks, hnewBlocks, hnewBytes, hnewLength⟩ :=
      stagePieces_eq_ok hfree hsound hrests hpieces
    have hstaged := grown.extends_stageManifest (addressing.manifestId built) built
    have hall : List.Forall₂ (grown.stageManifest (addressing.manifestId built) built).Holds
        built.entries (front ++ newBlocks) := by
      rw [hbuiltEntries]
      exact List.rel_append (hstaged.forall₂ (hextends.forall₂ hfront))
        (hstaged.forall₂ hnewBlocks)
    have hvalue := Contents.value_of_formed (hgrown.getElem?_stageManifest hfree built)
      hbuiltFormed hall
    have hsum := hbuiltFormed.total
    rw [hbuiltEntries, lengthOf_append, hnewLength, hbuiltTotal, hnewTotal] at hsum
    refine ⟨hstaged.trans hextends, ?_⟩
    rw [← hbuiltTotal, hvalue, List.flatten_append, hnewBytes, hfrontBytes, hbackBytes, ← hspliced,
      hlengthOf, hpatchEnd, hreach, ← hsum, Nat.add_sub_cancel_left]

end Lane

end Kivi.Chunk
