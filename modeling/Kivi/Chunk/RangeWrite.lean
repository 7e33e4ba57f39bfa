import Kivi.Chunk.Splice
import Kivi.State.Store

/-!
# Range writes over all representations

A byte value is absent, inline, held by the memory fabric or chunked. A range write is planned
against the value that is found: a small result is spliced by the tablet, a larger one is staged
anew as a whole, and a chunked value is spliced by its lane. `Holdings.resolve` reads a value
whatever holds it. `resolve_setRange_iff` says when what is read after the write is the old value
overwritten from the offset (`overwritten`): always, except that a patch that reaches beyond the
chunk behind the one it begins in, and ends inside a chunked value, brings back old bytes from the
wrong place.
-/

namespace Kivi.Chunk

open Library Library.Fallible State

def maxInlineValueBytes : Nat := 64 * 1024 * 1024

def fabricInlineMax : Nat := 1024

/-! ### What is written into -/

/-- A byte value as a tablet stores it. -/
inductive ByteRoot (μ : Type) where
  | inline (bytes : Bytes)
  | chunked (manifest : μ) (logicalLen : Nat)
  | fabric (reference : FabricRef)
deriving DecidableEq

inductive RangeBase (μ : Type) where
  | absent
  | nonBytes (objectVersion : ObjectVersion)
  | inline (bytes : Bytes) (objectVersion : ObjectVersion)
  | chunked (manifest : μ) (logicalLen : Nat) (objectVersion : ObjectVersion)
  | fabric (reference : FabricRef) (objectVersion : ObjectVersion)
  /-- The bytes that the fabric gave. -/
  | fabricInline (reference : FabricRef) (objectVersion : ObjectVersion) (bytes : Bytes)

inductive RangeRejection where
  | overflow
  | tooLarge (result : Nat)
  | unresolvedFabric
  | addressSpace
deriving DecidableEq

inductive SetRangePlan (μ : Type) where
  | inline (key : Key) (offset : UInt64) (patch : Bytes)
  | restageSet (key : Key) (value : Bytes) (fence : RangeRootFence (μ × Nat))
  | splice (key : Key) (manifest : μ) (logicalLen : Nat) (offset : UInt64) (patch : Bytes)
      (fence : RangeRootFence (μ × Nat))
  | reject (detail : RangeRejection)

variable {α μ : Type}

def RangeBase.fence : RangeBase μ → RangeRootFence (μ × Nat)
  | .absent => ⟨none, .absent⟩
  | .nonBytes version => ⟨some version, .nonBytes⟩
  | .inline _ version => ⟨some version, .inline⟩
  | .chunked manifest logicalLen version => ⟨some version, .chunked (manifest, logicalLen)⟩
  | .fabric reference version | .fabricInline reference version _ =>
    ⟨some version, .fabric reference⟩

/-- Stage the spliced bytes as a new value. Within the bound on results the splice cannot fail to
allocate. -/
def restage (key : Key) (fence : RangeRootFence (μ × Nat)) (bytes : Bytes)
    (offset : UInt64) (patch : Bytes) : SetRangePlan μ :=
  match spliceInline bytes offset patch with
  | .ok value => .restageSet key value fence
  | _ => .reject .addressSpace

def planSetRange (key : Key) (offset : UInt64) (patch : Bytes) (base : RangeBase μ)
    (threshold : Nat) : SetRangePlan μ :=
  let patchEnd := offset.toNat + patch.length
  if 2 ^ 64 ≤ patchEnd then .reject .overflow
  else match base with
  | .nonBytes _ => .inline key offset patch
  | .chunked manifest logicalLen _ => .splice key manifest logicalLen offset patch base.fence
  | .fabric _ _ => .reject .unresolvedFabric
  | .fabricInline _ _ bytes =>
    let result := max bytes.length patchEnd
    if maxInlineValueBytes < result then .reject (.tooLarge result)
    else restage key base.fence bytes offset patch
  | .absent =>
    if maxInlineValueBytes < patchEnd then .reject (.tooLarge patchEnd)
    else if threshold < patchEnd then
      .restageSet key (List.replicate offset.toNat 0 ++ patch) base.fence
    else .inline key offset patch
  | .inline bytes _ =>
    let result := max bytes.length patchEnd
    if maxInlineValueBytes < result then .reject (.tooLarge result)
    else if threshold < result then restage key base.fence bytes offset patch
    else .inline key offset patch

/-! ### Carrying a plan out -/

inductive RangeWriteError (α μ : Type) where
  | rejected (detail : RangeRejection)
  | fabricUnavailable
  | overloaded
  | chunkStore (error : ChunkError α μ)
  | unresolvableSplice
deriving DecidableEq

section Node

variable [Ord α] [Std.TransOrd α] [Ord μ] [Std.TransOrd μ]

/-- The bytes that a node holds outside of its tablets. -/
structure Holdings (α μ : Type) [Ord α] [Std.TransOrd α] [Ord μ] [Std.TransOrd μ] where
  contents : Contents α μ
  fabric : Std.ExtTreeMap UInt64 Bytes
  nextFabric : UInt64

namespace Holdings

/-- What a value reads as; nothing reads as no bytes. -/
def resolve (holdings : Holdings α μ) : Option (ByteRoot μ) → Option Bytes
  | none => some []
  | some (.inline bytes) => some bytes
  | some (.chunked manifest logicalLen) =>
    (holdings.contents.value manifest logicalLen).toOption
  | some (.fabric reference) =>
    holdings.fabric[reference.id]?.filter fun bytes ↦ bytes.length == reference.logicalLen.toNat

/-- The value as it is found, with the bytes of the fabric if it holds them. -/
def rangeBase (holdings : Holdings α μ) :
    Option (ByteRoot μ × ObjectVersion) → Except (RangeWriteError α μ) (RangeBase μ)
  | none => .ok .absent
  | some (.inline bytes, version) => .ok (.inline bytes version)
  | some (.chunked manifest logicalLen, version) => .ok (.chunked manifest logicalLen version)
  | some (.fabric reference, version) =>
    match holdings.resolve (some (.fabric reference)) with
    | some bytes => .ok (.fabricInline reference version bytes)
    | none => .error .fabricUnavailable

variable [DecidableEq α]

/-- The loop of `stage_value_job`: the pieces of the value from `start` on. -/
def stageSlices (addressing : Addressing α μ) (value : Bytes) :
    List Nat → Nat → Contents α μ → List (ChunkEntry α) × Contents α μ
  | [], _, contents => ([], contents)
  | len :: rest, start, contents =>
    let piece := (value.drop start).take len
    let id := addressing.chunkId piece
    let (entries, contents) :=
      stageSlices addressing value rest (start + len) (contents.stageChunk id piece)
    (⟨id, len⟩ :: entries, contents)

def stageValueJob (addressing : Addressing α μ) (contents : Contents α μ) (value : Bytes) :
    Except (ChunkError α μ) (StagedValue α μ × Contents α μ) := do
  let chunking := Chunking.default
  chunking.validate
  let (entries, contents) :=
    stageSlices addressing value (chunking.splitLengths value.length) 0 contents
  let built ← buildManifest addressing.zero chunking codecNone value.length entries
  let id := addressing.manifestId built
  pure (⟨entries.map fun entry ↦ (entry.id, entry.len), id, value.length⟩,
    contents.stageManifest id built)

/-- Bytes of medium size go to the fabric if it has room, and all others to the chunk lane. -/
def stageRestaged (addressing : Addressing α μ) (threshold : Nat) (room : Bool)
    (value : Bytes) (holdings : Holdings α μ) :
    Except (RangeWriteError α μ) (ByteRoot μ × Holdings α μ) :=
  if fabricInlineMax < value.length ∧ value.length ≤ threshold then
    if room then
      .ok (.fabric ⟨holdings.nextFabric, UInt64.ofNat value.length, 0⟩,
        { holdings with
          fabric := holdings.fabric.insert holdings.nextFabric value
          nextFabric := holdings.nextFabric + 1 })
    else .error .overloaded
  else
    match stageValueJob addressing holdings.contents value with
    | .ok (staged, contents) =>
      .ok (.chunked staged.manifest staged.logicalLen, { holdings with contents := contents })
    | .error error => .error (.chunkStore error)

/-- A range write that nothing comes between. -/
def setRange (addressing : Addressing α μ) (threshold : Nat) (room : Bool) (key : Key)
    (root : Option (ByteRoot μ × ObjectVersion)) (offset : UInt64) (patch : Bytes)
    (holdings : Holdings α μ) : Except (RangeWriteError α μ) (ByteRoot μ × Holdings α μ) := do
  let base ← holdings.rangeBase root
  match planSetRange key offset patch base threshold with
  | .inline _ offset patch =>
    -- the tablet splices what it has inline
    let bytes := match root with
      | some (.inline bytes, _) => bytes
      | _ => []
    match spliceInline bytes offset patch with
    | .ok spliced => .ok (.inline spliced, holdings)
    | _ => .error .unresolvableSplice
  | .restageSet _ value _ => stageRestaged addressing threshold room value holdings
  | .splice _ manifest logicalLen offset patch _ =>
    match spliceRangeJob addressing holdings.contents manifest logicalLen offset.toNat patch with
    | .ok (staged, contents) =>
      .ok (.chunked staged.manifest staged.logicalLen, { holdings with contents := contents })
    | .error error => .error (.chunkStore error)
  | .reject detail => .error (.rejected detail)

end Holdings

end Node

/-! ### The one meaning -/

/-- The old bytes padded with zeros to the offset and overwritten by the patch from there. -/
def overwritten (old : Bytes) (offset : Nat) (patch : Bytes) : Bytes :=
  old.take offset ++ List.replicate (offset - old.length) 0 ++ patch ++
    old.drop (offset + patch.length)

variable {patch : Bytes} {offset : UInt64}

theorem spliceInline_eq_ok {base spliced : Bytes}
    (h : spliceInline base offset patch = .ok spliced) :
    spliced = overwritten base offset.toNat patch := by
  simp only [spliceInline] at h
  split_ifs at h
  cases h
  have hfront : base.take (min offset.toNat base.length) = base.take offset.toNat := by
    rcases Nat.le_total offset.toNat base.length with hle | hle
    · rw [Nat.min_eq_left hle]
    · rw [Nat.min_eq_right hle, List.take_length, List.take_of_length_le hle]
  have hgap : offset.toNat - (base.take offset.toNat).length = offset.toNat - base.length := by
    rw [List.length_take]
    omega
  rw [overwritten, hfront, hgap]

theorem sum_splitLengths {chunking : Chunking} (hsize : chunking.chunkSize ≠ 0) (total : Nat) :
    (chunking.splitLengths total).sum = total := by
  rw [Chunking.splitLengths]
  by_cases hzero : total = 0
  · rw [if_pos (Or.inr hzero), hzero]
    rfl
  · rw [if_neg (by simp [hsize, hzero]), List.sum_append, List.sum_replicate, smul_eq_mul]
    have hdiv := Nat.div_add_mod' total chunking.chunkSize
    split_ifs
    · rw [List.sum_singleton]
      exact hdiv
    · rw [List.sum_nil]
      omega

/-- Within the bound, the value that is staged anew is the old one overwritten. -/
theorem restage_eq {key : Key} {fence : RangeRootFence (μ × Nat)} {bytes : Bytes}
    (hend : max bytes.length (offset.toNat + patch.length) ≤ maxInlineValueBytes) :
    restage key fence bytes offset patch =
      .restageSet key (overwritten bytes offset.toNat patch) fence := by
  have hbound : maxInlineValueBytes < maxAllocation := by decide
  have hword : maxInlineValueBytes < 2 ^ 64 := by decide
  rw [restage]
  cases hsplice : spliceInline bytes offset patch with
  | ok value => rw [spliceInline_eq_ok hsplice]
  | err error =>
    simp only [spliceInline] at hsplice
    rw [if_neg (by omega), if_neg (by omega)] at hsplice
    cases hsplice
  | panic =>
    simp only [spliceInline] at hsplice
    rw [if_neg (by omega), if_neg (by omega)] at hsplice
    cases hsplice

section Node

variable [Ord α] [Std.TransOrd α] [Ord μ] [Std.TransOrd μ] {addressing : Addressing α μ}

namespace Holdings

variable {value bytes : Bytes} {holdings later : Holdings α μ} {root : ByteRoot μ}

/-- What the tablet splices is the old value overwritten. -/
theorem resolve_inline
    (h : (match spliceInline bytes offset patch with
      | .ok spliced => .ok (.inline spliced, holdings)
      | _ => .error .unresolvableSplice :
        Except (RangeWriteError α μ) (ByteRoot μ × Holdings α μ)) = .ok (root, later)) :
    later.resolve (some root) = some (overwritten bytes offset.toNat patch) := by
  cases hsplice : spliceInline bytes offset patch with
  | ok spliced =>
    rw [hsplice] at h
    cases h
    rw [resolve, spliceInline_eq_ok hsplice]
  | err error =>
    rw [hsplice] at h
    cases h
  | panic =>
    rw [hsplice] at h
    cases h

/-- The staged slices hold the value, and what was stored before stays. -/
theorem stageSlices_holds [Std.LawfulEqOrd α] (hfree : addressing.Collisionless)
    {contents : Contents α μ} (hsound : contents.Sound addressing) {pieces : List Nat}
    {start : Nat} (hfits : start + pieces.sum ≤ value.length) {entries : List (ChunkEntry α)}
    {later : Contents α μ}
    (h : stageSlices addressing value pieces start contents = (entries, later)) :
    later.Extends contents ∧ later.Sound addressing ∧
      ∃ blocks, List.Forall₂ later.Holds entries blocks ∧
        blocks.flatten = (value.drop start).take pieces.sum := by
  induction pieces generalizing start contents entries with
  | nil =>
    cases h
    exact ⟨.refl _, hsound, [], .nil, by simp⟩
  | cons len rest ih =>
    rw [List.sum_cons] at hfits
    simp only [stageSlices] at h
    rcases hrest : stageSlices addressing value rest (start + len)
      (contents.stageChunk (addressing.chunkId ((value.drop start).take len))
        ((value.drop start).take len)) with ⟨others, final⟩
    rw [hrest] at h
    cases h
    have hstaged := contents.extends_stageChunk
      (addressing.chunkId ((value.drop start).take len)) ((value.drop start).take len)
    obtain ⟨hextends, hfinal, blocks, hblocks, hflatten⟩ :=
      ih (hsound.stageChunk _) (by omega) hrest
    refine ⟨hextends.trans hstaged, hfinal, _ :: blocks, .cons ⟨hextends.chunk _ _
      (hsound.getElem?_stageChunk hfree _), ?_⟩ hblocks, ?_⟩
    · show _ = len
      rw [List.length_take, List.length_drop]
      omega
    · rw [List.flatten_cons, hflatten, List.sum_cons, List.take_add, List.drop_drop]

variable [DecidableEq α]

/-- A value that is staged as a whole is read back. -/
theorem stageValueJob_value [Std.LawfulEqOrd α] (hfree : addressing.Collisionless)
    {contents later : Contents α μ} (hsound : contents.Sound addressing)
    {staged : StagedValue α μ} (h : stageValueJob addressing contents value = .ok (staged, later)) :
    later.value staged.manifest staged.logicalLen = .ok value := by
  rcases hslices : stageSlices addressing value (Chunking.default.splitLengths value.length) 0
    contents with ⟨entries, grown⟩
  simp only [stageValueJob, bind_eq_ok_iff, Unique.exists_iff, hslices] at h
  obtain ⟨-, built, hbuilt, heq⟩ := h
  cases heq
  obtain ⟨hentries, htotal, hformed⟩ := buildManifest_eq_ok hbuilt
  have hsum := sum_splitLengths (show Chunking.default.chunkSize ≠ 0 by decide) value.length
  obtain ⟨-, hgrown, blocks, hblocks, hflatten⟩ :=
    stageSlices_holds hfree hsound (by rw [hsum, Nat.zero_add]) hslices
  rw [hsum, List.drop_zero, List.take_length] at hflatten
  have hstaged := grown.extends_stageManifest (addressing.manifestId built) built
  rw [← hentries] at hblocks
  have hvalue := Contents.value_of_formed (hgrown.getElem?_stageManifest hfree built) hformed
    (hstaged.forall₂ hblocks)
  rwa [htotal, hflatten] at hvalue

/-- A value that is staged anew is resolved as it is. -/
theorem stageRestaged_resolve [Std.LawfulEqOrd α] (hfree : addressing.Collisionless)
    (hsound : holdings.contents.Sound addressing) {threshold : Nat} {room : Bool}
    (hlength : value.length < 2 ^ 64)
    (h : stageRestaged addressing threshold room value holdings = .ok (root, later)) :
    later.resolve (some root) = some value := by
  rw [stageRestaged] at h
  split at h
  · cases room with
    | false => cases h
    | true =>
      cases h
      have hget : (holdings.fabric.insert holdings.nextFabric value)[holdings.nextFabric]? =
          some value := Std.ExtTreeMap.getElem?_insert_self
      have hlen : (UInt64.ofNat value.length).toNat = value.length :=
        UInt64.toNat_ofNat_of_lt' hlength
      simp only [resolve, hget, Option.filter_some, hlen, beq_self_eq_true, if_true]
  · cases hstage : stageValueJob addressing holdings.contents value with
    | error error =>
      rw [hstage] at h
      cases h
    | ok result =>
      obtain ⟨staged, contents⟩ := result
      rw [hstage] at h
      cases h
      simp only [resolve, stageValueJob_value hfree hsound hstage, Except.toOption]

/-- The patch ends in the chunk it begins in or in the next one, or behind the old value; or what
the old value has from the end of the next chunk on is what it has from the end of the patch on. -/
def Continues (holdings : Holdings α μ) (root : Option (ByteRoot μ)) (old : Bytes)
    (offset patchLen : Nat) : Prop :=
  match root with
  | some (.chunked manifest _) =>
    ∀ loaded ∈ holdings.contents.manifests[manifest]?,
      offset + patchLen ≤ loaded.reach offset ∨ old.length ≤ offset + patchLen ∨
        (old.drop (loaded.reach offset)).take (old.length - (offset + patchLen)) =
          old.drop (offset + patchLen)
  | _ => True

theorem overwritten_nil (offset : Nat) (patch : Bytes) :
    overwritten [] offset patch = List.replicate offset 0 ++ patch := by
  simp [overwritten]

theorem tail_eq_iff {old : Bytes} {patchEnd reach : Nat} :
    (old.drop (min patchEnd reach)).take (old.length - patchEnd) = old.drop patchEnd ↔
      patchEnd ≤ reach ∨ old.length ≤ patchEnd ∨
        (old.drop reach).take (old.length - patchEnd) = old.drop patchEnd := by
  rcases Nat.le_total patchEnd reach with hle | hle
  · have hwhole : (old.drop patchEnd).take (old.length - patchEnd) = old.drop patchEnd :=
      List.take_of_length_le (Nat.le_of_eq List.length_drop)
    rw [Nat.min_eq_left hle, hwhole]
    exact ⟨fun _ ↦ Or.inl hle, fun _ ↦ rfl⟩
  · rw [Nat.min_eq_right hle]
    refine ⟨fun h ↦ Or.inr (Or.inr h), fun h ↦ ?_⟩
    rcases h with hends | hbehind | h
    · obtain rfl := Nat.le_antisymm hends hle
      exact List.take_of_length_le (Nat.le_of_eq List.length_drop)
    · rw [List.drop_of_length_le hbehind, Nat.sub_eq_zero_of_le hbehind, List.take_zero]
    · exact h

variable [Std.LawfulEqOrd α]

/-- A write on a value that is not chunked. -/
theorem resolve_restage (hfree : addressing.Collisionless)
    (hsound : holdings.contents.Sound addressing) {threshold : Nat} {room : Bool} {offset : Nat}
    (hend : max bytes.length (offset + patch.length) ≤ maxInlineValueBytes)
    (h : stageRestaged addressing threshold room (overwritten bytes offset patch) holdings =
      .ok (root, later)) :
    later.resolve (some root) = some (overwritten bytes offset patch) := by
  have hword : maxInlineValueBytes < 2 ^ 64 := by decide
  refine stageRestaged_resolve hfree hsound ?_ h
  simp only [overwritten, List.length_append, List.length_take, List.length_replicate,
    List.length_drop]
  omega

/-- A range write that succeeds leaves the old bytes with the patch over them exactly if the part
behind the patch is where the write looks for it: it keeps what the chunks behind the patched ones
hold, without asking where the patch ends. -/
theorem resolve_setRange_iff (hfree : addressing.Collisionless) {holdings later : Holdings α μ}
    (hsound : holdings.contents.Sound addressing) {threshold : Nat} {room : Bool} {key : Key}
    {root : Option (ByteRoot μ × ObjectVersion)} {offset : UInt64} {patch old : Bytes}
    (hold : holdings.resolve (root.map Prod.fst) = some old) {written : ByteRoot μ}
    (h : holdings.setRange addressing threshold room key root offset patch =
      .ok (written, later)) :
    later.resolve (some written) = some (overwritten old offset.toNat patch) ↔
      holdings.Continues (root.map Prod.fst) old offset.toNat patch.length := by
  rcases root with _ | ⟨bytes | ⟨manifest, logicalLen⟩ | reference, version⟩
  · cases hold
    refine iff_of_true ?_ trivial
    simp only [setRange, rangeBase, bind_eq_ok_iff, Except.ok.injEq, exists_eq_left',
      planSetRange] at h
    split_ifs at h with hover hlarge hthreshold
    · dsimp only at h
      rw [← overwritten_nil] at h
      refine resolve_restage hfree hsound ?_ h
      rw [List.length_nil, Nat.zero_max]
      exact Nat.le_of_not_lt hlarge
    · exact resolve_inline h
  · cases hold
    refine iff_of_true ?_ trivial
    simp only [setRange, rangeBase, bind_eq_ok_iff, Except.ok.injEq, exists_eq_left',
      planSetRange] at h
    split_ifs at h with hover hlarge hthreshold
    · rw [restage_eq (Nat.le_of_not_lt hlarge)] at h
      exact resolve_restage hfree hsound (Nat.le_of_not_lt hlarge) h
    · exact resolve_inline h
  · have hvalue : holdings.contents.value manifest logicalLen = .ok old := by
      cases hread : holdings.contents.value manifest logicalLen with
      | ok bytes =>
        rw [Option.map_some, resolve, hread] at hold
        rw [Option.some.inj hold]
      | error error =>
        rw [Option.map_some, resolve, hread] at hold
        cases hold
    obtain ⟨loaded, hloaded, -, -, rfl⟩ := Contents.value_eq_ok_iff.mp hvalue
    simp only [setRange, rangeBase, bind_eq_ok_iff, Except.ok.injEq, exists_eq_left',
      planSetRange] at h
    by_cases hover : 2 ^ 64 ≤ offset.toNat + patch.length
    · rw [if_pos hover] at h
      cases h
    rw [if_neg hover] at h
    dsimp only at h
    cases hjob : spliceRangeJob addressing holdings.contents manifest old.length offset.toNat
        patch with
    | error error =>
      rw [hjob] at h
      cases h
    | ok result =>
      obtain ⟨staged, contents⟩ := result
      rw [hjob] at h
      cases h
      obtain ⟨-, hspliced⟩ := spliceRangeJob_value hfree hsound hloaded hvalue hjob
      simp only [resolve, hspliced, Except.toOption, Option.some.injEq, overwritten,
        List.append_cancel_left_eq, tail_eq_iff, Option.map_some, Continues, hloaded,
        Option.mem_def, forall_eq']
  · refine iff_of_true ?_ trivial
    rw [Option.map_some] at hold
    simp only [setRange, rangeBase, hold, bind_eq_ok_iff, Except.ok.injEq, exists_eq_left',
      planSetRange] at h
    split_ifs at h with hover hlarge
    rw [restage_eq (Nat.le_of_not_lt hlarge)] at h
    exact resolve_restage hfree hsound (Nat.le_of_not_lt hlarge) h

end Holdings

end Node

/-- Every content is its own address. -/
def plainAddressing : Addressing Bytes (List (List Nat)) where
  chunkId := id
  manifestId manifest :=
    [manifest.totalLen, manifest.chunkingVersion.toNat, manifest.chunkSize,
      manifest.codec.toNat] ::
      manifest.entries.map fun entry ↦ entry.len :: entry.id.map UInt8.toNat
  zero := []

theorem collisionless_plainAddressing : plainAddressing.Collisionless where
  chunk := Function.injective_id
  manifest first second h := by
    obtain ⟨hhead, htail⟩ := List.cons.inj h
    simp only [List.cons.injEq, UInt16.toNat_inj, UInt8.toNat_inj, and_true] at hhead
    have hentry : Function.Injective fun entry : ChunkEntry Bytes ↦
        entry.len :: entry.id.map UInt8.toNat := by
      rintro ⟨id, len⟩ ⟨id', len'⟩ heq
      obtain ⟨hlen, hid⟩ := List.cons.inj heq
      have hbytes := List.map_injective_iff.mpr (fun _ _ ↦ UInt8.toNat_inj.mp) hid
      simp only at hlen hbytes
      rw [hlen, hbytes]
    have hentries := List.map_injective_iff.mpr hentry htail
    cases first
    cases second
    simp_all

/-- Eight bytes in chunks of two. -/
def eightBytes : ChunkManifest Bytes :=
  ⟨8, chunkingV1, 2, codecNone, [⟨[0, 1], 2⟩, ⟨[2, 3], 2⟩, ⟨[4, 5], 2⟩, ⟨[6, 7], 2⟩]⟩

def eightBytesHeld : Holdings Bytes (List (List Nat)) :=
  let chunks : Contents Bytes (List (List Nat)) :=
    ((((⟨∅, ∅⟩ : Contents Bytes (List (List Nat))).stageChunk [0, 1] [0, 1]).stageChunk
      [2, 3] [2, 3]).stageChunk [4, 5] [4, 5]).stageChunk [6, 7] [6, 7]
  ⟨chunks.stageManifest (plainAddressing.manifestId eightBytes) eightBytes, ∅, 1⟩

theorem sound_eightBytesHeld : eightBytesHeld.contents.Sound plainAddressing := by
  have hbuilt : buildManifest (μ := List (List Nat)) [] ⟨chunkingV1, 2⟩ codecNone 8
      eightBytes.entries = .ok eightBytes := by rfl
  obtain ⟨-, -, hformed⟩ := buildManifest_eq_ok hbuilt
  refine Contents.Sound.stageManifest ?_ hformed
  have hempty := Contents.sound_empty plainAddressing
  exact (((hempty.stageChunk [0, 1]).stageChunk [2, 3]).stageChunk [4, 5]).stageChunk [6, 7]

/-- The root of the eight bytes. -/
def eightBytesRoot : Option (ByteRoot (List (List Nat)) × ObjectVersion) :=
  some (.chunked (plainAddressing.manifestId eightBytes) 8, ⟨1⟩)

/-- Five bytes written at the front end inside the third chunk, and the bytes that follow them are
taken from the front of it. -/
theorem setRange_misplaces_tail :
    eightBytesHeld.resolve (eightBytesRoot.map Prod.fst) = some [0, 1, 2, 3, 4, 5, 6, 7] ∧
      overwritten [0, 1, 2, 3, 4, 5, 6, 7] 0 [9, 9, 9, 9, 9] = [9, 9, 9, 9, 9, 5, 6, 7] ∧
      ((eightBytesHeld.setRange plainAddressing 0 true [] eightBytesRoot 0
          [9, 9, 9, 9, 9]).toOption.bind fun result ↦ result.2.resolve (some result.1)) =
        some [9, 9, 9, 9, 9, 4, 5, 6] := by
  decide +kernel

/-- Two bytes that end in the next chunk. -/
theorem resolve_setRange_eightBytes :
    ∃ written later, eightBytesHeld.setRange plainAddressing 0 true [] eightBytesRoot 1 [9, 9] =
        .ok (written, later) ∧
      later.resolve (some written) = some (overwritten [0, 1, 2, 3, 4, 5, 6, 7] 1 [9, 9]) := by
  have hsome : (eightBytesHeld.setRange plainAddressing 0 true [] eightBytesRoot 1
      [9, 9]).toOption.isSome = true := by decide +kernel
  have hold : eightBytesHeld.resolve (eightBytesRoot.map Prod.fst) =
      some [0, 1, 2, 3, 4, 5, 6, 7] := by decide +kernel
  cases hwrite : eightBytesHeld.setRange plainAddressing 0 true [] eightBytesRoot 1 [9, 9] with
  | error error =>
    rw [hwrite] at hsome
    cases hsome
  | ok result =>
    refine ⟨result.1, result.2, rfl, (Holdings.resolve_setRange_iff collisionless_plainAddressing
      sound_eightBytesHeld hold hwrite).mpr fun loaded hloaded ↦ Or.inl ?_⟩
    have hmanifest : eightBytesHeld.contents.manifests[plainAddressing.manifestId eightBytes]? =
        some eightBytes := by decide +kernel
    cases hmanifest.symm.trans hloaded
    decide

end Kivi.Chunk
