import Kivi.Library.Bytes
import Kivi.Library.Fallible
import Kivi.Library.OrderedMaps
import Std.Data.ExtTreeMap

/-!
# Chunk manifests

A large value is held as chunks of one size, the last one as long as it has to be, and a manifest
that lists them. Chunks and manifests are found under their content hash; the addresses may be of
any type, and hashing is a pair of functions into them. `Contents` is what reads of one lane
return, and `Contents.value` is what a chunked value reads as.
-/

namespace Kivi.Chunk

open Library Library.Fallible Library.OrderedMaps

def chunkingV1 : UInt16 := 1

def defaultChunkSize : Nat := 1048576

def maxChunksPerManifest : Nat := 65535

/-- The codec that stores the bytes as they are, and the only one that is supported. -/
def codecNone : UInt8 := 0

structure Chunking where
  version : UInt16
  chunkSize : Nat
deriving DecidableEq

def Chunking.default : Chunking := ⟨chunkingV1, defaultChunkSize⟩

structure ChunkEntry (α : Type) where
  id : α
  len : Nat
deriving DecidableEq

structure ChunkManifest (α : Type) where
  totalLen : Nat
  chunkingVersion : UInt16
  chunkSize : Nat
  codec : UInt8
  entries : List (ChunkEntry α)
deriving DecidableEq

/-- What is wrong with a manifest. -/
inductive ManifestFault where
  | emptyEntries (total : Nat)
  | zeroLength
  | invalidChunkId
  | chunkSize (index len chunkSize : Nat)
  | overflow
  | total (sum total : Nat)
  | rootClaim (total claim : Nat)
  | zeroChunkSize
  | assembled
  | ranDry
deriving DecidableEq

inductive UnsupportedFault where
  | chunkingVersion
  | codec (codec : UInt8)
  | spliceChunking (version : UInt16)
  | spliceCodec (codec : UInt8)
deriving DecidableEq

inductive InvalidFault where
  | chunkSize
  | spliceRange
  | splicePrefix
  | spliceOffset
deriving DecidableEq

inductive ChunkError (α μ : Type) where
  | missingChunk (id : α)
  | missingManifest (id : μ)
  | corruptChunk (id : α)
  /-- Without an identity where the manifest is only being built. -/
  | corruptManifest (id : Option μ) (fault : ManifestFault)
  | unsupported (fault : UnsupportedFault)
  | invalid (fault : InvalidFault)
  | tooLarge (len bound : Nat)
deriving DecidableEq

/-- How contents are addressed. No content has the address `zero`. -/
structure Addressing (α μ : Type) where
  chunkId : Bytes → α
  manifestId : ChunkManifest α → μ
  zero : α

/-- Different contents have different addresses. -/
structure Addressing.Collisionless {α μ : Type} (addressing : Addressing α μ) : Prop where
  chunk : Function.Injective addressing.chunkId
  manifest : Function.Injective addressing.manifestId

section Building

variable {α μ : Type}

def Chunking.validate (chunking : Chunking) : Except (ChunkError α μ) Unit := do
  ensure (chunking.version = chunkingV1) (.unsupported .chunkingVersion)
  ensure (chunking.chunkSize ≠ 0) (.invalid .chunkSize)

/-- Full pieces as long as they fit, and what remains. -/
def Chunking.splitLengths (chunking : Chunking) (total : Nat) : List Nat :=
  if chunking.chunkSize = 0 ∨ total = 0 then []
  else
    List.replicate (total / chunking.chunkSize) chunking.chunkSize ++
      if 0 < total % chunking.chunkSize then [total % chunking.chunkSize] else []

variable [DecidableEq α]

/-- The loop of `validate_entries`: the sum of the lengths from `index` on, added to `sum`. -/
def sumEntries (zero : α) (chunkSize : Nat) :
    Nat → Nat → List (ChunkEntry α) → Except (ChunkError α μ) Nat
  | _, sum, [] => .ok sum
  | index, sum, entry :: rest => do
    ensure (entry.len ≠ 0) (.corruptManifest none .zeroLength)
    ensure (entry.id ≠ zero) (.corruptManifest none .invalidChunkId)
    ensure (rest = [] ∨ entry.len = chunkSize)
      (.corruptManifest none (.chunkSize index entry.len chunkSize))
    ensure (sum + entry.len < 2 ^ 64) (.corruptManifest none .overflow)
    sumEntries zero chunkSize (index + 1) (sum + entry.len) rest

def validateEntries (zero : α) (chunking : Chunking) (total : Nat)
    (entries : List (ChunkEntry α)) : Except (ChunkError α μ) Unit :=
  if entries = [] then
    ensure (total = 0) (.corruptManifest none (.emptyEntries total))
  else do
    let sum ← sumEntries zero chunking.chunkSize 0 0 entries
    ensure (sum = total) (.corruptManifest none (.total sum total))

def buildManifest (zero : α) (chunking : Chunking) (codec : UInt8) (total : Nat)
    (entries : List (ChunkEntry α)) : Except (ChunkError α μ) (ChunkManifest α) := do
  chunking.validate
  ensure (codec = codecNone) (.unsupported (.codec codec))
  ensure (entries.length ≤ maxChunksPerManifest)
    (.tooLarge entries.length maxChunksPerManifest)
  validateEntries zero chunking total entries
  pure ⟨total, chunking.version, chunking.chunkSize, codec, entries⟩

end Building

/-- The length of the bytes that the entries stand for. -/
def lengthOf {α : Type} (entries : List (ChunkEntry α)) : Nat := (entries.map ChunkEntry.len).sum

/-- A manifest that a check has passed: only the last chunk has another size, and the lengths add
up. -/
structure ChunkManifest.Formed {α : Type} (manifest : ChunkManifest α) : Prop where
  full : ∀ front entry back, manifest.entries = front ++ entry :: back → back ≠ [] →
    entry.len = manifest.chunkSize
  total : lengthOf manifest.entries = manifest.totalLen

variable {α : Type}

@[simp] theorem lengthOf_nil : lengthOf ([] : List (ChunkEntry α)) = 0 := rfl

@[simp] theorem lengthOf_cons (entry : ChunkEntry α) (rest : List (ChunkEntry α)) :
    lengthOf (entry :: rest) = entry.len + lengthOf rest := rfl

@[simp] theorem lengthOf_append (front back : List (ChunkEntry α)) :
    lengthOf (front ++ back) = lengthOf front + lengthOf back := by
  simp [lengthOf]

section Built

variable {α μ : Type} [DecidableEq α] {zero : α} {entries : List (ChunkEntry α)}
  {manifest : ChunkManifest α}

theorem sumEntries_eq_ok {chunkSize index sum total : Nat}
    (h : sumEntries (μ := μ) zero chunkSize index sum entries = .ok total) :
    total = sum + lengthOf entries ∧
      ∀ front entry back, entries = front ++ entry :: back → back ≠ [] →
        entry.len = chunkSize := by
  induction entries generalizing index sum with
  | nil =>
    cases h
    exact ⟨rfl, fun front entry back heq ↦ by simp at heq⟩
  | cons first rest ih =>
    simp only [sumEntries, bind_eq_ok_iff, Unique.exists_iff, ensure_eq_ok_iff] at h
    obtain ⟨-, -, hfull, -, hrest⟩ := h
    obtain ⟨htotal, hothers⟩ := ih hrest
    refine ⟨by rw [htotal, lengthOf_cons, Nat.add_assoc], ?_⟩
    intro front entry back heq hback
    cases front with
    | nil =>
      obtain ⟨rfl, rfl⟩ := List.cons.inj heq
      exact hfull.resolve_left hback
    | cons other front =>
      obtain ⟨rfl, rfl⟩ := List.cons.inj heq
      exact hothers front entry back rfl hback

theorem buildManifest_eq_ok {chunking : Chunking} {codec : UInt8} {total : Nat}
    (h : buildManifest (μ := μ) zero chunking codec total entries = .ok manifest) :
    manifest.entries = entries ∧ manifest.totalLen = total ∧ manifest.Formed := by
  simp only [buildManifest, bind_eq_ok_iff, Unique.exists_iff, ensure_eq_ok_iff] at h
  obtain ⟨-, -, -, hvalid, heq⟩ := h
  cases heq
  refine ⟨rfl, rfl, ?_⟩
  rw [validateEntries] at hvalid
  by_cases hempty : entries = []
  · rw [if_pos hempty, ensure_eq_ok_iff] at hvalid
    subst hempty
    exact ⟨fun front entry back heq ↦ by simp at heq, hvalid.symm⟩
  · simp only [if_neg hempty, bind_eq_ok_iff, ensure_eq_ok_iff] at hvalid
    obtain ⟨sum, hsum, htotal⟩ := hvalid
    obtain ⟨hlength, hfull⟩ := sumEntries_eq_ok hsum
    rw [Nat.zero_add] at hlength
    exact ⟨hfull, hlength.symm.trans htotal⟩

end Built

/-! ### What a lane holds -/

section Contents

variable {α μ : Type} [Ord α] [Std.TransOrd α] [Ord μ] [Std.TransOrd μ]

/-- The chunks and manifests that a lane gives back. -/
structure Contents (α μ : Type) [Ord α] [Std.TransOrd α] [Ord μ] [Std.TransOrd μ] where
  chunks : Std.ExtTreeMap α Bytes
  manifests : Std.ExtTreeMap μ (ChunkManifest α)

namespace Contents

variable (contents : Contents α μ)

def readChunk (id : α) : Except (ChunkError α μ) Bytes :=
  match contents.chunks[id]? with
  | some bytes => .ok bytes
  | none => .error (.missingChunk id)

def readManifest (id : μ) : Except (ChunkError α μ) (ChunkManifest α) :=
  match contents.manifests[id]? with
  | some manifest => .ok manifest
  | none => .error (.missingManifest id)

/-- An address that is there already is not written again. -/
def stageChunk (id : α) (bytes : Bytes) : Contents α μ :=
  { contents with chunks := contents.chunks.insertIfNew id bytes }

def stageManifest (id : μ) (manifest : ChunkManifest α) : Contents α μ :=
  { contents with manifests := contents.manifests.insertIfNew id manifest }

/-- A chunk whose length is the one of its entry. -/
def readEntry (entry : ChunkEntry α) : Except (ChunkError α μ) Bytes := do
  let bytes ← contents.readChunk entry.id
  ensure (bytes.length = entry.len) (.corruptChunk entry.id)
  pure bytes

/-- The bytes of the entries, one after the other. -/
def assemble (contents : Contents α μ) :
    List (ChunkEntry α) → Except (ChunkError α μ) Bytes
  | [] => .ok []
  | entry :: rest => do
    let bytes ← contents.readEntry entry
    let others ← contents.assemble rest
    pure (bytes ++ others)

/-- What a root that claims `logicalLen` bytes reads as. The bound of a read that is not streamed
is left out. -/
def value (id : μ) (logicalLen : Nat) : Except (ChunkError α μ) Bytes := do
  let manifest ← contents.readManifest id
  ensure (manifest.totalLen = logicalLen)
    (.corruptManifest (some id) (.rootClaim manifest.totalLen logicalLen))
  let bytes ← contents.assemble manifest.entries
  ensure (bytes.length = logicalLen) (.corruptManifest (some id) .assembled)
  pure bytes

/-! ### The bytes that entries stand for -/

/-- The entry is there, with the length it claims. -/
def Holds (entry : ChunkEntry α) (bytes : Bytes) : Prop :=
  contents.chunks[entry.id]? = some bytes ∧ bytes.length = entry.len

variable {contents : Contents α μ} {bytes : Bytes} {entries : List (ChunkEntry α)}
  {manifest : ChunkManifest α}

theorem readEntry_eq_ok_iff {entry : ChunkEntry α} :
    contents.readEntry entry = .ok bytes ↔ contents.Holds entry bytes := by
  simp only [readEntry, readChunk, Holds]
  cases hget : contents.chunks[entry.id]? with
  | none => simp [bind_eq_ok_iff]
  | some found =>
    simp only [bind_eq_ok_iff, Except.ok.injEq, exists_eq_left', ensure_eq_ok_iff,
      Unique.exists_iff, pure, Except.pure, Option.some.injEq]
    constructor
    · rintro ⟨hlength, rfl⟩
      exact ⟨rfl, hlength⟩
    · rintro ⟨rfl, hlength⟩
      exact ⟨hlength, rfl⟩

theorem assemble_eq_ok_iff : contents.assemble entries = .ok bytes ↔
      ∃ blocks, List.Forall₂ contents.Holds entries blocks ∧ blocks.flatten = bytes := by
  induction entries generalizing bytes with
  | nil =>
    constructor
    · intro h
      cases h
      exact ⟨[], .nil, rfl⟩
    · rintro ⟨blocks, hblocks, rfl⟩
      cases hblocks
      rfl
  | cons entry rest ih =>
    simp only [assemble, bind_eq_ok_iff, readEntry_eq_ok_iff, ih, pure, Except.pure,
      Except.ok.injEq]
    constructor
    · rintro ⟨block, hblock, -, ⟨blocks, hblocks, rfl⟩, rfl⟩
      exact ⟨block :: blocks, .cons hblock hblocks, rfl⟩
    · rintro ⟨blocks, hblocks, rfl⟩
      obtain ⟨block, others, hblock, hothers, rfl⟩ := List.forall₂_cons_left_iff.mp hblocks
      exact ⟨block, hblock, _, ⟨others, hothers, rfl⟩, rfl⟩

variable {blocks : List Bytes}

theorem length_flatten (h : List.Forall₂ contents.Holds entries blocks) :
    blocks.flatten.length = lengthOf entries := by
  induction h with
  | nil => rfl
  | cons hblock _ ih => rw [List.flatten_cons, List.length_append, ih, hblock.2, lengthOf_cons]

variable {id : μ}

theorem value_eq_ok_iff {logicalLen : Nat} : contents.value id logicalLen = .ok bytes ↔
      ∃ manifest, contents.manifests[id]? = some manifest ∧ manifest.totalLen = logicalLen ∧
        (∃ blocks, List.Forall₂ contents.Holds manifest.entries blocks ∧
          blocks.flatten = bytes) ∧ bytes.length = logicalLen := by
  simp only [value, readManifest]
  cases hget : contents.manifests[id]? with
  | none => simp [bind_eq_ok_iff]
  | some found =>
    simp only [bind_eq_ok_iff, Except.ok.injEq, exists_eq_left', ensure_eq_ok_iff,
      Unique.exists_iff, assemble_eq_ok_iff, pure, Except.pure, Option.some.injEq]
    constructor
    · rintro ⟨htotal, found, hblocks, hlength, rfl⟩
      exact ⟨htotal, hblocks, hlength⟩
    · rintro ⟨htotal, hblocks, hlength⟩
      exact ⟨htotal, bytes, hblocks, hlength, rfl⟩

theorem value_of_formed (hget : contents.manifests[id]? = some manifest)
    (hformed : manifest.Formed) (hblocks : List.Forall₂ contents.Holds manifest.entries blocks) :
    contents.value id manifest.totalLen = .ok blocks.flatten :=
  value_eq_ok_iff.mpr ⟨manifest, hget, rfl, ⟨blocks, hblocks, rfl⟩,
    (length_flatten hblocks).trans hformed.total⟩

/-! ### Staging -/

/-- Everything is stored under its own address, and the manifests have passed the check. -/
structure Sound (addressing : Addressing α μ) (contents : Contents α μ) : Prop where
  chunk : ∀ id bytes, contents.chunks[id]? = some bytes → addressing.chunkId bytes = id
  manifest : ∀ id manifest, contents.manifests[id]? = some manifest →
    addressing.manifestId manifest = id ∧ manifest.Formed

/-- What was there is still there. -/
structure Extends (later earlier : Contents α μ) : Prop where
  chunk : ∀ (id : α) (bytes : Bytes), earlier.chunks[id]? = some bytes →
    later.chunks[id]? = some bytes
  manifest : ∀ (id : μ) (manifest : ChunkManifest α), earlier.manifests[id]? = some manifest →
    later.manifests[id]? = some manifest

theorem Extends.refl (contents : Contents α μ) : contents.Extends contents :=
  ⟨fun _ _ h ↦ h, fun _ _ h ↦ h⟩

theorem Extends.trans {first middle last : Contents α μ} (hlast : last.Extends middle)
    (hfirst : middle.Extends first) : last.Extends first :=
  ⟨fun id bytes h ↦ hlast.chunk id bytes (hfirst.chunk id bytes h),
    fun id manifest h ↦ hlast.manifest id manifest (hfirst.manifest id manifest h)⟩

variable {earlier later : Contents α μ}

theorem Extends.holds (h : later.Extends earlier) {entry : ChunkEntry α}
    (hholds : earlier.Holds entry bytes) :
    later.Holds entry bytes :=
  ⟨h.chunk _ _ hholds.1, hholds.2⟩

theorem Extends.forall₂ (h : later.Extends earlier)
    (hholds : List.Forall₂ earlier.Holds entries blocks) :
    List.Forall₂ later.Holds entries blocks :=
  hholds.imp fun _ _ hentry ↦ h.holds hentry

theorem extends_stageChunk (contents : Contents α μ) (id : α) (bytes : Bytes) :
    (contents.stageChunk id bytes).Extends contents where
  chunk _ _ h := getElem?_insertIfNew_of_some h
  manifest _ _ h := h

theorem extends_stageManifest (contents : Contents α μ) (id : μ) (manifest : ChunkManifest α) :
    (contents.stageManifest id manifest).Extends contents where
  chunk _ _ h := h
  manifest _ _ h := getElem?_insertIfNew_of_some h

variable {addressing : Addressing α μ}

section

variable (h : contents.Sound addressing)
include h

/-- A staged chunk can be read, also if its address was taken. -/
theorem Sound.getElem?_stageChunk (hfree : addressing.Collisionless) (bytes : Bytes) :
    (contents.stageChunk (addressing.chunkId bytes) bytes).chunks[addressing.chunkId bytes]? =
      some bytes :=
  getElem?_insertIfNew_self_of_agrees fun _ hfound ↦ hfree.chunk (h.chunk _ _ hfound)

theorem Sound.getElem?_stageManifest (hfree : addressing.Collisionless) (manifest : ChunkManifest α)
    :(contents.stageManifest (addressing.manifestId manifest) manifest).manifests[
      addressing.manifestId manifest]? = some manifest :=
  getElem?_insertIfNew_self_of_agrees fun _ hfound ↦
    hfree.manifest (h.manifest _ _ hfound).1

theorem Sound.stageChunk [Std.LawfulEqOrd α] (bytes : Bytes) :
    (contents.stageChunk (addressing.chunkId bytes) bytes).Sound addressing where
  chunk id found hget := by
    obtain ⟨hid, rfl⟩ | hold := of_getElem?_insertIfNew hget
    · exact Std.LawfulEqOrd.eq_of_compare hid
    · exact h.chunk id found hold
  manifest := h.manifest

theorem Sound.stageManifest [Std.LawfulEqOrd μ] (hformed : manifest.Formed) :
    (contents.stageManifest (addressing.manifestId manifest) manifest).Sound addressing where
  chunk := h.chunk
  manifest id found hget := by
    obtain ⟨hid, rfl⟩ | hold := of_getElem?_insertIfNew hget
    · exact ⟨Std.LawfulEqOrd.eq_of_compare hid, hformed⟩
    · exact h.manifest id found hold

end

theorem sound_empty (addressing : Addressing α μ) :
    (⟨∅, ∅⟩ : Contents α μ).Sound addressing where
  chunk id bytes hget := by simp at hget
  manifest id manifest hget := by simp at hget

end Contents

end Contents

end Kivi.Chunk
