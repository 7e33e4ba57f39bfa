import Kivi.Chunk.Manifest

/-!
# Reclaiming chunk packs

A round of collection gathers the manifests that retained checkpoints and journaled commits refer
to on all tablets, and asks the lane of each worker to mark them against its own store. A lane
expands every root through its own packs and gives the round up if one is missing, so that roots
of other lanes keep it from deleting anything: `chunk_gc_reclaims_iff` says when the packs without
reachable records go. The records of a pack are those the index has there.
-/

namespace Kivi.Chunk

structure GcInputs (α μ : Type) where
  liveManifests : List μ
  pinnedChunks : List α
  pinnedManifests : List μ

/-- A lane with its store. The index has the pack of each address. `lists` says whether the
directory can be listed, `fault` what reading an indexed manifest meets, and `removable` whether
a pack's file can be removed; `marks` and `deletes` say whether the lane's queue takes the jobs. -/
structure ChunkLane (α μ : Type) where
  activeSeq : Nat
  packSeqs : List Nat
  chunks : List (α × Nat)
  manifests : List (μ × Nat)
  lists : Bool
  fault : μ → Option (ChunkError α μ)
  removable : Nat → Bool
  marks : Bool
  deletes : Bool

section

variable {α μ : Type} [DecidableEq α] [DecidableEq μ] (contents : μ → ChunkManifest α)

namespace ChunkLane

variable (lane : ChunkLane α μ) (inputs : GcInputs α μ)

/-- A manifest is addressed by its contents. -/
def readManifest (id : μ) : Except (ChunkError α μ) (ChunkManifest α) :=
  if id ∈ lane.manifests.map Prod.fst then
    match lane.fault id with
    | some error => .error error
    | none => .ok (contents id)
  else .error (.missingManifest id)

/-- The chunks of the roots. -/
def expand : List μ → Except (ChunkError α μ) (List α)
  | [] => .ok []
  | root :: roots => do
    let manifest ← lane.readManifest contents root
    let rest ← expand roots
    return manifest.entries.map ChunkEntry.id ++ rest

/-- The packs in order, or the active one alone. -/
def listing : List Nat := if lane.lists then lane.packSeqs else [lane.activeSeq]

/-- The sealed packs without a live record. -/
def plan : Except (ChunkError α μ) (List Nat) := do
  let expanded ← lane.expand contents inputs.liveManifests
  let liveChunks := inputs.pinnedChunks ++ expanded
  let liveManifests := inputs.pinnedManifests ++ inputs.liveManifests
  let livePacks := (lane.chunks.filter (·.1 ∈ liveChunks)).map Prod.snd ++
    (lane.manifests.filter (·.1 ∈ liveManifests)).map Prod.snd
  return lane.listing.filter fun pack ↦ decide (pack < lane.activeSeq) && !livePacks.contains pack

/-- Packs are removed up to the first that cannot be. The index follows when all are. -/
def deletePacks (seqs : List Nat) : ChunkLane α μ :=
  let deleted := seqs.takeWhile fun seq ↦ decide (seq ≠ lane.activeSeq) && lane.removable seq
  let left := { lane with packSeqs := lane.packSeqs.filter fun pack ↦ !deleted.contains pack }
  if deleted.length < seqs.length then left
  else
    { left with
      chunks := lane.chunks.filter fun entry ↦ !deleted.contains entry.2
      manifests := lane.manifests.filter fun entry ↦ !deleted.contains entry.2 }

/-- What a round does to a lane: errors leave the packs. -/
def collect : ChunkLane α μ :=
  if lane.marks then
    match lane.plan contents inputs with
    | .error _ => lane
    | .ok dead => if dead ≠ [] ∧ lane.deletes then lane.deletePacks dead else lane
  else lane

end ChunkLane

/-- One round: `bandRefs` is what the retained checkpoints refer to, if all can be read. -/
def runChunkGc (bandRefs : Option (List μ)) (retained : List μ) (pinnedChunks : List α)
    (pinnedManifests : List μ) (lanes : List (ChunkLane α μ)) : List (ChunkLane α μ) :=
  match bandRefs with
  | none => lanes
  | some refs =>
    lanes.map (·.collect contents ⟨refs ++ retained, pinnedChunks, pinnedManifests⟩)

/-! ### What a round reclaims -/

/-- The chunks of a manifest. -/
def chunkIds (root : μ) : List α := (contents root).entries.map ChunkEntry.id

namespace ChunkLane

variable (lane : ChunkLane α μ) (inputs : GcInputs α μ)

/-- A sealed pack no record of which is pinned or reachable from the roots. -/
def Unreachable (pack : Nat) : Prop :=
  pack ∈ lane.packSeqs ∧ pack < lane.activeSeq ∧
    (∀ id, (id, pack) ∈ lane.chunks →
      id ∉ inputs.pinnedChunks ∧ ∀ root ∈ inputs.liveManifests, id ∉ chunkIds contents root) ∧
    ∀ id, (id, pack) ∈ lane.manifests → id ∉ inputs.pinnedManifests ∧ id ∉ inputs.liveManifests

/-- The lane has the manifest in its own packs. -/
def Reads (id : μ) : Prop := id ∈ lane.manifests.map Prod.fst ∧ lane.fault id = none

variable {contents inputs lane}

omit [DecidableEq α] in
theorem expand_cases (roots : List μ) :
    (∀ root ∈ roots, lane.Reads root) ∧
        lane.expand contents roots = .ok (roots.flatMap (chunkIds contents)) ∨
      (¬∀ root ∈ roots, lane.Reads root) ∧ ∃ error, lane.expand contents roots = .error error := by
  induction roots with
  | nil => exact Or.inl ⟨List.forall_mem_nil _, rfl⟩
  | cons root roots ih =>
    rw [List.forall_mem_cons, expand, readManifest, Reads]
    by_cases hindexed : root ∈ lane.manifests.map Prod.fst
    swap
    · exact Or.inr ⟨fun h ↦ hindexed h.1.1, _, by rw [if_neg hindexed]; rfl⟩
    rw [if_pos hindexed]
    cases hfault : lane.fault root with
    | some error => exact Or.inr ⟨fun h ↦ Option.some_ne_none _ h.1.2, error, rfl⟩
    | none =>
      rcases ih with ⟨hreads, hrest⟩ | ⟨hnot, error, hrest⟩ <;> rw [hrest]
      · exact Or.inl ⟨⟨⟨hindexed, rfl⟩, hreads⟩, rfl⟩
      · exact Or.inr ⟨fun h ↦ hnot h.2, error, rfl⟩

/-- A lane that reads all roots plans for the unreachable packs it lists. -/
theorem plan_of_reads (h : ∀ root ∈ inputs.liveManifests, lane.Reads root) :
    ∃ packs, lane.plan contents inputs = .ok packs ∧
      ∀ pack, pack ∈ packs ↔ lane.lists = true ∧ lane.Unreachable contents inputs pack := by
  obtain ⟨-, hexpand⟩ | ⟨hnot, -⟩ := @expand_cases _ _ _ contents lane inputs.liveManifests
  swap
  · exact absurd h hnot
  refine ⟨_, by rw [plan, hexpand]; rfl, fun pack ↦ ?_⟩
  cases hlists : lane.lists <;> simp +contextual [Unreachable, listing, hlists]

omit [DecidableEq α] [DecidableEq μ] in
theorem mem_packSeqs_deletePacks {packs : List Nat} {pack : Nat} :
    pack ∈ (lane.deletePacks packs).packSeqs ↔ pack ∈ lane.packSeqs ∧
      pack ∉ packs.takeWhile fun seq ↦ decide (seq ≠ lane.activeSeq) && lane.removable seq := by
  unfold deletePacks
  dsimp only
  split_ifs <;> simp

/-- A pass removes every unreachable pack exactly if it marks, lists and deletes, reads all live
manifests and may remove each of these packs. -/
theorem collect_reclaims_iff :
    (∀ pack, lane.Unreachable contents inputs pack →
        pack ∉ (lane.collect contents inputs).packSeqs) ↔
      ∀ pack, lane.Unreachable contents inputs pack → (lane.marks = true ∧ lane.deletes = true) ∧
        lane.lists = true ∧ (∀ root ∈ inputs.liveManifests, lane.Reads root) ∧
        lane.removable pack = true := by
  unfold collect
  cases hmarks : lane.marks with
  | false => simp +contextual [Unreachable]
  | true =>
    by_cases hreads : ∀ root ∈ inputs.liveManifests, lane.Reads root
    · obtain ⟨packs, hplan, hmem⟩ := @plan_of_reads _ _ _ _ contents lane inputs hreads
      rw [if_pos rfl, hplan]
      cases hlists : lane.lists with
      | false =>
        obtain rfl := List.eq_nil_iff_forall_not_mem.mpr fun pack hpack ↦
          Bool.false_ne_true (hlists.symm.trans ((hmem pack).mp hpack).1)
        simp +contextual [Unreachable]
      | true =>
        simp only [hlists, true_and] at hmem
        simp only [← hmem]
        split_ifs with hjob
        · simp only [mem_packSeqs_deletePacks, not_and_not_right]
          constructor
          · intro h pack hpack
            have hdeleted := List.mem_takeWhile_imp (h pack hpack ((hmem pack).mp hpack).1)
            rw [Bool.and_eq_true] at hdeleted
            exact ⟨⟨trivial, hjob.2⟩, trivial, hreads, hdeleted.2⟩
          · intro h pack hpack _
            rw [List.takeWhile_eq_self_iff.mpr fun seq hseq ↦ ?_]
            · exact hpack
            · simp [(h seq hseq).2.2.2, Nat.ne_of_lt ((hmem seq).mp hseq).2.1]
        · constructor
          · exact fun h pack hpack ↦ absurd ((hmem pack).mp hpack).1 (h pack hpack)
          · exact fun h pack hpack ↦
              absurd ⟨List.ne_nil_of_mem hpack, (h pack hpack).1.2⟩ hjob
    · obtain ⟨hread, -⟩ | ⟨-, error, hexpand⟩ :=
        @expand_cases _ _ _ contents lane inputs.liveManifests
      · exact absurd hread hreads
      rw [plan, hexpand]
      simp +contextual [Unreachable, hreads, bind, Except.bind]

end ChunkLane

/-- A round with readable checkpoints deletes all unreachable sealed packs exactly if each lane that
has one takes its jobs, lists its packs, reads every root from them and can remove the pack. -/
theorem chunk_gc_reclaims_iff (refs retained : List μ) (pinnedChunks : List α)
    (pinnedManifests : List μ) (lanes : List (ChunkLane α μ)) :
    let inputs : GcInputs α μ := ⟨refs ++ retained, pinnedChunks, pinnedManifests⟩
    List.Forall₂
        (fun lane after ↦ ∀ pack, lane.Unreachable contents inputs pack → pack ∉ after.packSeqs)
        lanes (runChunkGc contents (some refs) retained pinnedChunks pinnedManifests lanes) ↔
      ∀ lane ∈ lanes, ∀ pack, lane.Unreachable contents inputs pack →
        (lane.marks = true ∧ lane.deletes = true) ∧ lane.lists = true ∧
        (∀ root ∈ refs ++ retained, lane.Reads root) ∧ lane.removable pack = true := by
  intro inputs
  rw [runChunkGc, List.forall₂_map_right_iff, List.forall₂_same]
  exact forall₂_congr fun _ _ ↦ ChunkLane.collect_reclaims_iff

end

/-- Two lanes with a root each and a pack that nothing reaches: both keep it. -/
theorem other_root_keeps_packs :
    let lane (root : Nat) : ChunkLane Nat Nat :=
      ⟨3, [1, 2, 3], [(7, 1), (root, 2)], [(root, 2)], true, fun _ ↦ none, fun _ ↦ true, true, true⟩
    let contents (root : Nat) : ChunkManifest Nat := ⟨1, 1, 1, 0, [⟨root, 1⟩]⟩
    (∀ root ∈ [5, 6], (lane root).Unreachable contents ⟨[5, 6], [], []⟩ 1) ∧
      (runChunkGc contents (some [5, 6]) [] [] [] [lane 5, lane 6]).map ChunkLane.packSeqs =
        [[1, 2, 3], [1, 2, 3]] := by
  refine ⟨?_, by decide⟩
  simp [ChunkLane.Unreachable, chunkIds]

end Kivi.Chunk
