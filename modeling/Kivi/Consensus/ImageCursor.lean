import Kivi.Consensus.RaftMetadata
import Kivi.Library.Crc

/-!
# Walking an untrusted image

The decoder of an image walks its body with one position. The sections are readers, whose cursors
implement decoders, which is why a tablet's image never panics: all advances are by constants or by
what a codec used. The image of the control group also has a blob behind a 64-bit length, and the
walker adds that length to its position before it compares the sum with the body.
`decode_total_iff` says that this is the only way an image can panic.
-/

namespace Kivi.Consensus

open Library Library.Bytes Library.Codec Library.Codec.Decoder
open Library.Cursor State

namespace Walk

abbrev ImageCursor (α : Type) := Cursor SnapshotFault α

/-- Nothing may follow. -/
def checkEnd : ImageCursor Unit := fun body position ↦
  if position ≠ body.length then .err (.corruptImage .trailingBytes) else .ok ((), position)

theorem checkEnd_ne_panic (body : Bytes) (position : Nat) :
    checkEnd body position ≠ .panic := by
  unfold checkEnd
  split_ifs
  · exact nofun
  · exact nofun

def controlSnapshotMagic : UInt32 := 0x4353564B
def controlSnapshotVersion : UInt16 := 1

section Images

variable {κ : Type} (crc32c : Checksum) (accepts : Membership → Bool)
  (decodeControlState : Bytes → Option κ)

/-- The blob of a control image, behind its length, which nothing bounds. -/
def decodeControlImage (raft : RaftState) (len : Nat) : ImageCursor (RaftState × κ) := do
  let image ← take len (.corruptImage .bodyTruncated)
  checkEnd
  match decodeControlState image.bytes with
  | some control => return (raft, control)
  | none => fail (.corruptImage .controlImageInvalid)

def decodeControlBody (namespaceId : NamespaceId) (tablet : TabletId) :
    ImageCursor (RaftState × κ) := do
  let raft ← (decodeControlRaftHead accepts namespaceId tablet).cursor
  let len ← snapTakeCount.cursor
  decodeControlImage decodeControlState raft len

def decodeTabletBody (namespaceId : NamespaceId) (tablet : TabletId) :
    ImageCursor (DecodedSnapshot × StoredMembership) := do
  let decoded ← (decodeSections accepts namespaceId tablet).cursor
  checkEnd
  return decoded

/-- Unframe an image and walk its body from the start. -/
def decodeFramed {α : Type} (magic : UInt32) (version : UInt16) (walk : ImageCursor α)
    (bytes : Bytes) : Result SnapshotFault α :=
  match unframeImage crc32c bytes magic version with
  | .error fault => .err (.corruptImage (.framingInvalid fault))
  | .ok body =>
    match walk body 0 with
    | .ok (decoded, _) => .ok decoded
    | .err fault => .err fault
    | .panic => .panic

/-- What `decode_snapshot` gives for a tablet, or for the control group. -/
def decodeSnapshot (bytes : Bytes) (namespaceId : NamespaceId) (tablet : TabletId) :
    Result SnapshotFault ((DecodedSnapshot × StoredMembership) ⊕ (RaftState × κ)) :=
  if tablet = controlTabletRaw then do
    let decoded ← decodeFramed crc32c controlSnapshotMagic controlSnapshotVersion
      (decodeControlBody accepts decodeControlState namespaceId tablet) bytes
    return .inr decoded
  else do
    let decoded ← decodeFramed crc32c snapshotMagic snapshotVersion
      (decodeTabletBody accepts namespaceId tablet) bytes
    return .inl decoded

variable {crc32c accepts decodeControlState}

theorem decodeFramed_eq_panic_iff {α : Type} {magic : UInt32} {version : UInt16}
    {walk : ImageCursor α} {bytes : Bytes} :
    decodeFramed crc32c magic version walk bytes = .panic ↔
      ∃ body, unframeImage crc32c bytes magic version = .ok body ∧ walk body 0 = .panic := by
  unfold decodeFramed
  rcases unframeImage crc32c bytes magic version with fault | body
  · simp
  · rcases hwalk : walk body 0 with ⟨decoded, _⟩ | fault | _
    · simp [hwalk]
    · simp [hwalk]
    · simp [hwalk]

theorem length_unframed_le {magic : UInt32} {version : UInt16} {bytes body : Bytes}
    (h : unframeImage crc32c bytes magic version = .ok body) : body.length ≤ bytes.length := by
  unfold unframeImage at h
  dsimp only at h
  split_ifs at h
  cases h
  rw [List.length_take, List.length_drop]
  omega

theorem decodeTabletBody_ne_panic {namespaceId : NamespaceId} {tablet : TabletId}
    {body : Bytes} (hbody : body.length < 2 ^ 63) :
    decodeTabletBody accepts namespaceId tablet body 0 ≠ .panic := by
  intro hpanic
  rcases bind_eq_panic_iff.mp hpanic with hsections | ⟨decoded, stopped, _, hrest⟩
  · exact (decodeSections accepts namespaceId tablet).implements.ne_panic hbody (Nat.zero_le _)
      hsections
  · rcases bind_eq_panic_iff.mp hrest with hend | ⟨_, _, _, hpure⟩
    · exact checkEnd_ne_panic body stopped hend
    · cases hpure

/-- The blob panics exactly if its end is no machine word. -/
theorem decodeControlImage_eq_panic_iff {raft : RaftState} {len position : Nat}
    {body : Bytes} (hposition : position ≤ body.length) :
    decodeControlImage decodeControlState raft len body position = .panic ↔
      2 ^ 64 ≤ position + len := by
  constructor
  · intro hpanic
    by_contra hword
    rcases bind_eq_panic_iff.mp hpanic with htake | ⟨image, stopped, _, hrest⟩
    · rw [take_agrees _ (Nat.not_le.mp hword) hposition] at htake
      rcases hread : Decoder.fixed len (fun _ ↦ SnapshotFault.corruptImage .bodyTruncated)
        (body.drop position) with fault | read
      · rw [hread] at htake
        cases htake
      · rw [hread] at htake
        cases htake
    · rcases bind_eq_panic_iff.mp hrest with hend | ⟨_, _, _, hstate⟩
      · exact checkEnd_ne_panic body stopped hend
      · rcases hcontrol : decodeControlState image.bytes with _ | control
        · rw [hcontrol] at hstate
          cases hstate
        · rw [hcontrol] at hstate
          cases hstate
  · intro hword
    refine bind_eq_panic_iff.mpr (.inl ?_)
    rw [take, if_pos hword]

/-- A length is read from the bytes of its word only. -/
theorem snapTakeCount_eq_ok_iff {count : Nat} {input rest : Bytes} :
    snapTakeCount input = .ok (count, rest) ↔
      ∃ word : UInt64, input = (leU64 word).bytes ++ rest ∧ word.toNat = count := by
  simp only [snapTakeCount, Reader.decoder_map, map_eq_ok_iff, decoder_snapTakeU64,
    word64_eq_ok_iff]

/-- The length of the blob, added to the position behind it, is a machine word. -/
def LengthFits (accepts : Membership → Bool) (namespaceId : NamespaceId) (tablet : TabletId)
    (body : Bytes) : Prop :=
  ∀ (raft : RaftState) (len : UInt64) (rest : Bytes),
    decodeControlRaftHead accepts namespaceId tablet body =
      .ok (raft, (leU64 len).bytes ++ rest) →
        body.length - rest.length + len.toNat < 2 ^ 64

/-- Only the length of the blob can make the walk of a control image panic. -/
theorem decodeControlBody_ne_panic_iff {namespaceId : NamespaceId} {tablet : TabletId}
    {body : Bytes} (hbody : body.length < 2 ^ 63) :
    decodeControlBody accepts decodeControlState namespaceId tablet body 0 ≠ .panic ↔
      LengthFits accepts namespaceId tablet body := by
  have hhead := (decodeControlRaftHead accepts namespaceId tablet).implements
  have hagrees := hhead.agrees body 0 hbody (Nat.zero_le _)
  rw [List.drop_zero] at hagrees
  constructor
  · intro hreturns raft len rest hread
    by_contra hword
    refine hreturns (bind_eq_panic_iff.mpr
      (.inr ⟨raft, body.length - ((leU64 len).bytes ++ rest).length, ?_, ?_⟩))
    · rw [hagrees, hread]
      rfl
    · have hsuffix := hhead.consumes _ _ _ hread
      have hcount := snapTakeCount.implements.agrees body
        (body.length - ((leU64 len).bytes ++ rest).length) hbody (Nat.sub_le _ _)
      rw [← eq_drop_of_suffix hsuffix] at hcount
      have hlen : snapTakeCount ((leU64 len).bytes ++ rest) = .ok (len.toNat, rest) :=
        snapTakeCount_eq_ok_iff.mpr ⟨len, rfl, rfl⟩
      rw [hlen] at hcount
      refine bind_eq_panic_iff.mpr (.inr ⟨len.toNat, _, hcount, ?_⟩)
      exact (decodeControlImage_eq_panic_iff (Nat.sub_le _ _)).mpr (Nat.not_lt.mp hword)
  · intro hfits hpanic
    rcases bind_eq_panic_iff.mp hpanic with hfirst | ⟨raft, stopped, hraft, hrest⟩
    · exact hhead.ne_panic hbody (Nat.zero_le _) hfirst
    · rw [hagrees] at hraft
      rcases hread : decodeControlRaftHead accepts namespaceId tablet body with
        fault | ⟨value, tail⟩
      · rw [hread] at hraft
        cases hraft
      · rw [hread] at hraft
        cases hraft
        have hsuffix := hhead.consumes _ _ _ hread
        have hcount := snapTakeCount.implements.agrees body (body.length - tail.length) hbody
          (Nat.sub_le _ _)
        rw [← eq_drop_of_suffix hsuffix] at hcount
        rcases hlen : snapTakeCount tail with fault | ⟨count, rest⟩
        · simp [bind_eq_panic_iff, hcount, hlen, located] at hrest
        · obtain ⟨len, rfl, rfl⟩ := snapTakeCount_eq_ok_iff.mp hlen
          simp only [bind_eq_panic_iff, hcount, hlen, located, Result.ok.injEq,
            Prod.mk.injEq] at hrest
          obtain hfalse | ⟨_, _, ⟨rfl, rfl⟩, himage⟩ := hrest
          · cases hfalse
          · have hword := (decodeControlImage_eq_panic_iff (Nat.sub_le _ _)).mp himage
            exact absurd (hfits raft len rest hread) (Nat.not_lt.mpr hword)

/-- Decoding an image returns, whatever its bytes, exactly if it is a tablet's or the length in it
stays a machine word. -/
theorem decode_total_iff {bytes : Bytes} (hbytes : bytes.length < 2 ^ 63)
    (namespaceId : NamespaceId) (tablet : TabletId) :
    decodeSnapshot crc32c accepts decodeControlState bytes namespaceId tablet ≠ .panic ↔
      (tablet = controlTabletRaw → ∀ body,
        unframeImage crc32c bytes controlSnapshotMagic controlSnapshotVersion = .ok body →
          LengthFits accepts namespaceId tablet body) := by
  have hbind {α β : Type} (x : Result SnapshotFault α) (f : α → β) :
      (do let value ← x; return f value : Result SnapshotFault β) = .panic ↔ x = .panic := by
    rcases x with value | fault | _ <;> simp
  unfold decodeSnapshot
  by_cases hcontrol : tablet = controlTabletRaw
  · rw [if_pos hcontrol, Ne, hbind, decodeFramed_eq_panic_iff]
    constructor
    · intro hreturns _ body hframe
      have hbody := lt_of_le_of_lt (length_unframed_le hframe) hbytes
      have hwalk :
          decodeControlBody accepts decodeControlState namespaceId tablet body 0 ≠ .panic :=
        fun hpanic ↦ hreturns ⟨body, hframe, hpanic⟩
      exact (decodeControlBody_ne_panic_iff hbody).mp hwalk
    · rintro hfits ⟨body, hframe, hpanic⟩
      have hbody := lt_of_le_of_lt (length_unframed_le hframe) hbytes
      exact (decodeControlBody_ne_panic_iff hbody).mpr (hfits hcontrol body hframe) hpanic
  · rw [if_neg hcontrol, Ne, hbind, decodeFramed_eq_panic_iff]
    constructor
    · intro _ heq
      exact absurd heq hcontrol
    · rintro _ ⟨body, hframe, hpanic⟩
      have hbody := lt_of_le_of_lt (length_unframed_le hframe) hbytes
      exact decodeTabletBody_ne_panic hbody hpanic

end Images

/-- A control image of a fresh replica whose blob is said to have `len` bytes and has none. -/
def emptyControlBody (len : UInt64) : Bytes :=
  (leU64 0).bytes ++ (leU64 controlTabletRaw).bytes ++ List.replicate 41 0 ++ (leU64 len).bytes

/-- The largest length makes the walker add it to the position, out of the machine word. -/
theorem overlong_control_blob_panics :
    decodeSnapshot Crc.crc32c (fun _ ↦ true) (fun _ ↦ (none : Option Unit))
      (frameImage Crc.crc32c controlSnapshotMagic controlSnapshotVersion
        (emptyControlBody CheckedArith.maxU64)) 0 controlTabletRaw = .panic := by
  rw [decodeSnapshot, if_pos rfl, decodeFramed, unframeImage_frameImage]
  rfl

/-- With the length zero the same image is read to its end. -/
theorem decode_total_empty_control :
    decodeSnapshot Crc.crc32c (fun _ ↦ true) (fun _ ↦ (none : Option Unit))
      (frameImage Crc.crc32c controlSnapshotMagic controlSnapshotVersion
        (emptyControlBody 0)) 0 controlTabletRaw ≠ .panic := by
  refine (decode_total_iff (by decide +kernel) 0 controlTabletRaw).mpr fun _ body hframe ↦ ?_
  rw [unframeImage_frameImage] at hframe
  obtain rfl := Except.ok.inj hframe
  intro raft len rest hread
  have hhead : decodeControlRaftHead (fun _ ↦ true) 0 controlTabletRaw
      (emptyControlBody 0) = .ok (.new, (leU64 0).bytes ++ []) := by
    decide +kernel
  rw [hhead] at hread
  have htail : (leU64 0).bytes ++ [] = (leU64 len).bytes ++ rest :=
    congrArg Prod.snd (Except.ok.inj hread)
  have hword : word64 (fun _ ↦ ()) ((leU64 0).bytes ++ []) = .ok (len, rest) :=
    word64_eq_ok_iff.mpr htail
  rw [word64_append] at hword
  cases hword
  decide +kernel

end Walk

end Kivi.Consensus
