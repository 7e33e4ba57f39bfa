import Kivi.Library.Unframed
import Kivi.State.ScanPaging

/-!
# The digest of a write set

A transaction is bound to the digest of its effective writes: the last write of every key, in key
order. What is hashed of a write is its key, a tag and its payload, with no lengths, so the bytes of
one write can be read as those of others. Lists with the same effective writes have one digest
(`writeSetDigest_eq_of_effective`). A digest tells a list from all others only if the list is empty
or writes one key whose bytes hold no other write (`digest_identifies_iff`); every transaction over
two or more keys shares its digest with one that writes a single, longer key.

The hash is a parameter, and where it is called injective its results are of any type.
-/

namespace Kivi.State

open Library Library.Bytes Library.Unframed

/-! ### What is hashed -/

/-- What the digest covers of the kind of a write. -/
def TxnWriteKind.digestBytes : TxnWriteKind → Bytes
  | .put value => 1 :: value
  | .putChunked manifest logicalLen => 4 :: (manifest.bytes ++ (leU64 logicalLen).bytes)
  | .putFabric fabricId logicalLen version =>
    8 :: ((leU64 fabricId).bytes ++ ((leU64 logicalLen).bytes ++ (leU64 version).bytes))
  | .delete => [2]
  | .counterAdd delta => 3 :: leI64 delta
  | .commutativeAdd delta => 5 :: leI64 delta
  | .boundedAdd delta => 6 :: leI64 delta
  | .escrowSetShare min max => 7 :: (leI64 min ++ leI64 max)

/-- The bytes of `KIVI-TXN-SET-V1`. -/
def writeSetTag : Bytes := [75, 73, 86, 73, 45, 84, 88, 78, 45, 83, 69, 84, 45, 86, 49]

/-- What is hashed of a list of writes. -/
def writeSetBytes (writes : List TxnWrite) (namespaceId : UInt64) : Bytes :=
  writeSetTag ++ (leU64 namespaceId).bytes ++
    (ObjectStore.collapse writes).toList.flatMap fun (_, write) ↦
      write.key ++ write.kind.digestBytes

/-- The digest of a list of writes under the given hash. -/
def writeSetDigest {δ : Type} (blake3 : Bytes → δ) (writes : List TxnWrite)
    (namespaceId : UInt64) : δ :=
  blake3 (writeSetBytes writes namespaceId)

/-- What a list of writes does to each key. -/
def effectiveWrites (writes : List TxnWrite) : Std.ExtTreeMap Key TxnWriteKind :=
  (ObjectStore.collapse writes).map fun _ write ↦ write.kind

/-! ### The kinds of writes are told apart -/

theorem leU64_append_inj {first second : UInt64} {rest rest' : Bytes} :
    (leU64 first).bytes ++ rest = (leU64 second).bytes ++ rest' ↔
      first = second ∧ rest = rest' := by
  constructor
  · intro heq
    have htaken := takeU64_append first rest
    rw [heq, takeU64_append] at htaken
    obtain ⟨rfl, rfl⟩ := Prod.mk.inj (Option.some.inj htaken)
    exact ⟨rfl, rfl⟩
  · rintro ⟨rfl, rfl⟩
    rfl

theorem leU64_bytes_inj {first second : UInt64} :
    (leU64 first).bytes = (leU64 second).bytes ↔ first = second := by
  have happend := @leU64_append_inj first second [] []
  rwa [List.append_nil, List.append_nil, eq_self, and_true] at happend

theorem toUInt64_inj {first second : Int64} :
    first.toUInt64 = second.toUInt64 ↔ first = second := by
  constructor
  · intro heq
    cases first
    cases second
    exact congrArg Int64.ofUInt64 heq
  · rintro rfl
    rfl

theorem TxnWriteKind.digestBytes_ne_nil (kind : TxnWriteKind) : kind.digestBytes ≠ [] := by
  cases kind <;> exact List.cons_ne_nil _ _

theorem TxnWriteKind.digestBytes_injective : Function.Injective digestBytes := by
  intro first second heq
  cases first <;> cases second <;>
    simp only [digestBytes, List.cons.injEq, leI64, leU64_append_inj, leU64_bytes_inj,
      toUInt64_inj] at heq <;> try exact absurd heq.1 (by decide)
  case put.put => rw [heq.2]
  case putChunked.putChunked =>
    obtain ⟨hmanifest, hlen⟩ := List.append_inj heq.2 (by simp [FixedBytes.length_eq])
    rw [FixedBytes.ext hmanifest, leU64_bytes_inj.mp hlen]
  case putFabric.putFabric => rw [heq.2.1, heq.2.2.1, heq.2.2.2]
  case delete.delete => rfl
  case counterAdd.counterAdd => rw [heq.2]
  case commutativeAdd.commutativeAdd => rw [heq.2]
  case boundedAdd.boundedAdd => rw [heq.2]
  case escrowSetShare.escrowSetShare => rw [heq.2.1, heq.2.2]

/-! ### Effective writes -/

theorem writeSetBytes_eq (writes : List TxnWrite) (namespaceId : UInt64) :
    writeSetBytes writes namespaceId = writeSetTag ++ (leU64 namespaceId).bytes ++
      stream TxnWriteKind.digestBytes (effectiveWrites writes).toList := by
  rw [writeSetBytes, effectiveWrites, Std.ExtTreeMap.toList_map, stream, List.flatMap_map]
  congr 1
  refine List.flatMap_congr fun entry hmem ↦ ?_
  obtain ⟨key, write⟩ := entry
  rw [Std.ExtTreeMap.mem_toList_iff_getElem?_eq_some] at hmem
  obtain ⟨-, rfl⟩ := LastWins.mem_of_getElem?_lastWins hmem
  rfl

theorem ascending_toList (map : Std.ExtTreeMap Key TxnWriteKind) :
    Ascending (bytesLt · · = true) map.toList := by
  refine map.ordered_keys_toList.imp fun hlt ↦ ?_
  simp only [bytesLt, hlt, beq_self_eq_true]

theorem bytesLt_append {front name : Bytes} (rest : Bytes)
    (h : bytesLt front name = true) : bytesLt front (name ++ rest) = true := by
  induction front generalizing name with
  | nil =>
    cases name with
    | nil => cases h
    | cons byte name => rfl
  | cons byte front ih =>
    cases name with
    | nil => cases h
    | cons other name =>
      simp only [bytesLt, List.cons_append, List.compare_cons_cons] at h ih ⊢
      cases hbyte : compare byte other with
      | lt => rfl
      | eq =>
        rw [hbyte] at h
        exact ih h
      | gt =>
        rw [hbyte] at h
        cases h

/-- Writes that do what is listed. -/
def writesOf (items : List (Key × TxnWriteKind)) : List TxnWrite :=
  items.map fun (key, kind) ↦ ⟨key, kind, .any⟩

theorem toList_effectiveWrites {items : List (Key × TxnWriteKind)}
    (h : Ascending (bytesLt · · = true) items) :
    (effectiveWrites (writesOf items)).toList = items := by
  have hordered : (writesOf items).Pairwise fun first second ↦
      compare first.key second.key = .lt := by
    refine List.pairwise_map.mpr (h.imp fun hlt ↦ ?_)
    simpa [bytesLt] using hlt
  rw [effectiveWrites, Std.ExtTreeMap.toList_map, ObjectStore.collapse,
    LastWins.toList_lastWins_of_ascending hordered, List.map_map, writesOf, List.map_map]
  exact List.map_id _

/-! ### What the digest tells -/

variable {δ : Type} {blake3 : Bytes → δ} {writes other : List TxnWrite}

/-- Neither the order of a list nor its shadowed writes change the digest. -/
theorem writeSetDigest_eq_of_effective (namespaceId : UInt64)
    (h : effectiveWrites other = effectiveWrites writes) :
    writeSetDigest blake3 other namespaceId = writeSetDigest blake3 writes namespaceId := by
  rw [writeSetDigest, writeSetDigest, writeSetBytes_eq, writeSetBytes_eq, h]

theorem writeSetDigest_eq_iff (hblake3 : Function.Injective blake3) (namespaceId : UInt64) :
    writeSetDigest blake3 other namespaceId = writeSetDigest blake3 writes namespaceId ↔
      stream TxnWriteKind.digestBytes (effectiveWrites other).toList =
        stream TxnWriteKind.digestBytes (effectiveWrites writes).toList := by
  rw [writeSetDigest, writeSetDigest, hblake3.eq_iff, writeSetBytes_eq, writeSetBytes_eq,
    List.append_cancel_left_eq]

/-- The list does nothing, or writes one key and its bytes hold no other write: they end as no
other write does, and the key holds none between two parts in key order. -/
def PlainWrites (writes : List TxnWrite) : Prop :=
  (effectiveWrites writes).toList = [] ∨
    ∃ key kind, (effectiveWrites writes).toList = [(key, kind)] ∧
      Plain TxnWriteKind.digestBytes (bytesLt · · = true) key kind

/-- The digest of a list is that of exactly the lists with the same effective writes, if and only
if the list is plain. -/
theorem digest_identifies_iff (hblake3 : Function.Injective blake3) (namespaceId : UInt64)
    (writes : List TxnWrite) :
    ((∀ other, effectiveWrites other = effectiveWrites writes →
        writeSetDigest blake3 other namespaceId = writeSetDigest blake3 writes namespaceId) ∧
      ∀ other, effectiveWrites other ≠ effectiveWrites writes →
        writeSetDigest blake3 other namespaceId ≠ writeSetDigest blake3 writes namespaceId) ↔
      PlainWrites writes := by
  have hextend (front name rest : Bytes) (hbefore : bytesLt front name = true) :
      bytesLt front (name ++ rest) = true := bytesLt_append rest hbefore
  rw [PlainWrites, ← determined_iff TxnWriteKind.digestBytes_injective
    TxnWriteKind.digestBytes_ne_nil hextend]
  constructor
  · rintro ⟨-, hdistinct⟩ items hitems hstream
    by_contra hne
    refine hdistinct (writesOf items) ?_ ?_
    · intro heq
      rw [← heq, toList_effectiveWrites hitems] at hne
      exact hne rfl
    · rw [writeSetDigest_eq_iff hblake3, toList_effectiveWrites hitems, hstream]
  · intro hdetermined
    refine ⟨fun other ↦ writeSetDigest_eq_of_effective namespaceId, fun other hne hdigest ↦ ?_⟩
    rw [writeSetDigest_eq_iff hblake3] at hdigest
    exact hne (Std.ExtTreeMap.toList_inj.mp (hdetermined _ (ascending_toList _) hdigest))

/-- Deleting the key `a` is told from all other writes. -/
theorem digest_identifies_delete :
    Function.Injective (id : Bytes → Bytes) ∧
      ∀ other, effectiveWrites other ≠ effectiveWrites [⟨[97], .delete, .any⟩] →
        writeSetDigest id other 3 ≠ writeSetDigest id [⟨[97], .delete, .any⟩] 3 := by
  refine ⟨Function.injective_id,
    ((digest_identifies_iff Function.injective_id 3 _).mpr (Or.inr ⟨[97], .delete, ?_, ?_⟩)).2⟩
  · rfl
  · constructor
    · intro front other hwritten
      match front with
      | [] => cases other <;> exact absurd (List.cons.inj hwritten).1 (by decide)
      | [byte] => rw [(List.cons.inj hwritten).1]
      | byte :: next :: rest =>
        have hnil := (List.append_eq_nil_iff.mp (List.cons.inj (List.cons.inj hwritten).2).2.symm).2
        exact absurd hnil other.digestBytes_ne_nil
    · intro front other back hname
      match front with
      | [] => cases other <;> exact absurd (List.cons.inj hname).1 (by decide)
      | byte :: rest =>
        have hnil := (List.append_eq_nil_iff.mp (List.append_eq_nil_iff.mp
          (List.cons.inj hname).2.symm).1).2
        exact absurd hnil other.digestBytes_ne_nil

/-- A value that looks like a deletion, and two deletions that are one of a longer key. -/
theorem different_writes_share_digest :
    (effectiveWrites [⟨[97], .put [2], .any⟩] ≠ effectiveWrites [⟨[97, 1], .delete, .any⟩] ∧
      ∀ (blake3 : Bytes → Digest) (namespaceId : UInt64),
        writeSetDigest blake3 [⟨[97], .put [2], .any⟩] namespaceId =
          writeSetDigest blake3 [⟨[97, 1], .delete, .any⟩] namespaceId) ∧
    (effectiveWrites [⟨[97], .delete, .any⟩, ⟨[98], .delete, .any⟩] ≠
        effectiveWrites [⟨[97, 2, 98], .delete, .any⟩] ∧
      ∀ (blake3 : Bytes → Digest) (namespaceId : UInt64),
        writeSetDigest blake3 [⟨[97], .delete, .any⟩, ⟨[98], .delete, .any⟩] namespaceId =
          writeSetDigest blake3 [⟨[97, 2, 98], .delete, .any⟩] namespaceId) := by
  have hdiffer {first second : List TxnWrite} {key : Key}
      (hkey : (effectiveWrites first)[key]? ≠ (effectiveWrites second)[key]?) :
      effectiveWrites first ≠ effectiveWrites second := fun heq ↦ hkey (by rw [heq])
  refine ⟨⟨hdiffer (show _ ≠ (effectiveWrites _)[([97] : Key)]? by decide), fun _ _ ↦ rfl⟩,
    hdiffer (show _ ≠ (effectiveWrites _)[([97] : Key)]? by decide), fun _ _ ↦ rfl⟩

end Kivi.State
