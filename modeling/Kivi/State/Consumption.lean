import Kivi.State.MutationEncoding

/-!
# What the decoders leave

Every decoder of a stored value or a reservation leaves an end of its input. A caller that walks a
buffer by what a decoder used therefore stays inside the buffer.
-/

namespace Kivi.State

open Library.Codec.Decoder

theorem consumes_decodeArray (n : Nat) : Consumes (decodeArray n) := consumes_fixed n _

theorem consumes_decodeU8 : Consumes decodeU8 := consumes_byte _

theorem consumes_decodeU32 : Consumes decodeU32 := consumes_word32 _

theorem consumes_decodeU64 : Consumes decodeU64 := consumes_word64 _

theorem consumes_decodeI64 : Consumes decodeI64 := consumes_signed64 _

theorem consumes_decodeByteVec : Consumes decodeByteVec := by
  intro input value rest hread
  obtain ⟨encoded, -, rfl⟩ := decodeByteVec_eq_ok_iff.mp hread
  exact List.suffix_append encoded rest

theorem ObjectVersion.consumes_decode : Consumes ObjectVersion.decode :=
  consumes_map _ consumes_decodeU64

theorem FencingToken.consumes_decode : Consumes FencingToken.decode :=
  consumes_map _ consumes_decodeU64

theorem Expiry.consumes_decode : Consumes Expiry.decode := by
  intro input value rest hread
  rw [Expiry.decode_eq_ok_iff.mp hread]
  exact List.suffix_append _ rest

theorem ChunkedRef.consumes_decode : Consumes ChunkedRef.decode :=
  consumes_bind (consumes_decodeArray 32) fun _ ↦
    consumes_bind consumes_decodeU64 fun _ ↦ consumes_pure _

theorem FabricRef.consumes_decode : Consumes FabricRef.decode :=
  consumes_bind consumes_decodeU64 fun _ ↦ consumes_bind consumes_decodeU64 fun _ ↦
    consumes_bind consumes_decodeU64 fun _ ↦ consumes_pure _

theorem EscrowShare.consumes_decode : Consumes EscrowShare.decode :=
  consumes_bind consumes_decodeU64 fun _ ↦ consumes_bind consumes_decodeI64 fun _ ↦
    consumes_bind consumes_decodeI64 fun _ ↦ consumes_pure _

theorem BoundedCounterState.consumes_decode : Consumes BoundedCounterState.decode :=
  consumes_bind consumes_decodeI64 fun _ ↦ consumes_bind consumes_decodeU64 fun _ ↦
    consumes_bind EscrowShare.consumes_decode fun _ ↦ consumes_pure _

theorem LeaseHolder.consumes_decode : Consumes LeaseHolder.decode :=
  consumes_bind consumes_decodeU64 fun _ ↦ consumes_bind FencingToken.consumes_decode fun _ ↦
    consumes_bind consumes_decodeI64 fun _ ↦ consumes_pure _

theorem LeaseState.consumes_decode : Consumes LeaseState.decode := by
  refine consumes_bind consumes_decodeU8 fun tag ↦ ?_
  have hlast (holder : Option LeaseHolder) : Consumes (do
      let nextFencing ← FencingToken.decode
      return (⟨holder, nextFencing⟩ : LeaseState) : Decode LeaseState) :=
    consumes_bind FencingToken.consumes_decode fun _ ↦ consumes_pure _
  split
  · exact consumes_bind (consumes_pure _) hlast
  · exact consumes_bind LeaseHolder.consumes_decode fun holder ↦ hlast (some holder)
  · exact consumes_bind (consumes_fail _) hlast

theorem PermitRecord.consumes_decode : Consumes PermitRecord.decode :=
  consumes_bind consumes_decodeU64 fun _ ↦
    consumes_bind consumes_decodeU64 fun _ ↦ consumes_pure _

theorem SemaphoreState.consumes_decodePermits (count : Nat)
    (permits : Std.ExtTreeMap PermitId PermitRecord) :
    Consumes (SemaphoreState.decodePermits count permits) := by
  induction count generalizing permits with
  | zero => exact consumes_pure permits
  | succ count ih =>
    refine consumes_bind (consumes_decodeArray 16) fun id ↦
      consumes_bind PermitRecord.consumes_decode fun permit ↦ ?_
    split_ifs
    · exact consumes_fail _
    · exact ih (permits.insert id permit)

theorem SemaphoreState.consumes_decode : Consumes SemaphoreState.decode := by
  refine consumes_bind consumes_decodeU64 fun capacity ↦
    consumes_bind consumes_decodeU32 fun count ↦ ?_
  split_ifs
  · exact consumes_fail _
  · exact consumes_bind (consumes_decodePermits count.toNat ∅) fun _ ↦ consumes_pure _

theorem StreamEntry.consumes_decode : Consumes StreamEntry.decode :=
  consumes_bind consumes_decodeU64 fun _ ↦ consumes_bind consumes_decodeByteVec fun _ ↦
    consumes_bind consumes_decodeByteVec fun _ ↦ consumes_pure _

theorem StreamShardState.consumes_decodeEntries (count : Nat) (previous : Option UInt64) :
    Consumes (StreamShardState.decodeEntries count previous) := by
  induction count generalizing previous with
  | zero => exact consumes_pure []
  | succ count ih =>
    refine consumes_bind StreamEntry.consumes_decode fun entry ↦ ?_
    split_ifs
    · exact consumes_fail _
    · exact consumes_fail _
    · exact consumes_bind (ih (some entry.offset)) fun _ ↦ consumes_pure _

theorem StreamShardState.consumes_decode : Consumes StreamShardState.decode := by
  refine consumes_bind (consumes_decodeArray 16) fun stream ↦
    consumes_bind consumes_decodeU32 fun shard ↦ consumes_bind consumes_decodeU64 fun nextOffset ↦
      consumes_bind consumes_decodeU32 fun count ↦ ?_
  split_ifs
  · exact consumes_fail _
  · exact consumes_bind (consumes_decodeEntries count.toNat none) fun _ ↦ consumes_pure _

theorem TxnExpect.consumes_decode : Consumes TxnExpect.decode := by
  intro input value rest hread
  rw [TxnExpect.decode_eq_ok_iff.mp hread]
  exact List.suffix_append _ rest

theorem TxnWriteKind.consumes_decode : Consumes TxnWriteKind.decode := by
  intro input value rest hread
  obtain ⟨encoded, -, rfl⟩ := TxnWriteKind.decode_eq_ok_iff.mp hread
  exact List.suffix_append encoded rest

end Kivi.State
