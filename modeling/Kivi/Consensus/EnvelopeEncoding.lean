import Kivi.Consensus.Tablet
import Kivi.State.MutationEncoding

/-!
# The canonical encoding of mutation envelopes

An envelope is the version of its framing, the identity of its target and of its client, an
optional idempotency key and the mutation. `envelope_codec_canonical` says that an admissible
envelope is written in exactly the announced size and read back in front of anything, and that
whatever is read is written as the bytes that were used for it.
-/

namespace Kivi.Consensus

open Library Library.Bytes Library.Codec.Decoder State

/-- An envelope with the version of its framing, which the decoder does not check. -/
structure VersionedEnvelope where
  version : UInt16
  envelope : MutationEnvelope
deriving DecidableEq

namespace VersionedEnvelope

/-! ### Sessions -/

def encodeSessionId (session : SessionId) : Bytes := leBytes 16 session.toNat

def decodeSessionId : Decode SessionId :=
  (fun raw ↦ BitVec.ofNat 128 (ofLeBytes raw.bytes)) <$> decodeArray 16

theorem decodeSessionId_eq_ok_iff {input rest : Bytes} {session : SessionId} :
    decodeSessionId input = .ok (session, rest) ↔ input = encodeSessionId session ++ rest := by
  have hpow : 256 ^ 16 = 2 ^ 128 := by norm_num
  constructor
  · intro hread
    obtain ⟨raw, hraw, rfl⟩ := map_eq_ok_iff.mp hread
    have hfits : ofLeBytes raw.bytes < 2 ^ 128 := hpow ▸ raw.ofLeBytes_lt
    have hvalue : (BitVec.ofNat 128 (ofLeBytes raw.bytes)).toNat = ofLeBytes raw.bytes := by
      rw [BitVec.toNat_ofNat, Nat.mod_eq_of_lt hfits]
    rw [encodeSessionId, hvalue, raw.leBytes_ofLeBytes]
    exact decodeArray_eq_ok_iff.mp hraw
  · rintro rfl
    have hfits : session.toNat < 256 ^ 16 := by
      rw [hpow]
      exact session.isLt
    have hraw : decodeArray 16 (encodeSessionId session ++ rest) =
        .ok (⟨encodeSessionId session, length_leBytes 16 _⟩, rest) :=
      decodeArray_eq_ok_iff.mpr rfl
    refine map_eq_ok_iff.mpr ⟨_, hraw, ?_⟩
    simp only [encodeSessionId, ofLeBytes_leBytes 16 _ hfits, BitVec.ofNat_toNat,
      BitVec.setWidth_eq]

/-! ### Idempotency keys -/

def encodeIdempotency : Option (FixedBytes 16) → Bytes
  | none => [0]
  | some key => 1 :: key.bytes

def decodeIdempotency : Decode (Option (FixedBytes 16)) := do
  match ← decodeU8 with
  | 0 => return none
  | 1 => return some (← decodeArray 16)
  | other => fail (.invalidTag "idempotency" other)

theorem decodeIdempotency_eq_ok_iff {input rest : Bytes} {key : Option (FixedBytes 16)} :
    decodeIdempotency input = .ok (key, rest) ↔ input = encodeIdempotency key ++ rest := by
  constructor
  · intro hread
    obtain ⟨tag, middle, htag, hbody⟩ := bind_eq_ok_iff.mp hread
    obtain rfl := decodeU8_eq_ok_iff.mp htag
    split at hbody
    · obtain ⟨rfl, rfl⟩ := pure_eq_ok_iff.mp hbody
      rfl
    · obtain ⟨raw, last, hraw, hpure⟩ := bind_eq_ok_iff.mp hbody
      obtain ⟨rfl, rfl⟩ := pure_eq_ok_iff.mp hpure
      rw [decodeArray_eq_ok_iff.mp hraw]
      rfl
    · cases hbody
  · rintro rfl
    cases key with
    | none => rfl
    | some raw => simp [decodeIdempotency, encodeIdempotency]

/-! ### Envelopes -/

def encodedLen (framed : VersionedEnvelope) : Nat :=
  2 + 8 + 8 + 8 + 8 + 16 + 8 + 1 + (framed.envelope.idempotency.elim 0 fun _ ↦ 16) +
    framed.envelope.operation.encodedLen

def encode (framed : VersionedEnvelope) : Option Bytes := do
  let envelope := framed.envelope
  let operation ← envelope.operation.encode
  return leBytes 2 framed.version.toNat ++ ((leU64 envelope.namespaceId).bytes ++
    ((leU64 envelope.authority.tablet).bytes ++ ((leU64 envelope.authority.epoch).bytes ++
      ((leU64 envelope.authority.guard).bytes ++ (encodeSessionId envelope.client.session ++
        ((leU64 envelope.client.seq).bytes ++ (encodeIdempotency envelope.idempotency ++
          operation)))))))

def decode : Decode VersionedEnvelope := do
  let version ← decodeU16
  let namespaceId ← decodeU64
  let tablet ← decodeU64
  let epoch ← decodeU64
  let guard ← decodeU64
  let session ← decodeSessionId
  let seq ← decodeU64
  let idempotency ← decodeIdempotency
  let operation ← Mutation.decode
  return ⟨version, ⟨namespaceId, ⟨tablet, epoch, guard⟩, ⟨session, seq⟩, idempotency, operation⟩⟩

theorem decode_eq_ok_iff {input rest : Bytes} {framed : VersionedEnvelope} :
    decode input = .ok (framed, rest) ↔ framed.envelope.operation.WellCounted ∧
      ∃ bytes, framed.encode = some bytes ∧ input = bytes ++ rest := by
  simp only [decode, bind_eq_ok_iff, pure_eq_ok_iff, decodeU16_eq_ok_iff, decodeU64_eq_ok_iff,
    decodeSessionId_eq_ok_iff, decodeIdempotency_eq_ok_iff, Mutation.decode_eq_ok_iff]
  constructor
  · rintro ⟨version, _, rfl, namespaceId, _, rfl, tablet, _, rfl, epoch, _, rfl, guard, _, rfl,
      session, _, rfl, seq, _, rfl, key, _, rfl, operation, _, ⟨hcounted, bytes, hbytes, rfl⟩,
      rfl, rfl⟩
    refine ⟨hcounted, ?_⟩
    simp [encode, hbytes]
  · rintro ⟨hcounted, bytes, hbytes, rfl⟩
    obtain ⟨operation, hoperation, hbytes⟩ := Option.bind_eq_some_iff.mp hbytes
    cases hbytes
    simp only [List.append_assoc]
    exact ⟨_, _, rfl, _, _, rfl, _, _, rfl, _, _, rfl, _, _, rfl, _, _, rfl, _, _, rfl, _, _, rfl,
      _, _, ⟨hcounted, operation, hoperation, rfl⟩, rfl, rfl⟩

theorem length_encode {framed : VersionedEnvelope} {bytes : Bytes}
    (h : framed.encode = some bytes) : bytes.length = framed.encodedLen := by
  obtain ⟨operation, hoperation, h⟩ := Option.bind_eq_some_iff.mp h
  cases h
  have hkey : (encodeIdempotency framed.envelope.idempotency).length =
      1 + framed.envelope.idempotency.elim 0 fun _ ↦ 16 := by
    cases framed.envelope.idempotency with
    | none => rfl
    | some raw => simp [encodeIdempotency, raw.length_eq]
  simp only [List.length_append, length_leBytes, FixedBytes.length_eq, encodeSessionId, hkey,
    Mutation.length_encode hoperation, encodedLen]
  omega

/-- An admissible envelope is written in exactly the size announced for it and read back whatever
follows, and an envelope that is read is admissible and written as the bytes it was read from. -/
theorem envelope_codec_canonical :
    (∀ framed : VersionedEnvelope, framed.envelope.operation.Admissible →
      ∃ bytes, framed.encode = some bytes ∧ bytes.length = framed.encodedLen ∧
        ∀ suffix, decode (bytes ++ suffix) = .ok (framed, suffix)) ∧
    ∀ input framed rest, decode input = .ok (framed, rest) →
      ∃ bytes, framed.encode = some bytes ∧ input = bytes ++ rest := by
  constructor
  · intro framed hadmissible
    obtain ⟨operation, hoperation⟩ := Mutation.encode_isSome_of_framed hadmissible.framed
    have hsome : ∃ bytes, framed.encode = some bytes := by simp [encode, hoperation]
    obtain ⟨bytes, hbytes⟩ := hsome
    refine ⟨bytes, hbytes, length_encode hbytes, fun suffix ↦ ?_⟩
    exact decode_eq_ok_iff.mpr ⟨hadmissible.counted, bytes, hbytes, rfl⟩
  · intro input framed rest hread
    exact (decode_eq_ok_iff.mp hread).2

/-- A retryable local commit of two writes. -/
def localCommit : VersionedEnvelope where
  version := 1
  envelope :=
    { namespaceId := 1
      authority := ⟨2, 3, 4⟩
      client := ⟨5, 6⟩
      idempotency := some (.zero 16)
      operation := .txnCommitLocal (.zero 16)
        [⟨[1], .put [7, 8], .absent⟩, ⟨[2], .counterAdd 9, .version ⟨3⟩⟩] }

/-- Its three blobs are within the frame bound, so it is written and read back. -/
theorem envelope_codec_local_commit :
    ∃ bytes, localCommit.encode = some bytes ∧ bytes.length = localCommit.encodedLen ∧
      ∀ suffix, decode (bytes ++ suffix) = .ok (localCommit, suffix) := by
  refine envelope_codec_canonical.1 localCommit ⟨?_, by decide, by decide⟩
  intro blob hblob
  have hmem : blob ∈ [[1], [7, 8], [2]] := hblob
  have hall : ∀ blob ∈ ([[1], [7, 8], [2]] : List Bytes), blob.length ≤ maxFrameBytes := by
    decide
  exact hall blob hmem

end VersionedEnvelope

end Kivi.Consensus
