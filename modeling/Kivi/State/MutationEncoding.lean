import Kivi.State.OutcomeEncoding

/-!
# The canonical encoding of mutations

A mutation is a tag and its fields. The source sizes, writes and reads it by three functions of
their own. `decode_eq_ok_iff` says that reading inverts writing on both sides: exactly the bytes
that an admissible mutation is written as are read, and as that mutation; `length_encode` says
that the announced size is the size written.
-/

namespace Kivi.State

open Library Library.Bytes Library.Codec.Decoder

/-! ### Fields are read from their own bytes only -/

variable {bytes : Bytes}

section Fields

variable {input rest : Bytes}

theorem decodeArray_eq_ok_iff {n : Nat} {raw : FixedBytes n} :
    decodeArray n input = .ok (raw, rest) ↔ input = raw.bytes ++ rest := fixed_eq_ok_iff

theorem decodeU8_eq_ok_iff {value : UInt8} :
    decodeU8 input = .ok (value, rest) ↔ input = value :: rest := byte_eq_ok_iff

theorem decodeU16_eq_ok_iff {word : UInt16} :
    decodeU16 input = .ok (word, rest) ↔ input = leBytes 2 word.toNat ++ rest := word16_eq_ok_iff

theorem decodeU32_eq_ok_iff {word : UInt32} :
    decodeU32 input = .ok (word, rest) ↔ input = leU32 word ++ rest := word32_eq_ok_iff

theorem decodeU64_eq_ok_iff {word : UInt64} :
    decodeU64 input = .ok (word, rest) ↔ input = (leU64 word).bytes ++ rest := word64_eq_ok_iff

theorem decodeI64_eq_ok_iff {word : Int64} :
    decodeI64 input = .ok (word, rest) ↔ input = leI64 word ++ rest := signed64_eq_ok_iff

theorem decodeBool_eq_ok_iff {flag : Bool} :
    decodeBool input = .ok (flag, rest) ↔ input = encodeBool flag ++ rest := by
  constructor
  · intro hread
    obtain ⟨tag, middle, htag, hbody⟩ := bind_eq_ok_iff.mp hread
    obtain rfl := decodeU8_eq_ok_iff.mp htag
    split at hbody
    · obtain ⟨rfl, rfl⟩ := pure_eq_ok_iff.mp hbody
      rfl
    · obtain ⟨rfl, rfl⟩ := pure_eq_ok_iff.mp hbody
      rfl
    · cases hbody
  · rintro rfl
    exact decodeBool_append rest flag

theorem decodeByteVec_eq_ok_iff :
    decodeByteVec input = .ok (bytes, rest) ↔
      ∃ encoded, encodeBytes bytes = some encoded ∧ input = encoded ++ rest := by
  constructor
  · intro hread
    unfold decodeByteVec at hread
    rcases hlen : decodeU32 input with error | ⟨len, blob⟩
    · rw [hlen] at hread
      cases hread
    · simp only [hlen] at hread
      split_ifs at hread with hlarge hshort
      cases hread
      have hlength : (blob.take len.toNat).length = len.toNat :=
        List.length_take_of_le (Nat.not_lt.mp hshort)
      have hword : u32OfLength (blob.take len.toNat).length = len := by
        rw [hlength, u32OfLength, if_pos len.toNat_lt, UInt32.ofNat_toNat]
      refine ⟨leU32 len ++ blob.take len.toNat, encodeBytes_eq_some_iff.mpr ⟨?_, ?_⟩, ?_⟩
      · rw [hlength]
        exact Nat.not_lt.mp hlarge
      · rw [hword]
      · rw [decodeU32_eq_ok_iff.mp hlen, List.append_assoc, List.take_append_drop]
  · rintro ⟨encoded, hencoded, rfl⟩
    exact reads_decodeByteVec hencoded rest

theorem ObjectVersion.decode_eq_ok_iff {version : ObjectVersion} :
    ObjectVersion.decode input = .ok (version, rest) ↔ input = version.encode ++ rest := by
  constructor
  · intro hread
    obtain ⟨raw, hraw, rfl⟩ := map_eq_ok_iff.mp hread
    exact decodeU64_eq_ok_iff.mp hraw
  · rintro rfl
    exact ObjectVersion.decode_append rest version

theorem FencingToken.decode_eq_ok_iff {token : FencingToken} :
    FencingToken.decode input = .ok (token, rest) ↔ input = token.encode ++ rest := by
  constructor
  · intro hread
    obtain ⟨raw, hraw, rfl⟩ := map_eq_ok_iff.mp hread
    exact decodeU64_eq_ok_iff.mp hraw
  · rintro rfl
    exact FencingToken.decode_append rest token

theorem Expiry.decode_eq_ok_iff {expiry : Expiry} :
    Expiry.decode input = .ok (expiry, rest) ↔ input = expiry.encode ++ rest := by
  constructor
  · intro hread
    obtain ⟨tag, middle, htag, hbody⟩ := bind_eq_ok_iff.mp hread
    obtain rfl := decodeU8_eq_ok_iff.mp htag
    split at hbody
    all_goals simp only [bind_eq_ok_iff, pure_eq_ok_iff, fail_apply, reduceCtorEq,
      decodeI64_eq_ok_iff] at hbody
    all_goals
      casesm* ∃ _, _, _ ∧ _
      subst_vars
      rfl
  · rintro rfl
    exact Expiry.decode_append rest expiry

theorem TxnExpect.decode_eq_ok_iff {expect : TxnExpect} :
    TxnExpect.decode input = .ok (expect, rest) ↔ input = expect.encode ++ rest := by
  constructor
  · intro hread
    obtain ⟨tag, middle, htag, hbody⟩ := bind_eq_ok_iff.mp hread
    obtain rfl := decodeU8_eq_ok_iff.mp htag
    split at hbody
    all_goals simp only [bind_eq_ok_iff, pure_eq_ok_iff, fail_apply, reduceCtorEq,
      ObjectVersion.decode_eq_ok_iff] at hbody
    all_goals
      casesm* ∃ _, _, _ ∧ _
      subst_vars
      rfl
  · rintro rfl
    exact TxnExpect.decode_append expect rest

end Fields

variable {input rest : Bytes} {kind : TxnWriteKind}

theorem TxnWriteKind.decode_eq_ok_iff :
    TxnWriteKind.decode input = .ok (kind, rest) ↔
      ∃ bytes, kind.encode = some bytes ∧ input = bytes ++ rest := by
  constructor
  · intro hread
    obtain ⟨tag, middle, htag, hbody⟩ := bind_eq_ok_iff.mp hread
    obtain rfl := decodeU8_eq_ok_iff.mp htag
    split at hbody
    all_goals simp only [bind_eq_ok_iff, pure_eq_ok_iff, fail_apply, reduceCtorEq,
      decodeByteVec_eq_ok_iff, decodeArray_eq_ok_iff, decodeU64_eq_ok_iff,
      decodeI64_eq_ok_iff] at hbody
    all_goals
      casesm* ∃ _, _, _ ∧ _
      subst_vars
      simp [encode, *]
  · rintro ⟨bytes, hbytes, rfl⟩
    exact reads_decode hbytes rest

/-! ### Writing -/

variable {write : TxnWrite}

namespace TxnWrite

def encode (write : TxnWrite) : Option Bytes := do
  let key ← encodeBytes write.key
  let kind ← write.kind.encode
  return key ++ (write.expect.encode ++ kind)

def decode : Decode TxnWrite := do
  let key ← decodeByteVec
  let expect ← TxnExpect.decode
  let kind ← TxnWriteKind.decode
  return ⟨key, kind, expect⟩

theorem decode_eq_ok_iff :
    decode input = .ok (write, rest) ↔
      ∃ bytes, write.encode = some bytes ∧ input = bytes ++ rest := by
  simp only [decode, bind_eq_ok_iff, pure_eq_ok_iff, decodeByteVec_eq_ok_iff,
    TxnExpect.decode_eq_ok_iff, TxnWriteKind.decode_eq_ok_iff]
  constructor
  · rintro ⟨key, _, ⟨keyBytes, hkey, rfl⟩, expect, _, rfl, kind, _, ⟨kindBytes, hkind, rfl⟩,
      rfl, rfl⟩
    simp [encode, hkey, hkind]
  · rintro ⟨bytes, hbytes, rfl⟩
    obtain ⟨keyBytes, kindBytes, hkey, hkind, rfl⟩ := parts_of_some hbytes
    exact ⟨write.key, _, ⟨keyBytes, hkey, List.append_assoc _ _ _⟩, write.expect, _,
      List.append_assoc _ _ _, write.kind, rest, ⟨kindBytes, hkind, rfl⟩, rfl, rfl⟩

end TxnWrite

namespace Mutation

/-- A tag, a key and the bytes behind it. -/
def encodeKeyed (tag : UInt8) (key : Key) (fields : Bytes) : Option Bytes := do
  return tag :: ((← encodeBytes key) ++ fields)

def encodeKeyDelta (tag : UInt8) (key : Key) (delta : Int64) : Option Bytes :=
  encodeKeyed tag key (leI64 delta)

/-- The expiry of a conditional replacement, or nothing. -/
def encodeResolved : Option Expiry → Bytes
  | none => []
  | some expiry => expiry.encode

def encodeChunkedRoot (tag : UInt8) (key : Key) (manifest : ManifestId) (logicalLen : UInt64)
    (expiry : Option Expiry) : Option Bytes :=
  encodeKeyed tag key (manifest.bytes ++ ((leU64 logicalLen).bytes ++ encodeResolved expiry))

def encodeFabricRoot (tag : UInt8) (key : Key) (fabricId logicalLen version : UInt64)
    (expiry : Option Expiry) : Option Bytes :=
  encodeKeyed tag key ((leU64 fabricId).bytes ++ ((leU64 logicalLen).bytes ++
    ((leU64 version).bytes ++ encodeResolved expiry)))

def encodeLeaseGrant (tag : UInt8) (key : Key) (owner : UInt64) (fencing : FencingToken)
    (expiresAt : WallTimestamp) : Option Bytes :=
  encodeKeyed tag key ((leU64 owner).bytes ++ (fencing.encode ++ leI64 expiresAt))

def encodeTxnPrepare (txn : TxnId) (coordinator : TabletId) (key : Key) (expect : TxnExpect)
    (write : TxnWriteKind) (digest : Digest) : Option Bytes := do
  let keyBytes ← encodeBytes key
  let writeBytes ← write.encode
  return 9 :: (txn.bytes ++ ((leU64 coordinator).bytes ++ (keyBytes ++
    (expect.encode ++ (writeBytes ++ digest.bytes)))))

def encodeTxnFinalize (txn : TxnId) (key : Key) (commit : Bool) (write : TxnWrite)
    (digest : Digest) : Option Bytes := do
  let keyBytes ← encodeBytes key
  let writeBytes ← write.encode
  return 10 :: (txn.bytes ++ (keyBytes ++ (encodeBool commit ++ (writeBytes ++ digest.bytes))))

def encodeTxnCommitLocal (txn : TxnId) (writes : List TxnWrite) : Option Bytes := do
  let writeBytes ← encodeEach TxnWrite.encode writes
  return 24 :: (txn.bytes ++
    (leBytes 2 (OperationResult.u16OfLength writes.length).toNat ++ writeBytes))

def encode : Mutation → Option Bytes
  | putBytes key value => do encodeKeyed 1 key (← encodeBytes value)
  | delete key => encodeKeyed 2 key []
  | counterAdd key delta => encodeKeyDelta 3 key delta
  | setExpiry key expiry => encodeKeyed 4 key expiry.encode
  | replaceChunkedRoot key manifest logicalLen => encodeChunkedRoot 5 key manifest logicalLen none
  | spliceBytes key offset patch => do
    encodeKeyed 6 key ((leU64 offset).bytes ++ (← encodeBytes patch))
  | putBytesWithExpiry key value expiry => do
    encodeKeyed 7 key ((← encodeBytes value) ++ expiry.encode)
  | replaceChunkedRootWithExpiry key manifest logicalLen expiry =>
    encodeChunkedRoot 8 key manifest logicalLen (some expiry)
  | txnPrepare txn coordinator key expect write digest =>
    encodeTxnPrepare txn coordinator key expect write digest
  | txnFinalize txn key commit write digest => encodeTxnFinalize txn key commit write digest
  | commutativeAdd key delta => encodeKeyDelta 11 key delta
  | boundedCreate key capacity holder =>
    encodeKeyed 12 key ((leU64 capacity).bytes ++ (leU64 holder).bytes)
  | boundedAdd key delta => encodeKeyDelta 13 key delta
  | escrowSetShare key min max => encodeKeyed 14 key (leI64 min ++ leI64 max)
  | semaphoreCreate key capacity => encodeKeyed 15 key (leU64 capacity).bytes
  | semaphoreAcquire key permit owner qty =>
    encodeKeyed 16 key (permit.bytes ++ ((leU64 owner).bytes ++ (leU64 qty).bytes))
  | semaphoreRelease key permit => encodeKeyed 17 key permit.bytes
  | leaseAcquire key owner fencing expiresAt => encodeLeaseGrant 18 key owner fencing expiresAt
  | leaseRenew key owner fencing expiresAt => encodeLeaseGrant 19 key owner fencing expiresAt
  | leaseRelease key owner fencing => encodeKeyed 20 key ((leU64 owner).bytes ++ fencing.encode)
  | streamCreate key stream shard => encodeKeyed 21 key (stream.bytes ++ leU32 shard)
  | streamAppend key partition payload => do
    encodeKeyed 22 key ((← encodeBytes partition) ++ (← encodeBytes payload))
  | streamTrim key through => encodeKeyed 23 key (leU64 through).bytes
  | txnCommitLocal txn writes => encodeTxnCommitLocal txn writes
  | replaceFabricRoot key fabricId logicalLen version =>
    encodeFabricRoot 25 key fabricId logicalLen version none
  | replaceFabricRootWithExpiry key fabricId logicalLen version expiry =>
    encodeFabricRoot 26 key fabricId logicalLen version (some expiry)

/-! ### Reading -/

/-- A local commit without writes, or with more than a transaction may have, is malformed. -/
def decodeTxnCommitLocal : Decode Mutation := do
  let txn ← decodeArray 16
  let count ← decodeU16
  if count.toNat = 0 ∨ maxTxnKeys < count.toNat then fail (.invalidTag "mutation" 24)
  else return txnCommitLocal txn (← TxnWrite.decode.many count.toNat)

/-- What follows the tag. -/
def decodeTagged : UInt8 → Decode Mutation
  | 1 => do return putBytes (← decodeByteVec) (← decodeByteVec)
  | 2 => do return delete (← decodeByteVec)
  | 3 => do return counterAdd (← decodeByteVec) (← decodeI64)
  | 4 => do return setExpiry (← decodeByteVec) (← Expiry.decode)
  | 5 => do return replaceChunkedRoot (← decodeByteVec) (← decodeArray 32) (← decodeU64)
  | 6 => do return spliceBytes (← decodeByteVec) (← decodeU64) (← decodeByteVec)
  | 7 => do return putBytesWithExpiry (← decodeByteVec) (← decodeByteVec) (← Expiry.decode)
  | 8 => do
    return replaceChunkedRootWithExpiry (← decodeByteVec) (← decodeArray 32) (← decodeU64)
      (← Expiry.decode)
  | 25 => do
    return replaceFabricRoot (← decodeByteVec) (← decodeU64) (← decodeU64) (← decodeU64)
  | 26 => do
    return replaceFabricRootWithExpiry (← decodeByteVec) (← decodeU64) (← decodeU64)
      (← decodeU64) (← Expiry.decode)
  | 9 => do
    return txnPrepare (← decodeArray 16) (← decodeU64) (← decodeByteVec) (← TxnExpect.decode)
      (← TxnWriteKind.decode) (← decodeArray 32)
  | 10 => do
    return txnFinalize (← decodeArray 16) (← decodeByteVec) (← decodeBool) (← TxnWrite.decode)
      (← decodeArray 32)
  | 24 => decodeTxnCommitLocal
  | 11 => do return commutativeAdd (← decodeByteVec) (← decodeI64)
  | 12 => do return boundedCreate (← decodeByteVec) (← decodeU64) (← decodeU64)
  | 13 => do return boundedAdd (← decodeByteVec) (← decodeI64)
  | 14 => do return escrowSetShare (← decodeByteVec) (← decodeI64) (← decodeI64)
  | 15 => do return semaphoreCreate (← decodeByteVec) (← decodeU64)
  | 16 => do
    return semaphoreAcquire (← decodeByteVec) (← decodeArray 16) (← decodeU64) (← decodeU64)
  | 17 => do return semaphoreRelease (← decodeByteVec) (← decodeArray 16)
  | 18 => do
    return leaseAcquire (← decodeByteVec) (← decodeU64) (← FencingToken.decode) (← decodeI64)
  | 19 => do
    return leaseRenew (← decodeByteVec) (← decodeU64) (← FencingToken.decode) (← decodeI64)
  | 20 => do return leaseRelease (← decodeByteVec) (← decodeU64) (← FencingToken.decode)
  | 21 => do return streamCreate (← decodeByteVec) (← decodeArray 16) (← decodeU32)
  | 22 => do return streamAppend (← decodeByteVec) (← decodeByteVec) (← decodeByteVec)
  | 23 => do return streamTrim (← decodeByteVec) (← decodeU64)
  | other => fail (.invalidTag "mutation" other)

def decode : Decode Mutation := do decodeTagged (← decodeU8)

/-! ### Sizes -/

end Mutation

def Expiry.encodedLen (expiry : Expiry) : Nat :=
  match expiry.deadline with
  | none => 1
  | some _ => 9

def TxnExpect.encodedLen : TxnExpect → Nat
  | .any | .absent => 1
  | .version _ => 1 + 8

def TxnWriteKind.encodedLen : TxnWriteKind → Nat
  | .put value => 1 + 4 + value.length
  | .delete => 1
  | .counterAdd _ | .commutativeAdd _ | .boundedAdd _ => 1 + 8
  | .putChunked _ _ => 1 + 32 + 8
  | .putFabric _ _ _ => 1 + 8 + 8 + 8
  | .escrowSetShare _ _ => 1 + 8 + 8

variable {mutation : Mutation} {tag : UInt8}

namespace Mutation

def encodedLen : Mutation → Nat
  | putBytes key value => 1 + (4 + key.length) + (4 + value.length)
  | delete key => 1 + (4 + key.length)
  | counterAdd key _ | commutativeAdd key _ | boundedAdd key _ | semaphoreCreate key _
  | streamTrim key _ => 1 + (4 + key.length) + 8
  | setExpiry key expiry => 1 + (4 + key.length) + expiry.encodedLen
  | replaceChunkedRoot key _ _ => 1 + (4 + key.length) + 32 + 8
  | replaceFabricRoot key _ _ _ => 1 + (4 + key.length) + 8 + 8 + 8
  | spliceBytes key _ patch => 1 + (4 + key.length) + 8 + (4 + patch.length)
  | putBytesWithExpiry key value expiry =>
    1 + (4 + key.length) + (4 + value.length) + expiry.encodedLen
  | replaceChunkedRootWithExpiry key _ _ expiry =>
    1 + (4 + key.length) + 32 + 8 + expiry.encodedLen
  | replaceFabricRootWithExpiry key _ _ _ expiry =>
    1 + (4 + key.length) + 8 + 8 + 8 + expiry.encodedLen
  | txnPrepare _ _ key expect write _ =>
    1 + 16 + 8 + (4 + key.length) + expect.encodedLen + write.encodedLen + 32
  | txnFinalize _ key _ write _ =>
    1 + 16 + (4 + key.length) + 1 + (4 + write.key.length) + write.expect.encodedLen +
      write.kind.encodedLen + 32
  | txnCommitLocal _ writes =>
    1 + 16 + 2 + (writes.map fun write ↦
      (4 + write.key.length) + write.expect.encodedLen + write.kind.encodedLen).sum
  | boundedCreate key _ _ | escrowSetShare key _ _ => 1 + (4 + key.length) + 8 + 8
  | semaphoreAcquire key _ _ _ => 1 + (4 + key.length) + 16 + 8 + 8
  | semaphoreRelease key _ => 1 + (4 + key.length) + 16
  | leaseAcquire key _ _ _ | leaseRenew key _ _ _ => 1 + (4 + key.length) + 8 + 8 + 8
  | leaseRelease key _ _ => 1 + (4 + key.length) + 8 + 8
  | streamCreate key _ _ => 1 + (4 + key.length) + 16 + 4
  | streamAppend key partition payload =>
    1 + (4 + key.length) + (4 + partition.length) + (4 + payload.length)

/-! ### Reading inverts writing -/

/-- A local commit has as many writes as a transaction may have. -/
def WellCounted : Mutation → Prop
  | txnCommitLocal _ writes => 1 ≤ writes.length ∧ writes.length ≤ maxTxnKeys
  | _ => True

theorem toNat_u16OfLength {length : Nat} (h : length ≤ maxTxnKeys) :
    (OperationResult.u16OfLength length).toNat = length := by
  have hfits : length < 2 ^ 16 := lt_of_le_of_lt h (by decide)
  rw [OperationResult.u16OfLength, if_pos hfits]
  exact UInt16.toNat_ofNat_of_lt' hfits

/-- What is read as a local commit was written as one, with an allowed number of writes. -/
theorem decodeTxnCommitLocal_eq_ok_iff :
    decodeTxnCommitLocal input = .ok (mutation, rest) ↔ ∃ txn writes bytes,
      mutation = txnCommitLocal txn writes ∧ mutation.WellCounted ∧
        encodeTxnCommitLocal txn writes = some (24 :: bytes) ∧ input = bytes ++ rest := by
  constructor
  · intro hread
    obtain ⟨txn, _, htxn, hread⟩ := bind_eq_ok_iff.mp hread
    obtain ⟨count, tail, hcount, hread⟩ := bind_eq_ok_iff.mp hread
    rw [decodeArray_eq_ok_iff.mp htxn, decodeU16_eq_ok_iff.mp hcount]
    split at hread
    · cases hread
    next hbad =>
      obtain ⟨writes, _, hwrites, hread⟩ := bind_eq_ok_iff.mp hread
      obtain ⟨rfl, rfl⟩ := pure_eq_ok_iff.mp hread
      obtain ⟨hlength, bytes, hbytes, rfl⟩ :=
        (many_eq_ok_iff fun _ _ _ ↦ TxnWrite.decode_eq_ok_iff).mp hwrites
      have hcounted : (txnCommitLocal txn writes).WellCounted := by
        constructor
        · omega
        · omega
      have hword : OperationResult.u16OfLength writes.length = count := by
        rw [OperationResult.u16OfLength, if_pos (hlength ▸ count.toNat_lt), hlength,
          UInt16.ofNat_toNat]
      refine ⟨txn, writes, txn.bytes ++ (leBytes 2 count.toNat ++ bytes), rfl, hcounted, ?_, ?_⟩
      · simp [encodeTxnCommitLocal, hbytes, hword]
      · simp
  · rintro ⟨txn, writes, bytes, rfl, ⟨hpositive, hfew⟩, hencode, rfl⟩
    obtain ⟨writeBytes, hwrites, hencode⟩ := Option.bind_eq_some_iff.mp hencode
    obtain ⟨-, rfl⟩ := List.cons.inj (Option.some.inj hencode)
    have hcount := toNat_u16OfLength hfew
    have hgood : ¬(writes.length = 0 ∨ maxTxnKeys < writes.length) := by omega
    have hmany : TxnWrite.decode.many writes.length (writeBytes ++ rest) = .ok (writes, rest) :=
      (many_eq_ok_iff fun _ _ _ ↦ TxnWrite.decode_eq_ok_iff).mpr ⟨rfl, writeBytes, hwrites, rfl⟩
    -- The count is read back as a word before it is known to be the length.
    simp only [decodeTxnCommitLocal, bind_apply, List.append_assoc, decodeArray_append,
      decodeU16_append]
    rw [hcount, if_neg hgood]
    simp only [bind_apply, hmany, pure_apply]

/-- Only what a mutation is written as is read as it. -/
theorem canonical_decodeTagged (h : decodeTagged tag input = .ok (mutation, rest)) :
    mutation.WellCounted ∧
      ∃ bytes, mutation.encode = some bytes ∧ tag :: input = bytes ++ rest := by
  unfold decodeTagged at h
  split at h
  all_goals simp only [bind_eq_ok_iff, pure_eq_ok_iff, fail_apply, reduceCtorEq,
    decodeByteVec_eq_ok_iff, decodeArray_eq_ok_iff, decodeU32_eq_ok_iff, decodeU64_eq_ok_iff,
    decodeI64_eq_ok_iff, decodeBool_eq_ok_iff, Expiry.decode_eq_ok_iff,
    FencingToken.decode_eq_ok_iff, TxnExpect.decode_eq_ok_iff, TxnWriteKind.decode_eq_ok_iff,
    TxnWrite.decode_eq_ok_iff, decodeTxnCommitLocal_eq_ok_iff] at h
  case h_13 =>
    obtain ⟨txn, writes, bytes, rfl, hcounted, hencode, rfl⟩ := h
    exact ⟨hcounted, 24 :: bytes, hencode, rfl⟩
  -- Each field of the others was read from the bytes it is written as, one after the other.
  all_goals
    casesm* ∃ _, _, _ ∧ _
    subst_vars
    simp [WellCounted, encode, encodeKeyed, encodeKeyDelta, encodeChunkedRoot, encodeFabricRoot,
      encodeLeaseGrant, encodeTxnPrepare, encodeTxnFinalize, encodeResolved, *]

theorem decodeByteVec_append {blob : Bytes} (h : blob.length ≤ maxFrameBytes) :
    decodeByteVec (leU32 (u32OfLength blob.length) ++ (blob ++ rest)) = .ok (blob, rest) := by
  rw [← List.append_assoc]
  exact reads_decodeByteVec (encodeBytes_eq_some_iff.mpr ⟨h, rfl⟩) rest

theorem decode_cons (tag : UInt8) (input : Bytes) :
    decode (tag :: input) = decodeTagged tag input := rfl

/-- What a well-counted mutation is written as is read as it. -/
theorem reads_decode (hcounted : mutation.WellCounted) (h : mutation.encode = some bytes) :
    Reads decode bytes mutation := by
  intro rest
  cases mutation with
  | txnCommitLocal txn writes =>
    obtain ⟨writeBytes, hwrites, hbytes⟩ := Option.bind_eq_some_iff.mp h
    cases hbytes
    exact decodeTxnCommitLocal_eq_ok_iff.mpr ⟨txn, writes, _, rfl, hcounted, h, rfl⟩
  | txnPrepare txn coordinator key expect write digest =>
    obtain ⟨first, second, hfirst, hsecond, rfl⟩ := parts_of_some h
    rw [List.cons_append, decode_cons]
    dsimp only [decodeTagged]
    simp [reads_decodeByteVec hfirst _, TxnWriteKind.reads_decode hsecond _]
  | txnFinalize txn key commit write digest =>
    obtain ⟨first, second, hfirst, hsecond, rfl⟩ := parts_of_some h
    have hwrite (tail : Bytes) : TxnWrite.decode (second ++ tail) = .ok (write, tail) :=
      TxnWrite.decode_eq_ok_iff.mpr ⟨second, hsecond, rfl⟩
    rw [List.cons_append, decode_cons]
    dsimp only [decodeTagged]
    simp [reads_decodeByteVec hfirst _, hwrite]
  | _ =>
    -- The other mutations are blobs, with a key first, and fields of fixed width.
    simp only [encode, encodeKeyDelta, encodeChunkedRoot, encodeFabricRoot, encodeLeaseGrant,
      encodeKeyed, Option.bind_eq_bind, Option.bind_eq_some_iff, Option.pure_def,
      Option.some.injEq, encodeBytes_eq_some_iff] at h
    casesm* ∃ _, _, _ ∧ _
    subst_vars
    rw [List.cons_append, decode_cons]
    dsimp only [decodeTagged]
    simp [decodeByteVec_append, encodeResolved, FencingToken.encode, *]

theorem decode_eq_ok_iff :
    decode input = .ok (mutation, rest) ↔ mutation.WellCounted ∧
      ∃ bytes, mutation.encode = some bytes ∧ input = bytes ++ rest := by
  constructor
  · intro hread
    obtain ⟨tag, middle, htag, htagged⟩ := bind_eq_ok_iff.mp hread
    rw [decodeU8_eq_ok_iff.mp htag]
    exact canonical_decodeTagged htagged
  · rintro ⟨hcounted, bytes, hbytes, rfl⟩
    exact reads_decode hcounted hbytes rest

end Mutation

/-! ### Sizes are exact -/

theorem Expiry.length_encode (expiry : Expiry) : expiry.encode.length = expiry.encodedLen := by
  rcases expiry with ⟨_ | stamp⟩
  · rfl
  · simp [encode, encodedLen]

theorem TxnExpect.length_encode (expect : TxnExpect) :
    expect.encode.length = expect.encodedLen := by
  cases expect with
  | any => rfl
  | absent => rfl
  | version required => simp [encode, encodedLen, ObjectVersion.encode, (leU64 _).length_eq]

theorem TxnWriteKind.length_encode (h : kind.encode = some bytes) :
    bytes.length = kind.encodedLen := by
  cases kind with
  | put value =>
    obtain ⟨encoded, hencoded, rfl⟩ := Option.map_eq_some_iff.mp h
    simp only [encodedLen, List.length_cons, length_encodeBytes hencoded]
    omega
  | _ =>
    cases h
    simp [encodedLen, FixedBytes.length_eq]

theorem TxnWrite.length_encode (h : write.encode = some bytes) :
    bytes.length = (4 + write.key.length) + write.expect.encodedLen + write.kind.encodedLen := by
  obtain ⟨key, kind, hkey, hkind, rfl⟩ := parts_of_some h
  simp only [List.length_append, length_encodeBytes hkey, TxnExpect.length_encode,
    TxnWriteKind.length_encode hkind]
  omega

namespace Mutation

theorem length_encode (h : mutation.encode = some bytes) : bytes.length = mutation.encodedLen := by
  cases mutation with
  | txnCommitLocal txn writes =>
    obtain ⟨writeBytes, hwrites, h⟩ := Option.bind_eq_some_iff.mp h
    cases h
    simp only [encodedLen, List.length_cons, List.length_append, FixedBytes.length_eq,
      length_leBytes, length_encodeEach (fun _ _ ↦ TxnWrite.length_encode) hwrites]
    omega
  | txnPrepare txn coordinator key expect write digest =>
    obtain ⟨first, second, hfirst, hsecond, rfl⟩ := parts_of_some h
    simp only [encodedLen, List.length_cons, List.length_append, FixedBytes.length_eq,
      length_encodeBytes hfirst, TxnExpect.length_encode, TxnWriteKind.length_encode hsecond]
    omega
  | txnFinalize txn key commit write digest =>
    obtain ⟨first, second, hfirst, hsecond, rfl⟩ := parts_of_some h
    simp only [encodedLen, List.length_cons, List.length_append, FixedBytes.length_eq,
      length_encodeBool, length_encodeBytes hfirst, TxnWrite.length_encode hsecond]
    omega
  | _ =>
    simp only [encode, encodeKeyDelta, encodeChunkedRoot, encodeFabricRoot, encodeLeaseGrant,
      encodeKeyed, Option.bind_eq_bind, Option.bind_eq_some_iff, Option.pure_def,
      Option.some.injEq, encodeBytes_eq_some_iff] at h
    casesm* ∃ _, _, _ ∧ _
    subst_vars
    simp only [encodedLen, encodeResolved, FencingToken.encode, List.length_cons,
      List.length_append, List.length_nil, FixedBytes.length_eq, permitIdLen, length_leI64, leU32,
      length_leBytes, Expiry.length_encode]
    omega

end Mutation

/-! ### What can be written -/

/-- The blobs of a write behind a length of their own. -/
def TxnWriteKind.blobs : TxnWriteKind → List Bytes
  | .put value => [value]
  | _ => []

def TxnWrite.blobs (write : TxnWrite) : List Bytes := write.key :: write.kind.blobs

/-- No blob is above the frame bound. -/
def Framed (blobs : List Bytes) : Prop := ∀ blob ∈ blobs, blob.length ≤ maxFrameBytes

theorem framed_cons {blob : Bytes} {blobs : List Bytes} :
    Framed (blob :: blobs) ↔ (encodeBytes blob).isSome = true ∧ Framed blobs := by
  simp [Framed, encodeBytes_isSome_iff]

theorem TxnWriteKind.encode_isSome_iff_framed : kind.encode.isSome = true ↔ Framed kind.blobs := by
  cases kind with
  | put value => simp [encode, blobs, Framed, encodeBytes_isSome_iff]
  | _ => simp [encode, blobs, Framed]

theorem TxnWrite.encode_isSome_iff : write.encode.isSome = true ↔ Framed write.blobs := by
  rw [TxnWrite.blobs, framed_cons, ← TxnWriteKind.encode_isSome_iff_framed, TxnWrite.encode]
  cases encodeBytes write.key with
  | none => simp
  | some key => cases write.kind.encode <;> simp

namespace Mutation

/-- Every blob of a mutation. -/
def blobs : Mutation → List Bytes
  | putBytes key value | putBytesWithExpiry key value _ => [key, value]
  | spliceBytes key _ patch => [key, patch]
  | streamAppend key partition payload => [key, partition, payload]
  | txnPrepare _ _ key _ write _ => key :: write.blobs
  | txnFinalize _ key _ write _ => key :: write.blobs
  | txnCommitLocal _ writes => writes.flatMap TxnWrite.blobs
  | delete key | counterAdd key _ | setExpiry key _ | replaceChunkedRoot key _ _
  | replaceFabricRoot key _ _ _ | replaceChunkedRootWithExpiry key _ _ _
  | replaceFabricRootWithExpiry key _ _ _ _ | commutativeAdd key _ | boundedCreate key _ _
  | boundedAdd key _ | escrowSetShare key _ _ | semaphoreCreate key _
  | semaphoreAcquire key _ _ _ | semaphoreRelease key _ | leaseAcquire key _ _ _
  | leaseRenew key _ _ _ | leaseRelease key _ _ | streamCreate key _ _ | streamTrim key _ => [key]

/-- What admission lets through. -/
structure Admissible (mutation : Mutation) : Prop where
  framed : Framed mutation.blobs
  counted : mutation.WellCounted

theorem encode_isSome_of_framed (h : Framed mutation.blobs) :
    ∃ bytes, mutation.encode = some bytes := by
  cases mutation
  case txnCommitLocal txn writes =>
    have hwrites : (encodeEach TxnWrite.encode writes).isSome = true := by
      refine encodeEach_isSome_iff.mpr fun write hmem ↦ TxnWrite.encode_isSome_iff.mpr ?_
      exact fun blob hblob ↦ h blob (List.mem_flatMap.mpr ⟨write, hmem, hblob⟩)
    obtain ⟨bytes, hbytes⟩ := Option.isSome_iff_exists.mp hwrites
    simp [encode, encodeTxnCommitLocal, hbytes]
  -- Each blob of the others can be written, and the rest has a fixed width.
  all_goals
    simp only [blobs, TxnWrite.blobs, framed_cons, ← TxnWriteKind.encode_isSome_iff_framed,
      Option.isSome_iff_exists] at h
    casesm* _ ∧ _, ∃ _, _
    simp [encode, encodeKeyed, encodeKeyDelta, encodeChunkedRoot, encodeFabricRoot,
      encodeLeaseGrant, encodeTxnPrepare, encodeTxnFinalize, TxnWrite.encode, *]

end Mutation

end Kivi.State
