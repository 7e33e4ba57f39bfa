import Kivi.State.Encoding
import Kivi.State.Operation

/-!
# Canonical bytes of writes and outcomes

The encodings of guarded writes, of errors and results, and of the durable outcomes that sessions
retain. A result is read back from its bytes (`OperationResult.reads_decode`) exactly when the
lists it carries stay within the bounds of the decoder: nothing else is ever accepted
(`OperationResult.accepts_decode`).
-/

namespace Kivi.State

open Library Library.Bytes Library.Codec.Decoder

/-- Keys one transaction may touch. -/
def maxTxnKeys : Nat := 256

/-! ### Guarded writes -/

def TxnExpect.encode : TxnExpect → Bytes
  | .any => [0]
  | .absent => [1]
  | .version required => 2 :: required.encode

def TxnExpect.decode : Decode TxnExpect := do
  match ← decodeU8 with
  | 0 => return .any
  | 1 => return .absent
  | 2 => return .version (← ObjectVersion.decode)
  | other => fail (.invalidTag "txn-expect" other)

@[simp] theorem TxnExpect.decode_append (expect : TxnExpect) (rest : Bytes) :
    TxnExpect.decode (expect.encode ++ rest) = .ok (expect, rest) := by
  cases expect <;> simp [decode, encode]

def TxnWriteKind.encode : TxnWriteKind → Option Bytes
  | .put value => (encodeBytes value).map (1 :: ·)
  | .delete => some [2]
  | .counterAdd delta => some (3 :: leI64 delta)
  | .putChunked manifest logicalLen => some (4 :: (manifest.bytes ++ (leU64 logicalLen).bytes))
  | .putFabric fabricId logicalLen version =>
    some (8 :: ((leU64 fabricId).bytes ++ (leU64 logicalLen).bytes ++ (leU64 version).bytes))
  | .commutativeAdd delta => some (5 :: leI64 delta)
  | .boundedAdd delta => some (6 :: leI64 delta)
  | .escrowSetShare min max => some (7 :: (leI64 min ++ leI64 max))

def TxnWriteKind.decode : Decode TxnWriteKind := do
  match ← decodeU8 with
  | 1 => return .put (← decodeByteVec)
  | 2 => return .delete
  | 3 => return .counterAdd (← decodeI64)
  | 4 => return .putChunked (← decodeArray 32) (← decodeU64)
  | 8 => return .putFabric (← decodeU64) (← decodeU64) (← decodeU64)
  | 5 => return .commutativeAdd (← decodeI64)
  | 6 => return .boundedAdd (← decodeI64)
  | 7 => return .escrowSetShare (← decodeI64) (← decodeI64)
  | other => fail (.invalidTag "txn-write" other)

theorem TxnWriteKind.reads_decode {kind : TxnWriteKind} {bytes : Bytes}
    (h : kind.encode = some bytes) : Reads decode bytes kind := by
  intro rest
  cases kind with
  | put value =>
    obtain ⟨encoded, hencoded, rfl⟩ := Option.map_eq_some_iff.mp h
    simp [decode, reads_decodeByteVec hencoded _]
  | _ =>
    cases h
    simp [decode]

theorem TxnWriteKind.encode_isSome_iff {kind : TxnWriteKind} :
    kind.encode.isSome = true ↔ ∀ value, kind = .put value → value.length ≤ maxFrameBytes := by
  cases kind with
  | put value => simp [encode, ← encodeBytes_isSome_iff]
  | _ => simp [encode]

/-! ### Errors -/

def OpError.encode : OpError → Bytes
  | .wrongType expected found => 1 :: (expected.encode ++ found.encode)
  | .counterOverflow => [2]
  | .staleRangeBase => [3]
  | .txnConflict => [4]
  | .boundedExceeded => [5]
  | .semaphoreExhausted => [6]
  | .leaseConflict => [7]
  | .staleFencing => [8]
  | .streamFull => [9]
  | .notFound => [10]

def OpError.decode : Decode OpError := do
  match ← decodeU8 with
  | 1 => return .wrongType (← ObjectType.decode) (← ObjectType.decode)
  | 2 => return .counterOverflow
  | 3 => return .staleRangeBase
  | 4 => return .txnConflict
  | 5 => return .boundedExceeded
  | 6 => return .semaphoreExhausted
  | 7 => return .leaseConflict
  | 8 => return .staleFencing
  | 9 => return .streamFull
  | 10 => return .notFound
  | other => fail (.invalidTag "op-error" other)

@[simp] theorem OpError.decode_append (error : OpError) (rest : Bytes) :
    OpError.decode (error.encode ++ rest) = .ok (error, rest) := by
  cases error <;> simp [decode, encode]

/-! ### Results -/

namespace OperationResult

/-- A length as a 16-bit word, the top word standing for every longer one. -/
def u16OfLength (length : Nat) : UInt16 :=
  if length < 2 ^ 16 then UInt16.ofNat length else 0xFFFF

def encodeVersion : Option ObjectVersion → Bytes := encodeOption ObjectVersion.encode

def encode : OperationResult → Option Bytes
  | .value none => some [1, 0]
  | .value (some bytes) => (encodeBytes bytes).map (1 :: 1 :: ·)
  | .stored number => some (2 :: number.encode)
  | .deleted existed => some (3 :: encodeBool existed)
  | .exists present => some (4 :: encodeBool present)
  | .counter held => some (5 :: encodeOption leI64 held)
  | .counterUpdated held number => some (6 :: (leI64 held ++ number.encode))
  | .expirySet applied => some (7 :: encodeBool applied)
  | .expiryPersisted removed => some (8 :: encodeBool removed)
  | .expiry deadline => some (9 :: encodeOption Expiry.encode deadline)
  | .chunkedValue manifest logicalLen => some (10 :: (manifest.bytes ++ (leU64 logicalLen).bytes))
  | .fabricValue fabricId logicalLen tag =>
    some (33 :: ((leU64 fabricId).bytes ++ (leU64 logicalLen).bytes ++ (leU64 tag).bytes))
  | .length size => some (11 :: encodeOption (fun size ↦ (leU64 size).bytes) size)
  | .version number => some (16 :: encodeVersion number)
  | .conditionalSet applied number => some (12 :: (encodeBool applied ++ encodeVersion number))
  | .txnPrepared => some [13]
  | .txnConflict => some [14]
  | .txnFinalized applied number => some (15 :: (encodeBool applied ++ encodeVersion number))
  | .commutativeApplied => some [17]
  | .commutativeValue held => some (18 :: encodeOption leI64 held)
  | .boundedUpdated held number => some (19 :: (leI64 held ++ number.encode))
  | .boundedValue held capacity share =>
    some (20 :: (encodeOption leI64 held ++
      encodeOption (fun capacity ↦ (leU64 capacity).bytes) capacity ++
      encodeOption (fun share ↦ leI64 share.1 ++ leI64 share.2) share))
  | .semaphoreAcquired => some [21]
  | .semaphoreReleased released => some (22 :: encodeBool released)
  | .semaphoreLoad outstanding capacity =>
    some (23 :: ((leU64 outstanding).bytes ++ (leU64 capacity).bytes))
  | .leaseAcquired fencing expiresAt => some (24 :: (fencing.encode ++ leI64 expiresAt))
  | .leaseRenewed fencing expiresAt => some (25 :: (fencing.encode ++ leI64 expiresAt))
  | .leaseReleased released => some (26 :: encodeBool released)
  | .leaseInfo holder nextFencing =>
    some (27 :: (encodeOption LeaseHolder.encode holder ++ nextFencing.encode))
  | .streamCreated => some [28]
  | .streamAppended offset => some (29 :: (leU64 offset).bytes)
  | .streamEntries entries nextOffset =>
    (encodeEach StreamEntry.encode entries).map fun encoded ↦
      30 :: (leU32 (u32OfLength entries.length) ++ encoded ++ (leU64 nextOffset).bytes)
  | .streamTrimmed removed => some (31 :: (leU64 removed).bytes)
  | .txnLocalCommitted versions =>
    some (32 :: (leBytes 2 (u16OfLength versions.length).toNat ++ versions.flatMap encodeVersion))

def decodeVersion : Decode (Option ObjectVersion) := decodeOption ObjectVersion.decode

/-- What follows the tag of a result. -/
def decodeTagged : UInt8 → Decode OperationResult
  | 1 => do return .value (← decodeOption decodeByteVec)
  | 2 => do return .stored (← ObjectVersion.decode)
  | 3 => do return .deleted (← decodeBool)
  | 4 => do return .exists (← decodeBool)
  | 5 => do return .counter (← decodeOption decodeI64)
  | 6 => do return .counterUpdated (← decodeI64) (← ObjectVersion.decode)
  | 7 => do return .expirySet (← decodeBool)
  | 8 => do return .expiryPersisted (← decodeBool)
  | 9 => do return .expiry (← decodeOption Expiry.decode)
  | 10 => do return .chunkedValue (← decodeArray 32) (← decodeU64)
  | 33 => do return .fabricValue (← decodeU64) (← decodeU64) (← decodeU64)
  | 11 => do return .length (← decodeOption decodeU64)
  | 16 => do return .version (← decodeVersion)
  | 12 => do return .conditionalSet (← decodeBool) (← decodeVersion)
  | 13 => do return .txnPrepared
  | 14 => do return .txnConflict
  | 15 => do return .txnFinalized (← decodeBool) (← decodeVersion)
  | 17 => do return .commutativeApplied
  | 18 => do return .commutativeValue (← decodeOption decodeI64)
  | 19 => do return .boundedUpdated (← decodeI64) (← ObjectVersion.decode)
  | 20 => do
    let share : Decode (Int64 × Int64) := do return (← decodeI64, ← decodeI64)
    return .boundedValue (← decodeOption decodeI64) (← decodeOption decodeU64)
      (← decodeOption share)
  | 21 => do return .semaphoreAcquired
  | 22 => do return .semaphoreReleased (← decodeBool)
  | 23 => do return .semaphoreLoad (← decodeU64) (← decodeU64)
  | 24 => do return .leaseAcquired (← FencingToken.decode) (← decodeI64)
  | 25 => do return .leaseRenewed (← FencingToken.decode) (← decodeI64)
  | 26 => do return .leaseReleased (← decodeBool)
  | 27 => do return .leaseInfo (← decodeOption LeaseHolder.decode) (← FencingToken.decode)
  | 28 => do return .streamCreated
  | 29 => do return .streamAppended (← decodeU64)
  | 30 => do
    let count ← decodeU32
    if maxStreamShardEntries + 1 < count.toNat then fail (.invalidTag "operation-result" 30)
    else return .streamEntries (← StreamEntry.decode.many count.toNat) (← decodeU64)
  | 31 => do return .streamTrimmed (← decodeU64)
  | 32 => do
    let count ← decodeU16
    if maxTxnKeys < count.toNat then fail (.invalidTag "operation-result" 32)
    else return .txnLocalCommitted (← decodeVersion.many count.toNat)
  | other => fail (.invalidTag "operation-result" other)

def decode : Decode OperationResult := do decodeTagged (← decodeU8)

/-- The lists of the result are within the bounds of the decoder. -/
def Bounded : OperationResult → Prop
  | .streamEntries entries _ => entries.length ≤ maxStreamShardEntries + 1
  | .txnLocalCommitted versions => versions.length ≤ maxTxnKeys
  | _ => True

@[simp] theorem decodeVersion_append (version : Option ObjectVersion) (rest : Bytes) :
    decodeVersion (encodeVersion version ++ rest) = .ok (version, rest) :=
  decodeOption_append rest (fun version rest ↦ version.decode_append rest) version

theorem reads_versions (versions : List (Option ObjectVersion)) :
    Reads (decodeVersion.many versions.length) (versions.flatMap encodeVersion) versions := by
  refine Reads.many (fun version _ bytes hbytes rest ↦ ?_) (encodeEach_some encodeVersion versions)
  cases hbytes
  exact decodeVersion_append version rest

theorem decode_cons (tag : UInt8) (rest : Bytes) :
    decode (tag :: rest) = decodeTagged tag rest := rfl

/-- A written outcome within its bounds is read back. -/
theorem reads_decode {result : OperationResult} {bytes : Bytes}
    (h : result.encode = some bytes) (hbounded : result.Bounded) : Reads decode bytes result := by
  intro rest
  cases result with
  | value held =>
    cases held with
    | none =>
      cases h
      rw [List.cons_append, decode_cons, decodeTagged]
      simp [decodeOption, decodeBool]
    | some blob =>
      obtain ⟨encoded, hencoded, rfl⟩ := Option.map_eq_some_iff.mp h
      rw [List.cons_append, decode_cons, decodeTagged]
      simp [decodeOption, decodeBool, reads_decodeByteVec hencoded _]
  | streamEntries entries nextOffset =>
    obtain ⟨encoded, hencoded, rfl⟩ := Option.map_eq_some_iff.mp h
    have hlength : entries.length ≤ maxStreamShardEntries + 1 := hbounded
    have hcount : (u32OfLength entries.length).toNat = entries.length :=
      toNat_u32OfLength (lt_of_le_of_lt hlength (by decide))
    have hfits : ¬maxStreamShardEntries + 1 < entries.length := Nat.not_lt.mpr hlength
    have hread : Reads (StreamEntry.decode.many entries.length) encoded entries :=
      Reads.many (fun _ _ _ hentry ↦ StreamEntry.reads_decode hentry) hencoded
    rw [List.cons_append, decode_cons, decodeTagged]
    simp [hcount, hfits, hread _]
  | txnLocalCommitted versions =>
    cases h
    have hlength : versions.length ≤ maxTxnKeys := hbounded
    have hcount : (u16OfLength versions.length).toNat = versions.length := by
      rw [u16OfLength, if_pos (lt_of_le_of_lt hlength (by decide))]
      exact UInt16.toNat_ofNat_of_lt' (lt_of_le_of_lt hlength (by decide))
    have hfits : ¬maxTxnKeys < versions.length := Nat.not_lt.mpr hlength
    have hread := decodeU16_append (versions.flatMap encodeVersion ++ rest)
      (u16OfLength versions.length)
    rw [hcount] at hread
    rw [List.cons_append, decode_cons, decodeTagged]
    simp [hcount, hfits, hread, reads_versions versions rest]
  | _ =>
    cases h
    rw [List.cons_append, decode_cons, decodeTagged]
    simp [decodeOption_append, FencingToken.encode]

/-- The decoder only accepts results within its bounds. -/
theorem accepts_decode : Accepts decode Bounded := by
  refine accepts_bind (accepts_trivial _) fun tag _ ↦ ?_
  unfold decodeTagged
  split
  case h_31 =>
    refine accepts_bind (accepts_trivial _) fun count _ ↦ ?_
    split_ifs with hcount
    · exact accepts_fail _
    · refine accepts_bind ((accepts_trivial _).many _) fun entries hentries ↦ ?_
      exact accepts_bind (accepts_trivial _) fun _ _ ↦
        accepts_pure (hentries.1.le.trans (Nat.not_lt.mp hcount))
  case h_33 =>
    refine accepts_bind (accepts_trivial _) fun count _ ↦ ?_
    split_ifs with hcount
    · exact accepts_fail _
    · exact accepts_bind ((accepts_trivial _).many _) fun versions hversions ↦
        accepts_pure (hversions.1.le.trans (Nat.not_lt.mp hcount))
  case h_34 => exact accepts_fail _
  -- The other results carry no list: whatever is read fits.
  all_goals
    repeat refine accepts_bind (accepts_trivial _) fun _ _ ↦ ?_
    exact accepts_pure trivial

/-- The result carries neither a blob nor a list. -/
def isScalar : OperationResult → Bool
  | .value _ | .streamEntries _ _ | .txnLocalCommitted _ => false
  | _ => true

/-- The results that carry blobs are answers of reads. -/
def carriesBlobs : OperationResult → Bool
  | .value _ | .streamEntries _ _ => true
  | _ => false

@[simp] theorem length_encode_version (version : ObjectVersion) : version.encode.length = 8 :=
  FixedBytes.length_eq _

end OperationResult

section

variable {mutation : Mutation} {answer : ApplyOutcome} {persists : Bool} {result : OperationResult}
  (h : outcomeFor mutation answer persists = some result)

include h

/-- The answer of a mutation is a scalar, but for the versions of a local commit. -/
theorem outcomeFor_isScalar :
    result.isScalar = true ∨ ∃ txn writes versions,
      mutation = .txnCommitLocal txn writes ∧ result = .txnLocalCommitted versions := by
  unfold outcomeFor at h
  split at h
  next semantic hsemantic =>
    cases h
    unfold outcomeForSemantic at hsemantic
    split at hsemantic <;> cases hsemantic
    case h_14 txn writes versions => exact Or.inr ⟨txn, writes, versions, rfl, rfl⟩
    all_goals exact Or.inl rfl
  next =>
    left
    unfold outcomeForLegacy at h
    split at h <;> cases h <;> first | rfl | (split <;> rfl)

theorem outcomeFor_carriesBlobs : result.carriesBlobs = false := by
  rcases outcomeFor_isScalar h with hscalar | ⟨_, _, versions, -, rfl⟩
  · cases result <;> first | rfl | cases hscalar
  · rfl

end

/-! ### Durable outcomes -/

namespace DurableOutcome

def encode : DurableOutcome → Option Bytes
  | .completed result => result.encode.map (1 :: ·)
  | .rejected error => some (2 :: error.encode)
  | .versionExhausted => some [3]

def decode : Decode DurableOutcome := do
  match ← decodeU8 with
  | 1 => return .completed (← OperationResult.decode)
  | 2 => return .rejected (← OpError.decode)
  | 3 => return .versionExhausted
  | other => fail (.invalidTag "durable-outcome" other)

def Bounded : DurableOutcome → Prop
  | .completed result => result.Bounded
  | _ => True

theorem reads_decode {outcome : DurableOutcome} {bytes : Bytes}
    (h : outcome.encode = some bytes) (hbounded : outcome.Bounded) :
    Reads decode bytes outcome := by
  intro rest
  cases outcome with
  | completed result =>
    obtain ⟨encoded, hencoded, rfl⟩ := Option.map_eq_some_iff.mp h
    simp [decode, OperationResult.reads_decode hencoded hbounded rest]
  | rejected error =>
    cases h
    simp [decode]
  | versionExhausted =>
    cases h
    simp [decode]

theorem accepts_decode : Accepts decode Bounded := by
  refine accepts_bind (accepts_trivial _) fun tag _ ↦ ?_
  split
  · exact accepts_bind OperationResult.accepts_decode fun _ hresult ↦ accepts_pure hresult
  · exact accepts_bind (accepts_trivial _) fun _ _ ↦ accepts_pure trivial
  · exact accepts_pure trivial
  · exact accepts_fail _

end DurableOutcome

end Kivi.State
