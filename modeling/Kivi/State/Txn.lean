import Kivi.State.Object

/-!
# Transaction data

Identities, guarded writes, decision records and reservations of cross-tablet transactions. A
decision record has a canonical byte form; `TxnRecord.decode_encode` reads back every record
whose participant list is within bounds.
-/

namespace Kivi.State

open Library Library.CheckedArith Library.Bytes

abbrev TxnId := FixedBytes 16

/-- The digest of a transaction's effective write set. -/
abbrev Digest := FixedBytes 32

def maxTxnParticipants : Nat := 32
def maxTxnLifetimeMicros : Int := 60000000
def resolveGraceMicros : Int := 2000000

/-! ### Guarded writes -/

/-- What a write requires of the live object it replaces. -/
inductive TxnExpect where
  | any
  | absent
  | version (version : ObjectVersion)
deriving DecidableEq

inductive TxnWriteKind where
  | put (value : Bytes)
  | putChunked (manifest : ManifestId) (logicalLen : UInt64)
  | putFabric (fabricId : UInt64) (logicalLen : UInt64) (version : UInt64)
  | delete
  | counterAdd (delta : Int64)
  | commutativeAdd (delta : Int64)
  | boundedAdd (delta : Int64)
  | escrowSetShare (min max : Int64)
deriving DecidableEq

/-- The bytes that the writes of one transaction may count for. -/
def maxTxnBytes : Nat := 2 ^ 20

structure TxnWrite where
  key : Key
  kind : TxnWriteKind
  expect : TxnExpect
deriving DecidableEq

/-- A prepared write holding its key until the transaction is decided. -/
structure TxnIntent where
  id : TxnId
  coordinator : TabletId
  key : Key
  write : TxnWrite
  digest : Digest
  observed : Option ObjectVersion
  preparedAt : WallTimestamp
deriving DecidableEq

inductive TxnError where
  | conflict
  | invalidWrite
  | decisionConflict
deriving DecidableEq

/-! ### Escrow arithmetic -/

/-- The exact width of a share. -/
def shareWidth (share : Int64 × Int64) : Int := share.2.toInt - share.1.toInt

/-- A move must conserve the total width of both shares. -/
def verifyEscrowWidths (donorBefore donorAfter recipientBefore recipientAfter : Int64 × Int64) :
    Except TxnError Unit :=
  if shareWidth donorBefore + shareWidth recipientBefore =
      shareWidth donorAfter + shareWidth recipientAfter then .ok ()
  else .error .invalidWrite

/-- The shares after moving `amount` of the donor's headroom to the recipient. -/
def planEscrowTransfer (donorShare : Int64 × Int64) (donorValue : Int64)
    (recipientShare : Int64 × Int64) (recipientCapacity amount : UInt64) :
    Except TxnError ((Int64 × Int64) × (Int64 × Int64)) :=
  match i64OfU64 amount with
  | none => .error .invalidWrite
  | some amount =>
    if amount ≤ 0 then .error .invalidWrite
    else match checkedSubI64 donorShare.2 amount with
    | none => .error .invalidWrite
    | some donorNewMax =>
      if donorNewMax < donorShare.1 ∨ donorNewMax < donorValue then .error .conflict
      else match checkedAddI64 recipientShare.2 amount with
      | none => .error .invalidWrite
      | some recipientNewMax =>
        match i64OfU64 recipientCapacity with
        | none => .error .invalidWrite
        | some capacity =>
          if capacity < recipientNewMax then .error .invalidWrite
          else .ok ((donorShare.1, donorNewMax), (recipientShare.1, recipientNewMax))

/-- The plan moves width from one share to the other. -/
theorem planEscrowTransfer_conserves {donor recipient : Int64 × Int64} {value : Int64}
    {capacity amount : UInt64} {moves : (Int64 × Int64) × (Int64 × Int64)}
    (h : planEscrowTransfer donor value recipient capacity amount = .ok moves) :
    shareWidth moves.1 + shareWidth moves.2 = shareWidth donor + shareWidth recipient := by
  unfold planEscrowTransfer at h
  split at h
  · cases h
  split at h
  · cases h
  split at h
  · cases h
  next donorNewMax hdonor =>
  split at h
  · cases h
  split at h
  · cases h
  next recipientNewMax hrecipient =>
  split at h
  · cases h
  split at h
  · cases h
  cases h
  have hsub := i64OfInt_eq_some_iff.mp hdonor
  have hadd := i64OfInt_eq_some_iff.mp hrecipient
  simp only [shareWidth]
  omega

/-! ### Decision records -/

inductive TxnState where
  | begun
  | committed
  | aborted
deriving DecidableEq

namespace TxnState

/-- Whether the record carries a final decision. -/
def decided : TxnState → Bool
  | begun => false
  | committed | aborted => true

def tag : TxnState → UInt8
  | begun => 0
  | committed => 1
  | aborted => 2

def ofTag (byte : UInt8) : Option TxnState :=
  if byte = 0 then some begun
  else if byte = 1 then some committed
  else if byte = 2 then some aborted
  else none

@[simp] theorem ofTag_tag (state : TxnState) : ofTag state.tag = some state := by
  cases state <;> rfl

end TxnState

/-- The coordinator's durable record of one transaction. -/
structure TxnRecord where
  id : TxnId
  coordinator : TabletId
  participants : List TabletId
  state : TxnState
  dirVersion : UInt64
  digest : Digest
deriving DecidableEq

inductive TxnDecodeError where
  | truncated
  | badVersion
  | badState
  | oversized
deriving DecidableEq

namespace TxnRecord

def recordVersion : Nat := 1

/-- The canonical bytes of a record. -/
def encode (record : TxnRecord) : Bytes :=
  leBytes 2 recordVersion ++ record.id.bytes ++ (leU64 record.coordinator).bytes ++
    [record.state.tag] ++ (leU64 record.dirVersion).bytes ++
    leBytes 4 (min record.participants.length (2 ^ 32 - 1)) ++
    record.participants.flatMap (fun participant ↦ (leU64 participant).bytes) ++
    record.digest.bytes

/-- Read `count` words, then hand back what follows. -/
def takeParticipants : Nat → Bytes → Option (List TabletId × Bytes)
  | 0, input => some ([], input)
  | count + 1, input => do
    let (participant, rest) ← takeU64 input
    let (participants, rest) ← takeParticipants count rest
    return (participant :: participants, rest)

/-- A fixed-width field, or the truncation error. -/
def field {α : Type} (part : Option α) : Except TxnDecodeError α :=
  match part with
  | some value => .ok value
  | none => .error .truncated

/-- Read one record back; checks run in the order of the source. -/
def decode (input : Bytes) : Except TxnDecodeError TxnRecord :=
  if input.length < 2 + 16 + 8 + 1 + 8 + 4 + 32 then .error .truncated
  else do
    let (version, rest) ← field (FixedBytes.take 2 input)
    if ofLeBytes version.bytes ≠ recordVersion then .error .badVersion
    else do
      let (id, rest) ← field (FixedBytes.take 16 rest)
      let (coordinator, rest) ← field (takeU64 rest)
      let (tag, rest) ← field (takeByte rest)
      match TxnState.ofTag tag with
      | none => .error .badState
      | some state =>
        let (dirVersion, rest) ← field (takeU64 rest)
        let (countBytes, rest) ← field (FixedBytes.take 4 rest)
        let count := ofLeBytes countBytes.bytes
        if maxTxnParticipants + 1 < count then .error .oversized
        else if input.length ≠ 39 + count * 8 + 32 then .error .truncated
        else do
          let (participants, rest) ← field (takeParticipants count rest)
          let (digest, _) ← field (FixedBytes.take 32 rest)
          return ⟨id, coordinator, participants, state, dirVersion, digest⟩

@[simp] theorem field_some {α : Type} (value : α) : field (some value) = .ok value := rfl

/-- The participants' words, one after the other. -/
def participantBytes (participants : List TabletId) : Bytes :=
  participants.flatMap fun participant ↦ (leU64 participant).bytes

theorem length_participantBytes (participants : List TabletId) :
    (participantBytes participants).length = participants.length * 8 := by
  induction participants with
  | nil => rfl
  | cons participant rest ih =>
    have hcons : participantBytes (participant :: rest) =
        (leU64 participant).bytes ++ participantBytes rest := rfl
    rw [hcons, List.length_append, ih, (leU64 participant).length_eq, List.length_cons]
    omega

theorem takeParticipants_append (participants : List TabletId) (rest : Bytes) :
    takeParticipants participants.length (participantBytes participants ++ rest) =
      some (participants, rest) := by
  induction participants with
  | nil => rfl
  | cons participant others ih =>
    have hcons : participantBytes (participant :: others) ++ rest =
        (leU64 participant).bytes ++ (participantBytes others ++ rest) := by
      simp [participantBytes]
    rw [hcons, List.length_cons, takeParticipants, takeU64_append]
    simp [ih]

variable (record : TxnRecord)

/-- The record's bytes, associated to the right as the decoder consumes them. -/
theorem encode_eq :
    record.encode = leBytes 2 recordVersion ++ (record.id.bytes ++
      ((leU64 record.coordinator).bytes ++ ([record.state.tag] ++
        ((leU64 record.dirVersion).bytes ++
          (leBytes 4 (min record.participants.length (2 ^ 32 - 1)) ++
            (participantBytes record.participants ++ record.digest.bytes)))))) := by
  simp only [encode, participantBytes, List.append_assoc]

theorem length_encode :
    record.encode.length = 39 + record.participants.length * 8 + 32 := by
  rw [encode_eq]
  simp only [List.length_append, length_leBytes, record.id.length_eq, (leU64 _).length_eq,
    List.length_singleton, length_participantBytes, record.digest.length_eq]
  omega

/-- Every record within the participant bound survives its byte form. -/
theorem decode_encode
    (hbound : record.participants.length ≤ maxTxnParticipants + 1) :
    decode record.encode = .ok record := by
  have hlen := length_encode record
  have hmin : min record.participants.length (2 ^ 32 - 1) = record.participants.length := by
    have : maxTxnParticipants + 1 = 33 := rfl
    omega
  have hcount : ofLeBytes (leBytes 4 record.participants.length) = record.participants.length := by
    apply ofLeBytes_leBytes
    have : maxTxnParticipants + 1 = 33 := rfl
    omega
  have hversion : ofLeBytes (leBytes 2 recordVersion) = recordVersion := rfl
  have hshort : ¬ 39 + record.participants.length * 8 + 32 < 2 + 16 + 8 + 1 + 8 + 4 + 32 := by
    omega
  have hover : ¬ maxTxnParticipants + 1 < record.participants.length := by omega
  have hdigest : FixedBytes.take 32 record.digest.bytes = some (record.digest, []) := by
    simpa using FixedBytes.take_append record.digest []
  unfold decode
  simp only [hlen]
  rw [if_neg hshort, encode_eq, hmin]
  simp [FixedBytes.take_append_of_length, takeParticipants_append, hdigest, hversion, hcount,
    hover, bind, Except.bind, pure, Except.pure]

/-- A record with more participants than the bound is refused. -/
theorem decode_encode_of_oversized
    (hbound : maxTxnParticipants + 1 < record.participants.length) :
    decode record.encode = .error .oversized := by
  have hlen := length_encode record
  have hcount : ofLeBytes (leBytes 4 (min record.participants.length (2 ^ 32 - 1))) =
      min record.participants.length (2 ^ 32 - 1) := by
    apply ofLeBytes_leBytes
    omega
  have hversion : ofLeBytes (leBytes 2 recordVersion) = recordVersion := rfl
  have hshort : ¬ 39 + record.participants.length * 8 + 32 < 2 + 16 + 8 + 1 + 8 + 4 + 32 := by
    omega
  have hover : maxTxnParticipants + 1 < min record.participants.length (2 ^ 32 - 1) := by
    have : maxTxnParticipants + 1 = 33 := rfl
    omega
  unfold decode
  simp only [hlen]
  rw [if_neg hshort, encode_eq]
  simp only [FixedBytes.take_append, FixedBytes.take_append_of_length, length_leBytes, field_some,
    takeU64_append, takeByte_cons, List.singleton_append, TxnState.ofTag_tag, hversion, hcount,
    bind, Except.bind, if_pos hover, ne_eq, not_true_eq_false, if_false]

/-- What a record's bytes decode to is the record. -/
theorem eq_of_decode_encode {record found : TxnRecord} (h : decode record.encode = .ok found) :
    found = record := by
  rcases Nat.lt_or_ge (maxTxnParticipants + 1) record.participants.length with hover | hbound
  · rw [decode_encode_of_oversized record hover] at h
    cases h
  · rw [decode_encode record hbound, Except.ok.injEq] at h
    exact h.symm

/-- Reading back what was written gives the record or, beyond the bound, the size error: nothing
is cut off, and no other record is read. -/
theorem record_read_back (record : TxnRecord) :
    decode record.encode =
      if record.participants.length ≤ maxTxnParticipants + 1 then .ok record
      else .error .oversized := by
  split_ifs with hbound
  · exact decode_encode record hbound
  · exact decode_encode_of_oversized record (Nat.lt_of_not_le hbound)

end TxnRecord

end Kivi.State
