import Kivi.State.MutationEncoding
import Kivi.State.Prediction
import Kivi.State.WireBounds

/-!
# The outcomes a store can produce, and their bytes

A durable outcome is retained by sessions and written to logs and images, so it has to be read
back from its bytes. `DurableOutcome.RoundTrips` says that it is written, in exactly `encodedLen`
bytes, and read back in front of anything. What stands against it are the two bounds of the
codec: no blob above `maxFrameBytes` is written, and no list above the bound of its decoder is
read (`DurableOutcome.roundTrips_completed_iff`).

The rest of the module compares these bounds with what `prepareDurable`, and `apply` followed by
`outcomeFor`, can answer. Stream reads stay inside them on every reachable store. Reads of inline
values are bounded by the value alone, which no apply bounds, and the versions of a local commit
by the number of its writes, which neither preparation nor application counts.
-/

namespace Kivi.State

open Library Library.Bytes Library.Codec.Decoder
open DurableOutcome

/-! ### Lengths -/

def OpError.encodedLen : OpError → Nat
  | .wrongType _ _ => 1 + 1 + 1
  | .counterOverflow | .staleRangeBase | .txnConflict | .boundedExceeded | .semaphoreExhausted
  | .leaseConflict | .staleFencing | .streamFull | .notFound => 1

def StreamEntry.encodedLen (entry : StreamEntry) : Nat :=
  8 + (4 + entry.partition.length) + (4 + entry.payload.length)

def OperationResult.encodedLen : OperationResult → Nat
  | .value held => 1 + 1 + held.elim 0 (4 + ·.length)
  | .chunkedValue _ _ => 1 + 32 + 8
  | .fabricValue _ _ _ => 1 + 8 + 8 + 8
  | .stored _ | .streamAppended _ | .streamTrimmed _ => 1 + 8
  | .deleted _ | .exists _ | .expirySet _ | .expiryPersisted _ | .semaphoreReleased _
  | .leaseReleased _ => 1 + 1
  | .counter held | .commutativeValue held => 1 + 1 + held.isSome.toNat * 8
  | .counterUpdated _ _ | .boundedUpdated _ _ | .semaphoreLoad _ _ => 1 + 8 + 8
  | .expiry deadline => 1 + 1 + deadline.elim 0 Expiry.encodedLen
  | .length size => 1 + 1 + size.isSome.toNat * 8
  | .version number => 1 + 1 + number.isSome.toNat * 8
  | .conditionalSet _ number => 1 + 1 + 1 + number.elim 0 fun _ ↦ 8
  | .txnPrepared | .txnConflict | .commutativeApplied | .semaphoreAcquired | .streamCreated => 1
  | .txnFinalized _ number => 1 + 1 + 1 + number.elim 0 fun _ ↦ 8
  | .boundedValue held capacity share =>
    1 + 1 + held.isSome.toNat * 8 + 1 + capacity.isSome.toNat * 8 + 1 + share.isSome.toNat * 16
  | .leaseAcquired _ _ | .leaseRenewed _ _ => 1 + 8 + 8
  | .leaseInfo holder _ => 1 + 1 + holder.elim 0 (fun _ ↦ 8 + 8 + 8) + 8
  | .streamEntries entries _ => 1 + 4 + 8 + (entries.map StreamEntry.encodedLen).sum
  | .txnLocalCommitted versions =>
    1 + 2 + (versions.map fun number ↦ 1 + number.isSome.toNat * 8).sum

def DurableOutcome.encodedLen : DurableOutcome → Nat
  | .completed result => 1 + result.encodedLen
  | .rejected error => 1 + error.encodedLen
  | .versionExhausted => 1

theorem ObjectType.length_encode (objectType : ObjectType) : objectType.encode.length = 1 := by
  cases objectType <;> rfl

theorem OpError.length_encode (error : OpError) : error.encode.length = error.encodedLen := by
  cases error with
  | wrongType expected found => simp [encode, encodedLen, ObjectType.length_encode]
  | _ => rfl

variable {bytes : Bytes}

theorem StreamEntry.length_encode {entry : StreamEntry} (h : entry.encode = some bytes) :
    bytes.length = entry.encodedLen := by
  obtain ⟨partition, hpartition, h⟩ := Option.bind_eq_some_iff.mp h
  obtain ⟨payload, hpayload, h⟩ := Option.bind_eq_some_iff.mp h
  cases h
  simp only [List.length_append, FixedBytes.length_eq, length_encodeBytes hpartition,
    length_encodeBytes hpayload, encodedLen]

/-- Both blobs of an entry within the bounds of a shard are far below the frame bound. -/
theorem StreamEntry.encodeEach_isSome {entries : List StreamEntry}
    (hsize : ∀ entry ∈ entries, entry.partition.length ≤ maxStreamEntryBytes ∧
      entry.payload.length ≤ maxStreamEntryBytes) :
    (encodeEach StreamEntry.encode entries).isSome = true := by
  have hbound : maxStreamEntryBytes ≤ maxFrameBytes := by decide
  refine encodeEach_isSome_iff.mpr fun entry hmem ↦ ?_
  obtain ⟨hpartition, hpayload⟩ := hsize entry hmem
  simp [StreamEntry.encode, encodeBytes, hpartition.trans hbound, hpayload.trans hbound]

theorem length_encodeOption {α : Type} {encode : α → Bytes} {width : Nat}
    (h : ∀ value, (encode value).length = width) (value : Option α) :
    (encodeOption encode value).length = 1 + value.isSome.toNat * width := by
  cases value with
  | none => simp [encodeOption]
  | some value => simp [encodeOption, h, Nat.add_comm]

variable {result : OperationResult}

namespace OperationResult

theorem length_encodeVersion (number : Option ObjectVersion) :
    (encodeVersion number).length = 1 + number.isSome.toNat * 8 :=
  length_encodeOption length_encode_version number

theorem length_encode_versions (versions : List (Option ObjectVersion)) :
    (versions.flatMap encodeVersion).length =
      (versions.map fun number ↦ 1 + number.isSome.toNat * 8).sum := by
  refine length_encodeEach (fun number bytes hbytes ↦ ?_) (encodeEach_some encodeVersion versions)
  cases hbytes
  exact length_encodeVersion number

/-- `encodedLen` is the length of what is written. -/
theorem length_encode (h : result.encode = some bytes) : bytes.length = result.encodedLen := by
  have hword (word : UInt64) : (leU64 word).bytes.length = 8 := FixedBytes.length_eq _
  have hpair (pair : Int64 × Int64) : (leI64 pair.1 ++ leI64 pair.2).length = 16 := by simp
  cases result with
  | value held =>
    cases held with
    | none =>
      cases h
      rfl
    | some blob =>
      obtain ⟨encoded, hencoded, rfl⟩ := Option.map_eq_some_iff.mp h
      simp only [List.length_cons, length_encodeBytes hencoded, encodedLen, Option.elim_some]
      omega
  | streamEntries entries nextOffset =>
    obtain ⟨encoded, hencoded, rfl⟩ := Option.map_eq_some_iff.mp h
    have hentries : encoded.length = (entries.map StreamEntry.encodedLen).sum :=
      length_encodeEach (fun _ _ ↦ StreamEntry.length_encode) hencoded
    simp only [List.length_cons, List.length_append, length_leU32, hword, hentries, encodedLen]
    omega
  | txnLocalCommitted versions =>
    cases h
    simp only [List.length_cons, List.length_append, length_leBytes, length_encode_versions,
      encodedLen]
    omega
  | expiry deadline =>
    cases h
    cases deadline with
    | none => rfl
    | some deadline =>
      simp only [List.length_cons, encodeOption, deadline.length_encode, encodedLen,
        Option.elim_some]
      omega
  | conditionalSet applied number | txnFinalized applied number =>
    cases h
    cases number <;> simp [length_encodeVersion, encodedLen]
  | leaseInfo holder nextFencing =>
    cases h
    cases holder <;>
      simp [encodeOption, LeaseHolder.encode, FencingToken.encode, hword, encodedLen]
  | counter | commutativeValue | length | version | boundedValue =>
    cases h
    simp only [List.length_cons, List.length_append, length_encodeVersion,
      length_encodeOption length_leI64, length_encodeOption hword, length_encodeOption hpair,
      encodedLen]
    omega
  | _ =>
    cases h
    simp [FixedBytes.length_eq, FencingToken.encode, encodedLen]

/-- A result without blobs is short if its lists are bounded. -/
theorem encodedLen_le_of_compact (hcompact : result.carriesBlobs = false)
    (hbounded : result.Bounded) : result.encodedLen ≤ 4096 := by
  have hflag (flag : Bool) : flag.toNat ≤ 1 := Bool.toNat_le flag
  cases result with
  | value _ | streamEntries _ _ => cases hcompact
  | txnLocalCommitted versions =>
    have hlength : versions.length ≤ 256 := hbounded
    have hsum := List.sum_le_card_nsmul (versions.map fun number ↦ 1 + number.isSome.toNat * 8) 9
    simp only [List.mem_map, forall_exists_index, and_imp, forall_apply_eq_imp_iff₂,
      List.length_map, smul_eq_mul] at hsum
    have hbound := hsum fun number _ ↦ by grind
    simp only [encodedLen]
    omega
  | expiry deadline => rcases deadline with _ | ⟨_ | _⟩ <;> simp [encodedLen, Expiry.encodedLen]
  | conditionalSet _ number | txnFinalized _ number => cases number <;> simp [encodedLen]
  | leaseInfo holder => cases holder <;> simp [encodedLen]
  | _ =>
    simp only [encodedLen]
    grind

/-- A result without blobs is always written, and in a few bytes if its lists are bounded. -/
theorem encode_of_compact (hcompact : result.carriesBlobs = false) (hbounded : result.Bounded) :
    ∃ bytes, result.encode = some bytes ∧ bytes.length ≤ 4096 := by
  have hsome : result.encode.isSome = true := by
    cases result <;> first | rfl | cases hcompact
  obtain ⟨bytes, hbytes⟩ := Option.isSome_iff_exists.mp hsome
  exact ⟨bytes, hbytes, (length_encode hbytes).trans_le
    (encodedLen_le_of_compact hcompact hbounded)⟩

end OperationResult

theorem DurableOutcome.length_encode {outcome : DurableOutcome} (h : outcome.encode = some bytes) :
    bytes.length = outcome.encodedLen := by
  cases outcome with
  | completed result =>
    obtain ⟨encoded, hencoded, rfl⟩ := Option.map_eq_some_iff.mp h
    simp only [List.length_cons, OperationResult.length_encode hencoded, encodedLen]
    omega
  | rejected error =>
    cases h
    simp only [List.length_cons, error.length_encode, encodedLen]
    omega
  | versionExhausted =>
    cases h
    rfl

/-! ### When an outcome is read back -/

namespace DurableOutcome

/-- The outcome is written, in as many bytes as announced, and read back in front of anything. -/
def RoundTrips (outcome : DurableOutcome) : Prop :=
  ∃ bytes, outcome.encode = some bytes ∧ bytes.length = outcome.encodedLen ∧
    ∀ rest, decode (bytes ++ rest) = .ok (outcome, rest)

theorem roundTrips_iff {outcome : DurableOutcome} :
    outcome.RoundTrips ↔ outcome.encode.isSome = true ∧ outcome.Bounded := by
  constructor
  · rintro ⟨bytes, hbytes, -, hread⟩
    exact ⟨Option.isSome_iff_exists.mpr ⟨bytes, hbytes⟩, accepts_decode _ _ _ (hread [])⟩
  · rintro ⟨hsome, hbounded⟩
    obtain ⟨bytes, hbytes⟩ := Option.isSome_iff_exists.mp hsome
    exact ⟨bytes, hbytes, length_encode hbytes, reads_decode hbytes hbounded⟩

theorem roundTrips_completed_iff :
    (completed result).RoundTrips ↔ result.encode.isSome = true ∧ result.Bounded := by
  rw [roundTrips_iff, encode, Option.isSome_map]
  rfl

theorem roundTrips_rejected (error : OpError) : (rejected error).RoundTrips :=
  roundTrips_iff.mpr ⟨rfl, trivial⟩

theorem roundTrips_versionExhausted : versionExhausted.RoundTrips :=
  roundTrips_iff.mpr ⟨rfl, trivial⟩

theorem roundTrips_value_iff {value : Bytes} :
    (completed (.value (some value))).RoundTrips ↔ value.length ≤ maxFrameBytes := by
  rw [roundTrips_completed_iff, OperationResult.encode, Option.isSome_map,
    encodeBytes_isSome_iff]
  exact and_iff_left trivial

theorem roundTrips_localCommitted_iff {versions : List (Option ObjectVersion)} :
    (completed (.txnLocalCommitted versions)).RoundTrips ↔ versions.length ≤ maxTxnKeys := by
  rw [roundTrips_completed_iff]
  exact and_iff_right rfl

/-- Entries within the bounds of a shard are read back. -/
theorem roundTrips_streamEntries {entries : List StreamEntry} {nextOffset : UInt64}
    (hcount : entries.length ≤ maxStreamShardEntries)
    (hsize : ∀ entry ∈ entries, entry.partition.length ≤ maxStreamEntryBytes ∧
      entry.payload.length ≤ maxStreamEntryBytes) :
    (completed (.streamEntries entries nextOffset)).RoundTrips := by
  rw [roundTrips_completed_iff, OperationResult.encode, Option.isSome_map]
  exact ⟨StreamEntry.encodeEach_isSome hsize, hcount.trans (Nat.le_succ _)⟩

end DurableOutcome

/-- What the outcome answers with carries neither a blob nor a list. -/
def DurableOutcome.isScalar : DurableOutcome → Bool
  | .completed result => result.isScalar
  | .rejected _ | .versionExhausted => true

theorem DurableOutcome.roundTrips_of_isScalar {outcome : DurableOutcome}
    (h : outcome.isScalar = true) : outcome.RoundTrips := by
  cases outcome with
  | completed result =>
    rw [roundTrips_completed_iff]
    cases result <;> first | exact ⟨rfl, trivial⟩ | cases h
  | rejected error => exact roundTrips_rejected error
  | versionExhausted => exact roundTrips_versionExhausted

/-! ### Predicted answers -/

/-- The answer to a prepared operation, once a predicted write has been applied. -/
def StorePrepared.outcome : StorePrepared → DurableOutcome
  | .read result => .completed result
  | .terminal outcome => outcome
  | .write _ expected => .completed expected

/-- The answer to an operation, whether preparing it succeeds or reports an error. -/
def preparedOutcome : Result OpError StorePrepared → Option DurableOutcome
  | .ok prepared => some prepared.outcome
  | .err error => some (.rejected error)
  | .panic => none

namespace ObjectStore

variable {store : ObjectStore} {key : Key} {now : WallTimestamp}

theorem predictWrite_isScalar {mutation : Mutation} {expected : ObjectVersion → OperationResult}
    (h : ∀ version, (expected version).isScalar = true) :
    (store.predictWrite key now mutation expected).outcome.isScalar = true := by
  unfold predictWrite predictVersion
  cases store.nextVersion key now with
  | none => rfl
  | some version => exact h version

theorem predictConditional_isScalar (mutation : Expiry → Mutation) (condition : SetCondition)
    (policy : ExpiryPolicy) :
    (store.predictConditional key now mutation condition policy).outcome.isScalar = true := by
  unfold predictConditional
  dsimp only
  split_ifs
  · rfl
  · exact predictWrite_isScalar fun _ ↦ rfl

theorem predictExpiry_isScalar (expiresAt : Option WallTimestamp) :
    (store.predictExpiry key now expiresAt).outcome.isScalar = true := by
  unfold predictExpiry
  dsimp only
  split_ifs
  · cases expiresAt <;> rfl
  · refine predictWrite_isScalar fun _ ↦ ?_
    cases expiresAt <;> rfl

theorem predictGrant_isScalar (owner ttlMicros : UInt64) (nextFencing : FencingToken)
    (live : Option LeaseHolder) (fresh : Bool) :
    (store.predictGrant key now owner ttlMicros nextFencing live fresh).outcome.isScalar =
      true := by
  unfold predictGrant predictVersion
  dsimp only
  split
  · rfl
  · cases nextFencing.next <;> cases store.nextVersion key now <;> cases fresh <;> rfl

theorem predictFinalizeWrite_isScalar (mutation : Mutation) (kind : TxnWriteKind) :
    (store.predictFinalizeWrite key now mutation kind).outcome.isScalar = true := by
  have happlied : (store.finalizedApplied key now mutation).outcome.isScalar = true :=
    predictWrite_isScalar fun _ ↦ rfl
  have hcounted : ∀ delta expected,
      (store.predictCountedFinalize key now mutation delta expected).outcome.isScalar = true := by
    intro delta expected
    unfold predictCountedFinalize
    dsimp only
    split
    · rfl
    · split
      · exact happlied
      all_goals rfl
  cases kind with
  | delete => rfl
  | put _ | putChunked _ _ | putFabric _ _ _ => exact happlied
  | counterAdd delta | commutativeAdd delta => exact hcounted delta _
  | boundedAdd delta | escrowSetShare min max =>
    simp only [predictFinalizeWrite]
    repeat' split
    all_goals first | rfl | exact happlied

variable {op : Operation}

/-- No ordinary mutating operation answers with a blob or a list. -/
theorem predictOrdinary_isScalar {prepared : StorePrepared}
    (h : store.predictOrdinary now op = .ok prepared) : prepared.outcome.isScalar = true := by
  cases op with
  | setRange key offset patch =>
    simp only [predictOrdinary, predictSetRange] at h
    split at h
    · cases h
      exact predictWrite_isScalar fun _ ↦ rfl
    · split at h <;> cases h
      · exact predictWrite_isScalar fun _ ↦ rfl
      · rfl
  | setConditional | setConditionalChunked | setConditionalFabric =>
    cases h
    exact predictConditional_isScalar _ _ _
  | expireAt | persistExpiry =>
    cases h
    exact predictExpiry_isScalar _
  | leaseAcquire =>
    cases h
    simp only [predictLeaseAcquire]
    repeat' split
    all_goals first | rfl | exact predictGrant_isScalar _ _ _ _ _
  | set | setChunked | setFabric =>
    cases h
    exact predictWrite_isScalar fun _ ↦ rfl
  | _ =>
    -- Every other prediction ends in a rejection, a fixed answer or a predicted write.
    cases h
    try simp only [predictCounterAdd, predictCommutativeAdd, predictBoundedCreate,
      predictBoundedAdd, predictEscrowMove, predictSemaphoreCreate, predictSemaphoreAcquire,
      predictSemaphoreRelease, predictLeaseRenew, predictLeaseRelease, predictStreamCreate,
      predictStreamAppend, predictStreamTrim]
    repeat' split
    all_goals first | rfl | exact predictWrite_isScalar fun _ ↦ rfl

/-- Whether an operation may answer with a blob or a list. -/
def answersAtLength : Operation → Bool
  | .get _ | .getRange _ _ _ | .streamRead _ _ _ | .txnCommitLocal _ _ => true
  | _ => false

theorem prepareRead_isScalar (hop : answersAtLength op = false)
    (h : store.prepareRead now op = some (.ok result)) : result.isScalar = true := by
  cases op with
  | get | getRange | streamRead => cases hop
  | _ =>
    simp only [prepareRead] at h
    repeat' split at h
    all_goals
      cases h
      try rfl

/-! ### Operations whose answer fits -/

/-- The inline bytes a read of the key would look at. -/
def inlineBytes (store : ObjectStore) (key : Key) (now : WallTimestamp) : Option Bytes :=
  match store.get key now with
  | none => none
  | some object =>
    match object.value with
    | .bytes value => some value
    | _ => none

/-- Whether the answer of an operation is within the bounds of the codec: the inline bytes read
are at most a frame, and a local commit that passes validation has at most `maxTxnKeys` writes. -/
def AnswerFits (store : ObjectStore) (now : WallTimestamp) : Operation → Prop
  | .get key => ∀ value, store.inlineBytes key now = some value → value.length ≤ maxFrameBytes
  | .getRange key offset len => ∀ value, store.inlineBytes key now = some value →
      min len.toNat (value.length - offset.toNat) ≤ maxFrameBytes
  | .txnCommitLocal _ writes =>
    store.validateLocal writes now = .ok () → writes.length ≤ maxTxnKeys
  | _ => True

theorem length_localVersions (store : ObjectStore) (writes : List TxnWrite)
    (now : WallTimestamp) : (store.localVersions writes now).length = writes.length :=
  List.length_map _

/-- Staging the touched keys does not change the verdict on a write set. -/
theorem validateLocal_stageTouched (hfiled : store.IntentsFiled) (writes : List TxnWrite) :
    (store.stageTouched writes).validateLocal writes now = store.validateLocal writes now :=
  validateLocal_congr (SameOn.agreeOn (stageTouched_sameOn hfiled writes))

/-- The outcome of a local commit is read back exactly if it is short enough. -/
theorem predictLocalCommit_roundTrips_iff (hfiled : store.IntentsFiled) {txn : TxnId}
    {writes : List TxnWrite} {outcome : DurableOutcome}
    (h : preparedOutcome (store.predictLocalCommit now txn writes) = some outcome) :
    outcome.RoundTrips ↔ store.AnswerFits now (.txnCommitLocal txn writes) := by
  unfold predictLocalCommit at h
  split_ifs at h with hempty
  · cases h
    rw [List.isEmpty_iff.mp hempty]
    exact iff_of_true (roundTrips_rejected _) fun _ ↦ Nat.zero_le _
  rcases commitLocal_cases (store.stageTouched writes) writes now with
    ⟨error, hverdict, hcommit, -⟩ | ⟨hverdict, results, scratch, hcommit, -⟩
  · rw [validateLocal_stageTouched hfiled] at hverdict
    have hfits : store.AnswerFits now (.txnCommitLocal txn writes) := by
      intro hvalid
      rw [hverdict] at hvalid
      cases hvalid
    rw [hcommit] at h
    refine iff_of_true ?_ hfits
    cases error <;> cases h
    · exact roundTrips_rejected _
    · exact roundTrips_versionExhausted
    · exact roundTrips_rejected _
  · rw [validateLocal_stageTouched hfiled] at hverdict
    rw [hcommit] at h
    cases h
    rw [StorePrepared.outcome, roundTrips_localCommitted_iff, length_localVersions]
    exact ⟨fun hcount _ ↦ hcount, fun hfits ↦ hfits hverdict⟩

/-- The answer of a read as an outcome. -/
def readOutcome : Except OpError OperationResult → DurableOutcome
  | .ok result => .completed result
  | .error error => .rejected error

variable {answer : Except OpError OperationResult}

theorem preparedOutcome_of_read (h : store.prepareRead now op = some answer) :
    preparedOutcome (store.prepareDurable now op) = some (readOutcome answer) := by
  have hordinary : store.prepareDurable now op = store.prepareOrdinary now op := by
    cases op <;> first | rfl | cases h
  obtain ⟨key, hkey⟩ : ∃ key, op.key = some key := by
    cases op <;> first | exact ⟨_, rfl⟩ | cases h
  have hreads : op.isMutating = false := by
    cases op <;> first | rfl | cases h
  rw [hordinary, prepareOrdinary, hkey, hreads, h]
  cases answer <;> rfl

/-- How `get` and `getRange` answer, up to the part of the inline bytes they return. -/
def answerInline (view : Bytes → Bytes) (live : Option StoredObject) :
    Except OpError OperationResult :=
  match live with
  | none => .ok (.value none)
  | some object =>
    match object.value with
    | .bytes value => .ok (.value (some (view value)))
    | .chunked root => .ok (.chunkedValue root.manifest root.logicalLen)
    | .fabric root => .ok (.fabricValue root.id root.logicalLen root.version)
    | _ => .error (.wrongType .bytes object.objectType)

theorem answerInline_roundTrips_iff (view : Bytes → Bytes) :
    (readOutcome (answerInline view (store.get key now))).RoundTrips ↔
      ∀ value, store.inlineBytes key now = some value → (view value).length ≤ maxFrameBytes := by
  unfold answerInline inlineBytes
  rcases store.get key now with _ | object
  · exact iff_of_true (roundTrips_completed_iff.mpr ⟨rfl, trivial⟩) nofun
  dsimp only
  rcases hvalue : object.value with value | _ | _ | _ | _ | _ | _ | _ | _
  case bytes =>
    rw [readOutcome, roundTrips_value_iff]
    simp
  case chunked | fabric => exact iff_of_true (roundTrips_of_isScalar rfl) nofun
  all_goals exact iff_of_true (roundTrips_rejected _) nofun

/-- A read of a stream returns part of a shard that is within its bounds. -/
theorem streamRead_roundTrips (hreach : ReachableStore store) {fromOffset : UInt64}
    {maxEntries : UInt32}
    (h : store.prepareRead now (.streamRead key fromOffset maxEntries) = some answer) :
    (readOutcome answer).RoundTrips := by
  rcases hlive : store.get key now with _ | object
  · simp only [prepareRead, hlive, Option.some.injEq] at h
    subst h
    exact roundTrips_streamEntries (Nat.zero_le _)
      (List.forall_mem_nil _)
  have hstored : store.objects[key]? = some object := by
    rw [get_eq] at hlive
    exact (liveObject_eq_some_iff.mp hlive).1
  have hwire := (hreach.restorable key).object object hstored
  have hsound := hreach.sound key object hstored
  simp only [prepareRead, hlive, Option.some.injEq] at h
  subst h
  rcases hvalue : object.value with _ | _ | _ | _ | _ | _ | _ | _ | shard
  case streamShard =>
    rw [hvalue] at hwire
    rw [StoredObject.Sound, hvalue] at hsound
    have hsublist := (List.take_sublist maxEntries.toNat
      (shard.entries.filter fun entry ↦ decide (fromOffset ≤ entry.offset))).trans
      List.filter_sublist
    exact roundTrips_streamEntries (hsublist.length_le.trans hsound.length_le)
      fun entry hmem ↦ hwire entry (hsublist.mem hmem)
  all_goals exact roundTrips_rejected _

theorem prepareOrdinary_isScalar {outcome : DurableOutcome} (hop : answersAtLength op = false)
    (h : preparedOutcome (store.prepareOrdinary now op) = some outcome) :
    outcome.isScalar = true := by
  unfold prepareOrdinary at h
  split at h
  · cases h
  split at h
  · cases h
    rfl
  rcases hread : store.prepareRead now op with _ | error | result <;> rw [hread] at h
  · rcases hpredict : store.predictOrdinary now op with prepared | error | _ <;>
      rw [hpredict] at h <;> cases h
    · exact predictOrdinary_isScalar hpredict
    · rfl
  · cases h
    rfl
  · cases h
    exact prepareRead_isScalar hop hread

section

variable {outcome : DurableOutcome}
  (h : preparedOutcome (store.prepareDurable now op) = some outcome)

include h

theorem prepareDurable_isScalar (hop : answersAtLength op = false) : outcome.isScalar = true := by
  rcases store.prepareDurable_cases now op with ⟨txn, coordinator, write, digest, rfl⟩ |
    ⟨txn, key, commit, write, digest, rfl⟩ | ⟨txn, writes, rfl⟩ | hordinary
  · rw [prepareDurable] at h
    split at h <;> cases h <;> rfl
  · rw [prepareDurable, predictFinalize] at h
    cases h
    cases commit with
    | false => rfl
    | true => exact predictFinalizeWrite_isScalar _ _
  · cases hop
  · rw [hordinary] at h
    exact prepareOrdinary_isScalar hop h

/-- Preparing an operation on a reachable store yields an outcome that is read back exactly when
its answer fits. -/
theorem prepareDurable_roundTrips_iff (hreach : ReachableStore store) :
    outcome.RoundTrips ↔ store.AnswerFits now op := by
  cases op with
  | get key =>
    cases (preparedOutcome_of_read rfl).symm.trans h
    exact answerInline_roundTrips_iff id
  | getRange key offset len =>
    cases (preparedOutcome_of_read rfl).symm.trans h
    have hlength (value : Bytes) : (sliceRange value offset len).length =
        min len.toNat (value.length - offset.toNat) := by
      rw [sliceRange, List.length_take, List.length_drop]
    have hiff : (readOutcome (answerInline (sliceRange · offset len)
        (store.get key now))).RoundTrips ↔ _ := answerInline_roundTrips_iff _
    simp only [hlength] at hiff
    exact hiff
  | streamRead key fromOffset maxEntries =>
    cases (preparedOutcome_of_read rfl).symm.trans h
    exact iff_of_true (streamRead_roundTrips hreach rfl) trivial
  | txnCommitLocal txn writes =>
    exact predictLocalCommit_roundTrips_iff (intentsFiled_of_reachable hreach) h
  | _ =>
    exact iff_of_true
      (roundTrips_of_isScalar (prepareDurable_isScalar h rfl)) trivial

end

end ObjectStore

/-! ### Applied answers -/

/-- How many writes a local commit has. -/
def Mutation.commitSize : Mutation → Nat
  | .txnCommitLocal _ writes => writes.length
  | _ => 0

/-! ### Everything a reachable store produces -/

/-- On a reachable store, the outcome of preparing an operation is read back from exactly its
announced bytes if and only if the inline bytes it reads fit a frame and, where it is a valid local
commit, its writes fit a transaction; the answer of an applied mutation, if and only if it is not a
local commit of too many writes. -/
theorem produced_outcomes_round_trip_iff {store : ObjectStore} (hreach : ReachableStore store) :
    (∀ (op : Operation) (now : WallTimestamp) (outcome : DurableOutcome),
      preparedOutcome (store.prepareDurable now op) = some outcome →
        (outcome.RoundTrips ↔ store.AnswerFits now op)) ∧
    ∀ (mutation : Mutation) (now : WallTimestamp) (answer : ApplyOutcome) (after : ObjectStore)
      (persists : Bool) (result : OperationResult),
      store.apply mutation now = (.ok answer, after) →
      outcomeFor mutation answer persists = some result →
        ((DurableOutcome.completed result).RoundTrips ↔ mutation.commitSize ≤ maxTxnKeys) := by
  constructor
  · intro op now outcome houtcome
    exact ObjectStore.prepareDurable_roundTrips_iff houtcome hreach
  · intro mutation now answer after persists result happly hresult
    cases mutation with
    | txnCommitLocal txn writes =>
      rcases store.applyLocalCommit_cases writes now with ⟨error, hfailed⟩ | ⟨_, -, hdone⟩
      · rw [ObjectStore.apply, hfailed] at happly
        cases happly
      · rw [ObjectStore.apply, hdone] at happly
        cases happly
        cases hresult
        rw [roundTrips_localCommitted_iff, ObjectStore.length_localVersions]
        rfl
    | _ =>
      refine iff_of_true (roundTrips_of_isScalar ?_) (Nat.zero_le _)
      rcases outcomeFor_isScalar hresult with hscalar | ⟨_, _, _, hmutation, -⟩
      · exact hscalar
      · cases hmutation

/-- A store that holds two bytes under one key. -/
def twoByteStore : ObjectStore := applyStep .new (.putBytes [1] [7, 8], 0)

/-- What a read of the key answers is within the bound of the outcome codec. -/
theorem produced_outcomes_round_trip_two_bytes :
    ReachableStore twoByteStore ∧
      (DurableOutcome.completed (.value (some [7, 8]))).RoundTrips := by
  have hreach : ReachableStore twoByteStore := ⟨[.apply (.putBytes [1] [7, 8]) 0], rfl⟩
  refine ⟨hreach, ?_⟩
  refine ((produced_outcomes_round_trip_iff hreach).1 (.get [1]) 0 _ rfl).mpr fun value hvalue ↦ ?_
  have hstored : twoByteStore.inlineBytes [1] 0 = some [7, 8] := rfl
  cases hstored.symm.trans hvalue
  decide

/-- One more write than a transaction may have, all deletes of one key. -/
def overlongWrites : List TxnWrite := List.replicate 257 ⟨[1], .delete, .any⟩

/-- The empty store commits them, but the decoder refuses the outcome it is told to retain. -/
theorem overlong_commit_outcome_unreadable :
    preparedOutcome (ObjectStore.new.prepareDurable 0 (.txnCommitLocal ⟨List.replicate 16 0, rfl⟩
      overlongWrites)) = some (.completed (.txnLocalCommitted (List.replicate 257 none))) ∧
    ¬(DurableOutcome.completed (.txnLocalCommitted (List.replicate 257 none))).RoundTrips := by
  constructor
  · decide +kernel
  · rw [roundTrips_localCommitted_iff, List.length_replicate]
    decide

end Kivi.State
