import Kivi.Consensus.Dedup
import Kivi.Consensus.SnapshotImage
import Kivi.State.ProducedOutcomes

/-!
# A snapshot restores its tablet

Every section of an image is read back from the bytes it was written as. A reachable tablet meets
every bound its decoder checks except three: no length is compared with the frame bound before it
is written, reservations are counted only when they are read, and so are the versions of a local
commit. `snapshot_restores_iff` says that these are all: a reachable tablet is restored from its
image, with every later answer, exactly if it is `Snapshotable`.
-/

namespace Kivi.Consensus

open Library Library.Bytes Library.Codec.Decoder
open Library.RetryWindow Library.Runs State
open Std (ExtTreeMap)

/-! ### Fields -/

section Fields

variable (rest : Bytes)

theorem decoder_snapTake {n : Nat} {hn : n ≤ 2 ^ 63} :
    (snapTake n hn).decoder = fixed n fun _ ↦ .corruptImage .bodyTruncated := rfl

@[simp] theorem snapTake_append {n : Nat} {hn : n ≤ 2 ^ 63} (raw : FixedBytes n) :
    snapTake n hn (raw.bytes ++ rest) = .ok (raw, rest) := by
  rw [decoder_snapTake, fixed_append]

theorem decoder_snapTakeU64 :
    snapTakeU64.decoder = word64 fun _ ↦ .corruptImage .bodyTruncated := rfl

@[simp] theorem snapTakeU64_append (word : UInt64) :
    snapTakeU64 ((leU64 word).bytes ++ rest) = .ok (word, rest) := by
  rw [decoder_snapTakeU64, word64_append]

@[simp] theorem snapTakeI64_append (word : Int64) :
    snapTakeI64 (leI64 word ++ rest) = .ok (word, rest) := by
  simp [snapTakeI64, leI64]

@[simp] theorem snapTakeTag_cons (tag : UInt8) : snapTakeTag (tag :: rest) = .ok (tag, rest) := rfl

theorem snapTakeCount_append {count : Nat} (hcount : count < 2 ^ 64) :
    snapTakeCount (leCount count ++ rest) = .ok (count, rest) := by
  have hword : (UInt64.ofNat count).toNat = count := UInt64.toNat_ofNat_of_lt' hcount
  simp [snapTakeCount, leCount, hword]

theorem decodeOrderedIndex_append (flag : Bool) :
    decodeOrderedIndex (encodeBool flag ++ rest) = .ok (flag, rest) := by
  cases flag <;> simp [decodeOrderedIndex, encodeBool]

end Fields

/-! ### Objects -/

variable {bytes : Bytes}

/-- A sound object within the decoder's checks is read back. -/
theorem reads_decodeObject {object : StoredObject} (h : encodeObject object = some bytes)
    (hsound : object.Sound False) (hwire : object.value.WithinWire) :
    Reads decodeObject bytes object := by
  intro rest
  obtain ⟨value, version, expiry⟩ := object
  obtain ⟨encoded, hencoded, hbytes⟩ := Option.bind_eq_some_iff.mp h
  cases hbytes
  -- Once the value is read back, version and expiry follow.
  have hvalue : ∀ (tag : UInt8) (field : Bytes), encoded = tag :: field →
      Reads (decodeValue tag) field value →
      decodeObject (encoded ++ version.encode ++ expiry.encode ++ rest) =
        .ok (⟨value, version, expiry⟩, rest) := by
    rintro tag field rfl hread
    simp [decodeObject, hread _]
  cases value with
  | bytes blob =>
    obtain ⟨field, hfield, rfl⟩ := Option.map_eq_some_iff.mp hencoded
    refine hvalue 1 field rfl fun tail ↦ ?_
    simp [decodeValue, reads_decodeByteVec hfield _]
  | streamShard shard =>
    obtain ⟨field, hfield, rfl⟩ := Option.map_eq_some_iff.mp hencoded
    have hshard : shard.Sound version := hsound
    have hread := StreamShardState.reads_decode hfield hshard.length_le
      (fun entry hmem ↦ (hwire entry hmem).2) hshard.sorted
    refine hvalue 8 field rfl fun tail ↦ ?_
    simp [decodeValue, hread _]
  | boundedCounter state =>
    cases hencoded
    have hinvariant : state.invariantHolds = true := hsound
    refine hvalue 5 _ rfl fun tail ↦ ?_
    simp [decodeValue, hinvariant]
  | semaphore state =>
    cases hencoded
    have hinvariant : state.invariantHolds = true := hwire
    have hstate : state.Sound False := hsound
    refine hvalue 6 _ rfl fun tail ↦ ?_
    simp [decodeValue, SemaphoreState.decode_append state hstate.size_le, hinvariant]
  | strictCounter | commutativeCounter | chunked | fabric | lease =>
    cases hencoded
    refine hvalue _ _ rfl fun tail ↦ ?_
    simp [decodeValue, leI64]

theorem reads_decodeEntry {entry : Key × StoredObject} (h : encodeEntry entry = some bytes)
    (hsound : entry.2.Sound False) (hwire : entry.2.value.WithinWire) :
    Reads decodeEntry.decoder bytes entry := by
  intro rest
  obtain ⟨key, object, hkey, hobject, rfl⟩ := parts_of_some h
  simp [decodeEntry, reads_decodeByteVec hkey _, reads_decodeObject hobject hsound hwire _]

/-! ### Sessions and reservations -/

variable {entry : RequestSeq × RetainedOutcome}

theorem reads_decodeOutcome (h : encodeOutcome entry = some bytes)
    (hbounded : entry.2.outcome.Bounded) :
    Reads decodeOutcome.decoder bytes entry := by
  intro rest
  obtain ⟨outcome, blob, houtcome, hblob, rfl⟩ := parts_of_some h
  simp [decodeOutcome, reads_decodeByteVec hblob _, decodeExact,
    (DurableOutcome.reads_decode houtcome hbounded).whole]

theorem reads_decodeSession {entry : SessionId × SessionState}
    (h : encodeSession entry = some bytes) (hcount : entry.2.outcomes.size < 2 ^ 64)
    (hbounded : ∀ answer ∈ entry.2.outcomes.toList, answer.2.outcome.Bounded) :
    Reads decodeSession.decoder bytes entry := by
  intro rest
  obtain ⟨session, floor, outcomes⟩ := entry
  obtain ⟨encoded, hencoded, hbytes⟩ := Option.bind_eq_some_iff.mp h
  cases hbytes
  have houtcomes : Reads (decodeOutcome.decoder.many outcomes.size) encoded outcomes.toList := by
    rw [← ExtTreeMap.length_toList]
    exact Reads.many (fun answer hmem _ hanswer ↦
      reads_decodeOutcome hanswer (hbounded answer hmem)) hencoded
  obtain ⟨raw, hraw, hvalue⟩ := @fixed_leBytes _
    (fun _ ↦ SnapshotFault.corruptImage .bodyTruncated) 16 session.toNat session.isLt
    ((leU64 floor).bytes ++ (leCount outcomes.size ++ (encoded ++ rest)))
  simp [decodeSession, decoder_snapTake, hraw, hvalue, snapTakeCount_append _ hcount,
    houtcomes rest, LastWins.foldl_insert_toList]

theorem reads_decodeIntent {intent : TxnIntent} (h : encodeIntent intent = some bytes)
    (hkey : intent.write.key = intent.key) :
    Reads decodeIntent.decoder bytes intent := by
  intro rest
  obtain ⟨id, coordinator, key, ⟨writeKey, kind, expect⟩, digest, observed, preparedAt⟩ := intent
  cases hkey
  obtain ⟨keyBytes, kindBytes, hkeyBytes, hkindBytes, rfl⟩ := parts_of_some h
  cases observed <;>
    simp [decodeIntent, decodeObserved, reads_decodeByteVec hkeyBytes _,
      TxnWriteKind.reads_decode hkindBytes _]

/-! ### What can be written -/

theorem encodeEntry_isSome_iff {entry : Key × StoredObject} (hwire : entry.2.value.WithinWire) :
    (encodeEntry entry).isSome = true ↔ entry.1.length ≤ maxFrameBytes ∧
      ∀ blob, entry.2.value = .bytes blob → blob.length ≤ maxFrameBytes := by
  have hvalue : (encodeValue entry.2.value).isSome = true ↔
      ∀ blob, entry.2.value = .bytes blob → blob.length ≤ maxFrameBytes := by
    rcases hvalue : entry.2.value with blob | _ | _ | _ | _ | _ | _ | _ | shard
    case bytes => simp [encodeValue, encodeBytes_isSome_iff]
    case streamShard =>
      rw [hvalue] at hwire
      obtain ⟨encoded, hencoded⟩ :=
        Option.isSome_iff_exists.mp (StreamEntry.encodeEach_isSome hwire)
      simp [encodeValue, StreamShardState.encode, hencoded]
    all_goals simp [encodeValue]
  rw [← hvalue, ← encodeBytes_isSome_iff]
  rcases hkey : encodeBytes entry.1 with _ | key <;>
    rcases hobject : encodeValue entry.2.value with _ | object <;>
    simp [encodeEntry, encodeObject, hkey, hobject]

theorem encodeIntent_isSome_iff {intent : TxnIntent} :
    (encodeIntent intent).isSome = true ↔ intent.key.length ≤ maxFrameBytes ∧
      ∀ blob, intent.write.kind = .put blob → blob.length ≤ maxFrameBytes := by
  rw [← TxnWriteKind.encode_isSome_iff, ← encodeBytes_isSome_iff]
  rcases hkey : encodeBytes intent.key with _ | key <;>
    rcases hkind : intent.write.kind.encode with _ | kind <;>
    simp [encodeIntent, hkey, hkind]

variable {result : OperationResult}

/-- An answer of a mutation that is bounded when read is written. -/
theorem encodeOutcome_isSome (hresult : entry.2.outcome = .completed result)
    (hcompact : result.carriesBlobs = false) (hbounded : result.Bounded) :
    (encodeOutcome entry).isSome = true := by
  obtain ⟨bytes, hbytes, hlength⟩ := OperationResult.encode_of_compact hcompact hbounded
  have hfits : (1 :: bytes).length ≤ maxFrameBytes :=
    (Nat.succ_le_succ hlength).trans (by decide)
  obtain ⟨blob, hblob⟩ := Option.isSome_iff_exists.mp (encodeBytes_isSome_iff.mpr hfits)
  simp [encodeOutcome, hresult, DurableOutcome.encode, hbytes, hblob]

/-! ### Retained answers -/

namespace ReplicatedTablet

variable {tablet : ReplicatedTablet}

/-- Every retained answer is the answer of a mutation. -/
def RetainsAnswers (tablet : ReplicatedTablet) : Prop :=
  ∀ (session : SessionId) (seq : RequestSeq) (retained : RetainedOutcome),
    (tablet.window session).kept[seq]? = some retained →
      ∃ result, retained.outcome = .completed result ∧ result.carriesBlobs = false

theorem applyFresh_carriesBlobs {index : UInt64} {command : ReplicatedMutation}
    (h : (tablet.applyFresh index command).1 = .ok result) :
    result.carriesBlobs = false := by
  unfold applyFresh at h
  dsimp only at h
  split at h
  · cases h
  · cases h
  · split at h
    · cases h
    next answer hanswer =>
      split_ifs at h
      cases h
      exact outcomeFor_carriesBlobs hanswer

/-- The entry that has just been executed answers with the answer of its mutation. -/
theorem applyEntry_carriesBlobs {log : LogId} {command : ReplicatedMutation}
    (hlookup : tablet.dedupLookup command.envelope.client.session command.envelope.client.seq
      command.ackFloor log.index = .ok none)
    (h : (tablet.applyEntry log (.normal (.tablet command))).1 = .ok (some result)) :
    result.carriesBlobs = false := by
  have hcommand : (tablet.applyCommand log.index command).1 = .ok result := by
    simp only [applyEntry, applyEnvelope] at h
    rcases hanswer : tablet.applyCommand log.index command with ⟨_ | _ | _, after⟩ <;>
      simp_all
  unfold applyCommand at hcommand
  dsimp only at hcommand
  split at hcommand
  · cases hcommand
  split at hcommand
  · cases hcommand
  split at hcommand
  · exact applyFresh_carriesBlobs hcommand
  · unfold applyIdentified at hcommand
    simp only [hlookup] at hcommand
    rcases hfresh : tablet.applyFresh log.index command with ⟨answer | _ | _, after⟩ <;>
      rw [hfresh] at hcommand <;> cases hcommand
    exact applyFresh_carriesBlobs (congrArg Prod.fst hfresh)

end ReplicatedTablet

/-- Every replica retains answers of mutations only. -/
theorem Replica.retainsAnswers {start replica : Replica} (hstart : start.tablet.RetainsAnswers)
    (hreach : Reachable Replica.step start replica) : replica.tablet.RetainsAnswers := by
  refine Reachable.invariant (P := fun replica : Replica ↦ replica.tablet.RetainsAnswers) hstart
    (fun reached event hretains ↦ ?_) hreach
  -- The sessions stay as they are, or one answer is installed.
  have hkept (h : (reached.step event).tablet.sessions = reached.tablet.sessions) :
      (reached.step event).tablet.RetainsAnswers := by
    unfold ReplicatedTablet.RetainsAnswers ReplicatedTablet.window
    rw [h]
    exact hretains
  rcases reached.step_sessions event with ⟨-, hsame, -⟩ |
    ⟨log, command, rfl, -, -, hlookup, ⟨result, hok, hinstall⟩ | ⟨-, hsame, -⟩⟩
  · exact hkept hsame
  · intro session seq retained hretained
    have hwindow := reached.tablet.window_install log.index command result session
    rw [ReplicatedTablet.window, ← hinstall, ← ReplicatedTablet.window] at hwindow
    rw [hwindow] at hretained
    split_ifs at hretained
    · change (ExtTreeMap.insert _ _ _)[seq]? = _ at hretained
      rw [ExtTreeMap.getElem?_insert] at hretained
      split_ifs at hretained
      · cases hretained
        exact ⟨result, rfl, ReplicatedTablet.applyEntry_carriesBlobs hlookup hok⟩
      · rw [Window.getElem?_advance] at hretained
        split_ifs at hretained
        exact hretains session seq retained hretained
    · exact hretains session seq retained hretained
  · exact hkept hsame

/-! ### Applying does not read the applied pointer -/

namespace ReplicatedTablet

/-- The tablet with another applied pointer. -/
def withApplied (tablet : ReplicatedTablet) (applied : Option LogId) : ReplicatedTablet :=
  { tablet with applied := applied }

variable (tablet : ReplicatedTablet) (applied : Option LogId) (index : UInt64)
  (command : ReplicatedMutation)

theorem applyFresh_withApplied :
    (tablet.withApplied applied).applyFresh index command =
      ((tablet.applyFresh index command).1,
        (tablet.applyFresh index command).2.withApplied applied) := by
  have hstore : (tablet.withApplied applied).store = tablet.store := rfl
  unfold applyFresh
  dsimp only
  rw [hstore]
  rcases tablet.store.apply command.envelope.operation command.now with ⟨outcome | _ | _, store⟩
  · dsimp only
    rcases outcomeFor command.envelope.operation outcome _ with _ | result
    · rfl
    · dsimp only
      split_ifs <;> rfl
  · rfl
  · rfl

theorem applyIdentified_withApplied :
    (tablet.withApplied applied).applyIdentified index command =
      ((tablet.applyIdentified index command).1,
        (tablet.applyIdentified index command).2.withApplied applied) := by
  have hlookup : (tablet.withApplied applied).dedupLookup = tablet.dedupLookup := rfl
  unfold applyIdentified
  dsimp only
  rw [hlookup, applyFresh_withApplied]
  rcases tablet.dedupLookup command.envelope.client.session command.envelope.client.seq
    command.ackFloor index with _ | _ | retained
  · rfl
  · rcases tablet.applyFresh index command with ⟨_ | _ | _, after⟩ <;> rfl
  · dsimp only
    split_ifs <;> rfl

theorem applyCommand_withApplied :
    (tablet.withApplied applied).applyCommand index command =
      ((tablet.applyCommand index command).1,
        (tablet.applyCommand index command).2.withApplied applied) := by
  have hroute : (tablet.withApplied applied).namespaceId = tablet.namespaceId ∧
      (tablet.withApplied applied).tablet = tablet.tablet ∧
      (tablet.withApplied applied).authority = tablet.authority := ⟨rfl, rfl, rfl⟩
  unfold applyCommand
  dsimp only
  rw [applyFresh_withApplied, applyIdentified_withApplied, hroute.1, hroute.2.1, hroute.2.2]
  split_ifs
  · rfl
  · rcases command.envelope.authority.checkAgainst tablet.authority with _ | _ <;> rfl
  · rcases command.envelope.authority.checkAgainst tablet.authority with _ | _ <;> rfl

/-- An entry answers the same whatever was applied last, and leaves the same behind. -/
theorem applyEntry_withApplied (log : LogId) (payload : EntryPayload) :
    ∃ later, (tablet.withApplied applied).applyEntry log payload =
      ((tablet.applyEntry log payload).1,
        (tablet.applyEntry log payload).2.withApplied later) := by
  rcases payload with _ | _ | command
  · exact ⟨some log, rfl⟩
  · exact ⟨some log, rfl⟩
  rcases command with command | _ | fenced
  · simp only [applyEntry, applyEnvelope, applyCommand_withApplied]
    rcases tablet.applyCommand log.index command with ⟨_ | _ | _, after⟩
    · exact ⟨some log, rfl⟩
    · exact ⟨applied, rfl⟩
    · exact ⟨applied, rfl⟩
  · exact ⟨applied, rfl⟩
  · simp only [applyEntry, applyEnvelope]
    by_cases hfenced : fenced ≠ tablet.tablet
    · have hother : fenced ≠ (tablet.withApplied applied).tablet := hfenced
      rw [if_pos hfenced, if_pos hother]
      exact ⟨applied, rfl⟩
    · have hother : ¬fenced ≠ (tablet.withApplied applied).tablet := hfenced
      rw [if_neg hfenced, if_neg hother]
      exact ⟨some log, rfl⟩

/-- Apply the next entry of the log. -/
def applyNext (tablet : ReplicatedTablet) (entry : LogId × EntryPayload) : ReplicatedTablet :=
  (tablet.applyEntry entry.1 entry.2).2

/-- The answers to the entries of a log, in order. -/
def answers (tablet : ReplicatedTablet) (entries : List (LogId × EntryPayload)) :
    List (Result StateMachineFault ReplicatedOutcome) :=
  collect applyNext (fun tablet entry ↦ some (tablet.applyEntry entry.1 entry.2).1) tablet entries

theorem answers_withApplied (entries : List (LogId × EntryPayload)) :
    (tablet.withApplied applied).answers entries = tablet.answers entries := by
  induction entries generalizing tablet applied with
  | nil => rfl
  | cons entry rest ih =>
    obtain ⟨later, hentry⟩ := tablet.applyEntry_withApplied applied entry.1 entry.2
    have hnext : (tablet.withApplied applied).applyNext entry =
        (tablet.applyNext entry).withApplied later := congrArg Prod.snd hentry
    have hrest := ih (tablet.applyNext entry) later
    unfold answers at hrest ⊢
    rw [collect, collect, hnext, hrest, hentry]

end ReplicatedTablet

/-! ### Images that restore their tablet -/

namespace ReplicatedTablet

variable {tablet : ReplicatedTablet} {crc32c : Checksum}

/-- The sizes of the tablet's maps are machine words, as lengths are. -/
structure Addressable (tablet : ReplicatedTablet) : Prop where
  objects : tablet.store.objects.size < 2 ^ 64
  sessions : tablet.sessions.size < 2 ^ 64
  outcomes : ∀ (session : SessionId) (state : SessionState),
    tablet.sessions[session]? = some state → state.outcomes.size < 2 ^ 64

/-- No blob of the tablet is above the frame bound, its reservations are not more than an image
may have, and no retained local commit has more versions than a result may have. -/
structure Snapshotable (tablet : ReplicatedTablet) : Prop where
  keys : ∀ key : Key, key ∈ tablet.store.objects → key.length ≤ maxFrameBytes
  values : ∀ (key : Key) (object : StoredObject) (blob : Bytes),
    tablet.store.objects[key]? = some object → object.value = .bytes blob →
      blob.length ≤ maxFrameBytes
  intents : tablet.store.intents.size ≤ maxSnapshotIntents
  intentKeys : ∀ key : Key, key ∈ tablet.store.intents → key.length ≤ maxFrameBytes
  intentWrites : ∀ (key : Key) (intent : TxnIntent) (blob : Bytes),
    tablet.store.intents[key]? = some intent → intent.write.kind = .put blob →
      blob.length ≤ maxFrameBytes
  commits : ∀ (session : SessionId) (state : SessionState) (seq : RequestSeq)
    (retained : RetainedOutcome) (versions : List (Option ObjectVersion)),
    tablet.sessions[session]? = some state → state.outcomes[seq]? = some retained →
      retained.outcome = .completed (.txnLocalCommitted versions) → versions.length ≤ maxTxnKeys

/-- What the image of a tablet decodes to. -/
def captured (tablet : ReplicatedTablet) : DecodedSnapshot :=
  let applied := tablet.applied.getD ⟨0, 0, 0⟩
  ⟨tablet.authority.epoch, tablet.authority.guard,
    if applied = ⟨0, 0, 0⟩ then none else some applied, tablet.store.objects.toList,
    tablet.sessions.toList, tablet.store.ordered.isSome,
    tablet.store.intents.toList.map Prod.snd⟩

theorem getElem?_of_mem_toList {κ α : Type} [Ord κ] [Std.TransOrd κ] [Std.LawfulEqOrd κ]
    {map : ExtTreeMap κ α} {entry : κ × α} (h : entry ∈ map.toList) :
    map[entry.1]? = some entry.2 := ExtTreeMap.mem_toList_iff_getElem?_eq_some.mp h

section

variable (hok : tablet.Snapshotable)

include hok

/-- The retained answers of a session are bounded when its local commits are. -/
theorem outcome_bounded (hretains : tablet.RetainsAnswers) {session : SessionId}
    {state : SessionState} (hstate : tablet.sessions[session]? = some state)
    {answer : RequestSeq × RetainedOutcome} (hanswer : answer ∈ state.outcomes.toList) :
    ∃ result, answer.2.outcome = .completed result ∧ result.carriesBlobs = false ∧
      result.Bounded := by
  have hkept : (tablet.window session).kept[answer.1]? = some answer.2 := by
    rw [window_of_known hstate]
    exact getElem?_of_mem_toList hanswer
  obtain ⟨result, hresult, hcompact⟩ := hretains session answer.1 answer.2 hkept
  refine ⟨result, hresult, hcompact, ?_⟩
  cases result with
  | streamEntries _ _ => cases hcompact
  | txnLocalCommitted versions =>
    exact hok.commits session state answer.1 answer.2 versions hstate
      (getElem?_of_mem_toList hanswer) hresult
  | _ => trivial

theorem reads_objects (hstore : ReachableStore tablet.store) :
    ∃ bytes, encodeEach encodeEntry tablet.store.objects.toList = some bytes ∧
      Reads (decodeEntry.decoder.many tablet.store.objects.size) bytes
        tablet.store.objects.toList := by
  refine exists_reads_many ExtTreeMap.length_toList fun entry hmem ↦ ?_
  have hentry := getElem?_of_mem_toList hmem
  have hkey : entry.1 ∈ tablet.store.objects := by
    rw [ExtTreeMap.mem_iff_isSome_getElem?, hentry]
    rfl
  have hwire := (hstore.restorable entry.1).object entry.2 hentry
  refine ⟨(encodeEntry_isSome_iff hwire).mpr
    ⟨hok.keys entry.1 hkey, fun blob ↦ hok.values entry.1 entry.2 blob hentry⟩, fun _ hbytes ↦ ?_⟩
  exact reads_decodeEntry hbytes (hstore.sound entry.1 entry.2 hentry) hwire

theorem reads_sessions (hretains : tablet.RetainsAnswers) (haddress : tablet.Addressable) :
    ∃ bytes, encodeEach encodeSession tablet.sessions.toList = some bytes ∧
      Reads (decodeSession.decoder.many tablet.sessions.size) bytes tablet.sessions.toList := by
  refine exists_reads_many ExtTreeMap.length_toList fun entry hmem ↦ ?_
  have hstate := getElem?_of_mem_toList hmem
  constructor
  · have houtcomes : (encodeEach encodeOutcome entry.2.outcomes.toList).isSome = true := by
      refine encodeEach_isSome_iff.mpr fun answer hanswer ↦ ?_
      obtain ⟨result, hresult, hcompact, hbounded⟩ := outcome_bounded hok hretains hstate hanswer
      exact encodeOutcome_isSome hresult hcompact hbounded
    obtain ⟨outcomes, houtcomes⟩ := Option.isSome_iff_exists.mp houtcomes
    simp [encodeSession, houtcomes]
  · intro _ hbytes
    refine reads_decodeSession hbytes (haddress.outcomes entry.1 entry.2 hstate) ?_
    intro answer hanswer
    obtain ⟨result, hresult, -, hbounded⟩ := outcome_bounded hok hretains hstate hanswer
    rw [hresult]
    exact hbounded

theorem reads_intents (hstore : ReachableStore tablet.store) :
    ∃ bytes, encodeEach encodeIntent (tablet.store.intents.toList.map Prod.snd) = some bytes ∧
      Reads (decodeIntent.decoder.many tablet.store.intents.size) bytes
        (tablet.store.intents.toList.map Prod.snd) := by
  refine exists_reads_many ((List.length_map _).trans ExtTreeMap.length_toList)
    fun intent hmem ↦ ?_
  obtain ⟨⟨key, held⟩, hentry, rfl⟩ := List.mem_map.mp hmem
  have hheld := getElem?_of_mem_toList hentry
  obtain ⟨hfiled, hwrite⟩ := (hstore.restorable key).intent held hheld
  have hkey : key ∈ tablet.store.intents := by
    rw [ExtTreeMap.mem_iff_isSome_getElem?, hheld]
    rfl
  constructor
  · rw [encodeIntent_isSome_iff, hfiled]
    exact ⟨hok.intentKeys key hkey, fun blob ↦ hok.intentWrites key held blob hheld⟩
  · intro _ hbytes
    exact reads_decodeIntent hbytes (hwrite.trans hfiled.symm)

/-- A tablet that can be snapshot is written, and its image decodes to what was captured. -/
theorem decodeSnapshot_of_snapshotable (hstore : ReachableStore tablet.store)
    (hretains : tablet.RetainsAnswers) (haddress : tablet.Addressable) :
    ∃ image, tablet.encodeSnapshot crc32c = some image ∧
      decodeSnapshot crc32c image tablet.namespaceId tablet.tablet = .ok tablet.captured := by
  obtain ⟨objects, hobjects, hreadObjects⟩ := reads_objects hok hstore
  obtain ⟨sessions, hsessions, hreadSessions⟩ := reads_sessions hok hretains haddress
  obtain ⟨intents, hintents, hreadIntents⟩ := reads_intents hok hstore
  have hcount : tablet.store.intents.size < 2 ^ 64 := lt_of_le_of_lt hok.intents (by decide)
  have hfew : ¬maxSnapshotIntents < tablet.store.intents.size := Nat.not_lt.mpr hok.intents
  set body := tablet.encodeHead ++ (leCount tablet.store.objects.size ++ objects) ++
    (leCount tablet.sessions.size ++ sessions) ++ encodeBool tablet.store.ordered.isSome ++
    (leCount tablet.store.intents.size ++ intents) with hlayout
  have hbody : tablet.encodeSnapshotBody = some body := by
    simp only [encodeSnapshotBody, hobjects, hsessions, hintents]
    rfl
  have hread : Reads (decodeSnapshotBody tablet.namespaceId tablet.tablet).decoder body
      tablet.captured := by
    intro rest
    simp [hlayout, decodeSnapshotBody, decodeSnapshotHead, decodeSnapshotSections,
      decodeSnapshotObjects, decodeSnapshotSessions, decodeSnapshotIntents, encodeHead, captured,
      snapTakeCount_append _ haddress.objects, hreadObjects _,
      snapTakeCount_append _ haddress.sessions, hreadSessions _, decodeOrderedIndex_append,
      snapTakeCount_append _ hcount, hfew, hreadIntents _, -LogId.mk.injEq]
  refine ⟨frameImage crc32c snapshotMagic snapshotVersion body, ?_, ?_⟩
  · rw [encodeSnapshot, hbody]
    rfl
  · simp [decodeSnapshot, unframeImage_frameImage, hread.whole]

end

end ReplicatedTablet

/-! ### What a decoded image is bounded by -/

/-- Everything an image is decoded to is within the bounds of its decoder. -/
structure DecodedSnapshot.Bounded (decoded : DecodedSnapshot) : Prop where
  intents : decoded.intents.length ≤ maxSnapshotIntents
  outcomes : ∀ entry ∈ decoded.sessions, ∀ (seq : RequestSeq) (retained : RetainedOutcome),
    entry.2.outcomes[seq]? = some retained → retained.outcome.Bounded

theorem accepts_decodeOutcome :
    Accepts decodeOutcome.decoder fun entry ↦ entry.2.outcome.Bounded := by
  refine accepts_bind (accepts_trivial _) fun seq _ ↦ accepts_bind (accepts_trivial _)
    fun commit _ ↦ accepts_bind (accepts_trivial _) fun opcode _ ↦
      accepts_bind (accepts_trivial _) fun blob _ ↦ ?_
  dsimp only
  split
  next outcome hexact =>
    refine accepts_pure ?_
    unfold decodeExact at hexact
    split at hexact
    · cases hexact
    next value rest hdecode =>
      split_ifs at hexact
      cases hexact
      exact DurableOutcome.accepts_decode _ _ _ hdecode
  next => exact accepts_fail _

theorem accepts_decodeSession :
    Accepts decodeSession.decoder fun entry ↦ ∀ (seq : RequestSeq) (retained : RetainedOutcome),
      entry.2.outcomes[seq]? = some retained → retained.outcome.Bounded := by
  refine accepts_bind (accepts_trivial _) fun raw _ ↦ accepts_bind (accepts_trivial _)
    fun floor _ ↦ accepts_bind (accepts_trivial _) fun count _ ↦
      accepts_bind (accepts_decodeOutcome.many count) fun outcomes houtcomes ↦ accepts_pure ?_
  intro seq retained hretained
  -- What was inserted last under the sequence was read.
  rcases LastWins.getElem?_foldl_insert_cases Prod.fst Prod.snd outcomes ∅ seq with
    ⟨entry, hmem, -, hget⟩ | ⟨-, hget⟩
  · rw [hget] at hretained
    cases hretained
    exact houtcomes.2 entry hmem
  · rw [hget, ExtTreeMap.getElem?_empty] at hretained
    cases hretained

theorem accepts_decodeSnapshotBody (namespaceId : NamespaceId) (tablet : TabletId) :
    Accepts (decodeSnapshotBody namespaceId tablet).decoder DecodedSnapshot.Bounded := by
  have hintents : Accepts decodeSnapshotIntents.decoder fun intents ↦
      intents.length ≤ maxSnapshotIntents := by
    refine accepts_bind (accepts_trivial _) fun count _ ↦ ?_
    dsimp only
    split_ifs with hcount
    · exact accepts_fail _
    · exact ((accepts_trivial _).many count).mono fun intents hmany ↦
        hmany.1.le.trans (Nat.not_lt.mp hcount)
  have hsessions := accepts_bind (accepts_trivial snapTakeCount.decoder) fun count _ ↦
    (accepts_decodeSession.many count).mono fun _ hmany ↦ hmany.2
  exact accepts_bind (accepts_trivial _) fun head _ ↦ accepts_bind (accepts_trivial _)
    fun objects _ ↦ accepts_bind hsessions fun sessions hsessions ↦
      accepts_bind (accepts_trivial _) fun orderedIndex _ ↦
        accepts_bind hintents fun intents hbound ↦ accepts_pure ⟨hbound, hsessions⟩

/-! ### The round trip -/

namespace ReplicatedTablet

variable {tablet : ReplicatedTablet} {crc32c : Checksum}

/-- The tablet has an image, and a replica of the same identity that installs what the image
decodes to has the objects, reservations, index and sessions of the tablet, and gives the answers
of the tablet to every log. -/
def Restores (crc32c : Checksum) (tablet : ReplicatedTablet) : Prop :=
  ∃ image decoded, tablet.encodeSnapshot crc32c = some image ∧
    decodeSnapshot crc32c image tablet.namespaceId tablet.tablet = .ok decoded ∧
    ∀ base : ReplicatedTablet, base.namespaceId = tablet.namespaceId →
      base.authority = tablet.authority →
        (base.installDecoded decoded).store = tablet.store ∧
        (base.installDecoded decoded).sessions = tablet.sessions ∧
        ∀ entries, (base.installDecoded decoded).answers entries = tablet.answers entries

/-- Within the bounds of the image the tablet is given back, its applied pointer apart. -/
theorem restores_of_snapshotable (hstore : ReachableStore tablet.store)
    (hretains : tablet.RetainsAnswers) (haddress : tablet.Addressable)
    (hok : tablet.Snapshotable) : tablet.Restores crc32c := by
  obtain ⟨image, hencode, hdecode⟩ :=
    decodeSnapshot_of_snapshotable hok hstore hretains haddress
  refine ⟨image, tablet.captured, hencode, hdecode, fun base hnamespace hauthority ↦ ?_⟩
  have hrestored : ObjectStore.installDecoded tablet.captured.objects tablet.captured.intents
      tablet.captured.orderedIndex = tablet.store :=
    ObjectStore.installDecoded_self hstore.mirrors fun key held hheld ↦
      ((hstore.restorable key).intent held hheld).1
  have hsessions : tablet.captured.sessions.foldl
      (fun map entry ↦ map.insert entry.1 entry.2) ∅ = tablet.sessions :=
    LastWins.foldl_insert_toList tablet.sessions
  have htablet : base.tablet = tablet.tablet := by
    rw [← base.authority_tablet, ← tablet.authority_tablet, hauthority]
  have hinstalled : base.installDecoded tablet.captured =
      tablet.withApplied tablet.captured.applied := by
    unfold installDecoded withApplied
    simp only [hrestored, hsessions, hnamespace, hauthority, htablet]
  rw [hinstalled]
  exact ⟨rfl, rfl, answers_withApplied tablet _⟩

/-- A tablet with an image has no blob above the frame bound in its objects and reservations. -/
theorem fits_of_encodeSnapshot (hstore : ReachableStore tablet.store) {image : Bytes}
    (h : tablet.encodeSnapshot crc32c = some image) :
    (∀ (key : Key) (object : StoredObject), tablet.store.objects[key]? = some object →
      key.length ≤ maxFrameBytes ∧
        ∀ blob, object.value = .bytes blob → blob.length ≤ maxFrameBytes) ∧
    ∀ (key : Key) (intent : TxnIntent), tablet.store.intents[key]? = some intent →
      key.length ≤ maxFrameBytes ∧
        ∀ blob, intent.write.kind = .put blob → blob.length ≤ maxFrameBytes := by
  obtain ⟨body, hbody, -⟩ := Option.map_eq_some_iff.mp h
  obtain ⟨objects, hobjects, hbody⟩ := Option.bind_eq_some_iff.mp hbody
  obtain ⟨sessions, -, hbody⟩ := Option.bind_eq_some_iff.mp hbody
  obtain ⟨intents, hintents, -⟩ := Option.bind_eq_some_iff.mp hbody
  constructor
  · intro key object hobject
    have hmem := ExtTreeMap.mem_toList_iff_getElem?_eq_some.mpr hobject
    have hsome := encodeEach_isSome_iff.mp (Option.isSome_iff_exists.mpr ⟨_, hobjects⟩) _ hmem
    exact (encodeEntry_isSome_iff ((hstore.restorable key).object object hobject)).mp hsome
  · intro key intent hheld
    have hmem := List.mem_map_of_mem (f := Prod.snd)
      (ExtTreeMap.mem_toList_iff_getElem?_eq_some.mpr hheld)
    have hsome := encodeEach_isSome_iff.mp (Option.isSome_iff_exists.mpr ⟨_, hintents⟩) _ hmem
    have hfits := encodeIntent_isSome_iff.mp hsome
    rwa [((hstore.restorable key).intent intent hheld).1] at hfits

/-- A tablet that its image restores was within all bounds of the image. -/
theorem snapshotable_of_restores (hstore : ReachableStore tablet.store)
    (h : tablet.Restores crc32c) : tablet.Snapshotable := by
  obtain ⟨image, decoded, hencode, hdecode, hrestored⟩ := h
  have hbounded : decoded.Bounded := by
    unfold decodeSnapshot at hdecode
    split at hdecode
    · cases hdecode
    next body hbody =>
      split at hdecode
      · cases hdecode
      next decoded' rest hdecoded =>
        split_ifs at hdecode
        cases hdecode
        exact accepts_decodeSnapshotBody _ _ _ _ _ hdecoded
  obtain ⟨hsame, hsessions, -⟩ := hrestored tablet rfl rfl
  obtain ⟨hentry, hintent⟩ := fits_of_encodeSnapshot hstore hencode
  constructor
  case keys =>
    intro key hkey
    obtain ⟨object, hobject⟩ := Option.isSome_iff_exists.mp
      (ExtTreeMap.mem_iff_isSome_getElem?.mp hkey)
    exact (hentry key object hobject).1
  case values => exact fun key object blob hobject ↦ (hentry key object hobject).2 blob
  case intents =>
    have hmaps := (ObjectStore.installDecoded_maps decoded.objects decoded.intents
      decoded.orderedIndex).2
    rw [← hsame]
    change (ObjectStore.installDecoded decoded.objects decoded.intents
      decoded.orderedIndex).intents.size ≤ _
    rw [hmaps]
    refine (LastWins.size_foldl_insert_le TxnIntent.key id decoded.intents ∅).trans ?_
    rw [ExtTreeMap.size_empty, Nat.zero_add]
    exact hbounded.intents
  case intentKeys =>
    intro key hkey
    obtain ⟨intent, hheld⟩ := Option.isSome_iff_exists.mp
      (ExtTreeMap.mem_iff_isSome_getElem?.mp hkey)
    exact (hintent key intent hheld).1
  case intentWrites => exact fun key intent blob hheld ↦ (hintent key intent hheld).2 blob
  case commits =>
    intro session state seq retained versions hstate hretained hversions
    rw [← hsessions] at hstate
    rcases LastWins.getElem?_foldl_insert_cases Prod.fst Prod.snd decoded.sessions ∅ session with
      ⟨entry, hmem, -, hget⟩ | ⟨-, hget⟩
    · have hentry : some entry.2 = some state := hget.symm.trans hstate
      cases hentry
      have hfits := hbounded.outcomes entry hmem seq retained hretained
      rwa [hversions] at hfits
    · have hnone : (none : Option SessionState) = some state :=
        ExtTreeMap.getElem?_empty.symm.trans (hget.symm.trans hstate)
      cases hnone

end ReplicatedTablet

/-- Everything a replica reaches stays reachable from the empty store. -/
theorem Replica.reachableStore {start replica : Replica}
    (hstart : ReachableStore start.tablet.store)
    (hreach : Reachable Replica.step start replica) : ReachableStore replica.tablet.store := by
  refine Reachable.invariant (P := fun replica : Replica ↦ ReachableStore replica.tablet.store)
    hstart (fun reached event hstore ↦ ?_) hreach
  cases event with
  | apply log payload =>
    have hfollows := (reached.tablet.applyEntry_follows log payload).store hstore
    unfold Replica.step
    dsimp only
    split_ifs
    · rcases hanswer : reached.tablet.applyEntry log payload with ⟨_ | _ | _, after⟩ <;>
        rw [hanswer] at hfollows <;> exact hfollows
    · exact hstore
  | setOrderedIndexing enabled => exact hstore.run [.setOrderedIndexing enabled]

/-- A reachable tablet is restored from its snapshot, with every later answer, exactly if no blob
in it passes the frame bound, it has at most a million reservations, and it retains no local
commit of more keys than a transaction may touch. -/
theorem Replica.snapshot_restores_iff {namespaceId : NamespaceId} {authority : TabletAuthority}
    {hcontrol : authority.tablet ≠ controlTabletRaw} {replica : Replica}
    (crc32c : Checksum)
    (hreach : Reachable Replica.step (Replica.new namespaceId authority hcontrol) replica)
    (haddress : replica.tablet.Addressable) :
    replica.tablet.Restores crc32c ↔ replica.tablet.Snapshotable := by
  have hstore := Replica.reachableStore (Reachable.refl _) hreach
  have hstart : (Replica.new namespaceId authority hcontrol).tablet.RetainsAnswers := by
    intro session seq retained hretained
    rw [ReplicatedTablet.window_of_unknown ExtTreeMap.not_mem_empty] at hretained
    change (∅ : ExtTreeMap RequestSeq RetainedOutcome)[seq]? = some retained at hretained
    rw [ExtTreeMap.getElem?_empty] at hretained
    cases hretained
  exact ⟨ReplicatedTablet.snapshotable_of_restores hstore,
    ReplicatedTablet.restores_of_snapshotable hstore (Replica.retainsAnswers hstart hreach)
      haddress⟩

/-- The tablet of one small write is restored from its snapshot. -/
theorem Replica.snapshot_restores_iff_small_write :
    let replica := (Replica.new 0 ⟨1, 0, 0⟩ (by decide)).step (Replica.writeEntry 0 1 0 1)
    replica.tablet.Addressable ∧ replica.tablet.Snapshotable ∧
      replica.tablet.Restores fun _ ↦ 0 := by
  intro replica
  have hreach : Reachable Replica.step (Replica.new 0 ⟨1, 0, 0⟩ (by decide)) replica :=
    ⟨[Replica.writeEntry 0 1 0 1], rfl⟩
  have hobjects : replica.tablet.store.objects.toList = [([1], ⟨.bytes [5], ⟨1⟩, .never⟩)] := by
    decide
  have hintents : replica.tablet.store.intents = ∅ := by decide
  have hsessions : replica.tablet.sessions.toList.map (fun entry ↦
      (entry.1, entry.2.outcomes.toList.map fun answer ↦ answer.2.outcome)) =
        [(7, [.completed (.stored ⟨1⟩)])] := by
    decide
  have hobject (key : Key) (object : StoredObject)
      (h : replica.tablet.store.objects[key]? = some object) :
      key = [1] ∧ object.value = .bytes [5] := by
    rw [← ExtTreeMap.mem_toList_iff_getElem?_eq_some, hobjects, List.mem_singleton] at h
    cases h
    exact ⟨rfl, rfl⟩
  have hsession (session : SessionId) (state : SessionState)
      (h : replica.tablet.sessions[session]? = some state) :
      (state.outcomes.toList.map fun answer ↦ answer.2.outcome) = [.completed (.stored ⟨1⟩)] := by
    have hmem := List.mem_map_of_mem
      (f := fun entry : SessionId × SessionState ↦
        (entry.1, entry.2.outcomes.toList.map fun answer ↦ answer.2.outcome))
      (ExtTreeMap.mem_toList_iff_getElem?_eq_some.mpr h)
    rw [hsessions, List.mem_singleton] at hmem
    exact congrArg Prod.snd hmem
  have haddress : replica.tablet.Addressable := by
    refine ⟨by decide, by decide, fun session state hstate ↦ ?_⟩
    have hlength := congrArg List.length (hsession session state hstate)
    rw [List.length_map, ExtTreeMap.length_toList] at hlength
    rw [hlength]
    decide
  have hok : replica.tablet.Snapshotable := by
    constructor
    case keys =>
      intro key hkey
      obtain ⟨object, h⟩ := Option.isSome_iff_exists.mp
        (ExtTreeMap.mem_iff_isSome_getElem?.mp hkey)
      rw [(hobject key object h).1]
      decide
    case values =>
      intro key object blob h hvalue
      rw [(hobject key object h).2] at hvalue
      cases hvalue
      decide
    case intents => decide
    case intentKeys =>
      intro key hkey
      rw [hintents] at hkey
      exact absurd hkey ExtTreeMap.not_mem_empty
    case intentWrites =>
      intro key intent blob h
      rw [hintents, ExtTreeMap.getElem?_empty] at h
      cases h
    case commits =>
      intro session state seq retained versions hstate hretained hversions
      have hmem := List.mem_map_of_mem
        (f := fun answer : RequestSeq × RetainedOutcome ↦ answer.2.outcome)
        (ExtTreeMap.mem_toList_iff_getElem?_eq_some.mpr hretained)
      rw [hsession session state hstate, hversions, List.mem_singleton] at hmem
      cases hmem
  exact ⟨haddress, hok, (Replica.snapshot_restores_iff _ hreach haddress).mpr hok⟩

/-- A splice of one byte just past the frame bound. -/
def distantSplice : ReplicaEvent :=
  .apply ⟨1, 0, 0⟩ (.normal (.tablet
    ⟨⟨0, ⟨1, 0, 0⟩, ⟨7, 1⟩, none, .spliceBytes [1] 0x1000000 [5]⟩, .stored ⟨1⟩, ⟨0⟩, 0⟩))

/-- The splice is applied, and the value it makes can be in no image. -/
theorem distant_splice_has_no_image :
    let replica := (Replica.new 0 ⟨1, 0, 0⟩ (by decide)).step distantSplice
    replica.healthy = true ∧ ∀ crc32c, replica.tablet.encodeSnapshot crc32c = none := by
  intro replica
  refine ⟨rfl, fun crc32c ↦ Option.eq_none_iff_forall_not_mem.mpr fun image himage ↦ ?_⟩
  have hreach : Reachable Replica.step (Replica.new 0 ⟨1, 0, 0⟩ (by decide)) replica :=
    ⟨[distantSplice], rfl⟩
  have hobject : replica.tablet.store.objects[([1] : Key)]? =
      some ⟨.bytes (List.replicate 0x1000000 0 ++ [5] ++ []), ⟨1⟩, .never⟩ := rfl
  have hfits := (ReplicatedTablet.fits_of_encodeSnapshot
    (Replica.reachableStore (Reachable.refl _) hreach) himage).1 [1] _ hobject
  have hblob := hfits.2 _ rfl
  rw [List.append_nil, List.length_append, List.length_replicate] at hblob
  exact absurd hblob (by decide)

end Kivi.Consensus
