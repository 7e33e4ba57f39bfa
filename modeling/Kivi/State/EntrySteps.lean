import Kivi.State.Events

/-!
# What a step does to an entry

`EntryStep` lists everything a successful step of one key's machine can do (`entryStep_of_ok`): it
keeps the entry, removes it by a delete, or stores what `Writes` says under the entry's next
version. What later modules keep along a step is read off that list. For the writes a transaction
can carry, `localCommit_step_cases` says exactly when the step succeeds, and `localCommit_step_ok`
what it leaves.
-/

namespace Kivi.State

open Library Library.CheckedArith

/-! ### What a step does -/

/-- The sum after an addition to a counter, and the expiry it is stored with. -/
inductive Adds (live : Option StoredObject) (expected : ObjectType) (delta : Int64) :
    Int64 → Expiry → Prop
  | first (hlive : live = none) : Adds live expected delta delta .never
  | more {current held sum} (hlive : live = some current)
      (hheld : counterValue expected current.value = some held)
      (hsum : checkedAddI64 held delta = some sum) : Adds live expected delta sum current.expiry

/-- The token a free lease hands out next. -/
inductive Offers (live : Option StoredObject) (now : WallTimestamp) : FencingToken → Prop
  | first (hlive : live = none) : Offers live now ⟨1⟩
  | next {current state} (hlive : live = some current) (hvalue : current.value = .lease state)
      (hfree : leaseLive state now = none) : Offers live now state.nextFencing

/-- The bytes a splice starts from. -/
inductive Splices (live : Option StoredObject) : Bytes → Expiry → Prop
  | first (hlive : live = none) : Splices live [] .never
  | onto {current base} (hlive : live = some current) (hvalue : current.value = .bytes base) :
      Splices live base current.expiry

/-- What a mutation answers and stores under the next version, where `live` is what its key
holds. -/
inductive Writes (live : Option StoredObject) (now : WallTimestamp) (version : ObjectVersion) :
    Mutation → ApplyOutcome → LogicalValue → Expiry → Prop
  | putBytes {key value} :
      Writes live now version (.putBytes key value) (.put version) (.bytes value) .never
  | putBytesWithExpiry {key value expiry} :
      Writes live now version (.putBytesWithExpiry key value expiry) (.put version) (.bytes value)
        expiry
  | replaceChunkedRoot {key manifest length} :
      Writes live now version (.replaceChunkedRoot key manifest length) (.put version)
        (.chunked ⟨manifest, length⟩) .never
  | replaceChunkedRootWithExpiry {key manifest length expiry} :
      Writes live now version (.replaceChunkedRootWithExpiry key manifest length expiry)
        (.put version) (.chunked ⟨manifest, length⟩) expiry
  | replaceFabricRoot {key fabricId length named} :
      Writes live now version (.replaceFabricRoot key fabricId length named) (.put version)
        (.fabric ⟨fabricId, length, version.asU64⟩) .never
  | replaceFabricRootWithExpiry {key fabricId length named expiry} :
      Writes live now version (.replaceFabricRootWithExpiry key fabricId length named expiry)
        (.put version) (.fabric ⟨fabricId, length, version.asU64⟩) expiry
  | spliceBytes {key offset patch base expiry spliced} (hbase : Splices live base expiry)
      (hspliced : spliceInline base offset patch = .ok spliced) :
      Writes live now version (.spliceBytes key offset patch) (.put version) (.bytes spliced) expiry
  | counterAdd {key delta sum expiry} (hadds : Adds live .strictCounter delta sum expiry) :
      Writes live now version (.counterAdd key delta) (.counter version sum) (.strictCounter sum)
        expiry
  | commutativeAdd {key delta sum expiry} (hadds : Adds live .commutativeCounter delta sum expiry) :
      Writes live now version (.commutativeAdd key delta) (.commutative version sum)
        (.commutativeCounter sum) expiry
  | setExpiry {key expiry current} (hlive : live = some current) :
      Writes live now version (.setExpiry key expiry) (.expiry true (some version))
        (withVersion current.value version) expiry
  | boundedCreate {key capacity holder cap} (hlive : live = none)
      (hcap : i64OfU64 capacity = some cap) :
      Writes live now version (.boundedCreate key capacity holder) (.put version)
        (.boundedCounter ⟨0, capacity, ⟨holder, 0, cap⟩⟩) .never
  | boundedAdd {key delta current state next} (hlive : live = some current)
      (hvalue : current.value = .boundedCounter state)
      (hnext : boundedAddPreview state delta = .ok next) :
      Writes live now version (.boundedAdd key delta) (.bounded version next)
        (.boundedCounter { state with value := next }) current.expiry
  | escrowSetShare {key min max current state} (hlive : live = some current)
      (hvalue : current.value = .boundedCounter state)
      (hvalid : escrowShareValid state.value state.capacity min max = true) :
      Writes live now version (.escrowSetShare key min max) (.put version)
        (.boundedCounter { state with share := { state.share with min := min, max := max } })
        current.expiry
  | semaphoreCreate {key capacity} (hlive : live = none) :
      Writes live now version (.semaphoreCreate key capacity) (.put version)
        (.semaphore ⟨capacity, ∅⟩) .never
  | semaphoreAcquire {key permit owner qty current state after} (hlive : live = some current)
      (hvalue : current.value = .semaphore state)
      (hacquire : ObjectStore.acquirePermit state permit owner qty = .ok after) :
      Writes live now version (.semaphoreAcquire key permit owner qty) .semaphoreAcquired
        (.semaphore after) current.expiry
  | semaphoreRelease {key permit current state} (hlive : live = some current)
      (hvalue : current.value = .semaphore state) :
      Writes live now version (.semaphoreRelease key permit)
        (.semaphoreReleased (state.permits.contains permit))
        (.semaphore { state with permits := state.permits.erase permit }) current.expiry
  | leaseAcquire {key owner fencing expiresAt advanced} (hoffers : Offers live now fencing)
      (hnext : fencing.next = some advanced) :
      Writes live now version (.leaseAcquire key owner fencing expiresAt)
        (.leaseGranted fencing expiresAt) (.lease ⟨some ⟨owner, fencing, expiresAt⟩, advanced⟩)
        .never
  | leaseRenew {key expiresAt current state holder} (hlive : live = some current)
      (hvalue : current.value = .lease state) (hheld : leaseLive state now = some holder) :
      Writes live now version (.leaseRenew key holder.owner holder.fencing expiresAt)
        (.leaseGranted holder.fencing expiresAt)
        (.lease { state with holder := some { holder with expiresAt := expiresAt } }) current.expiry
  | leaseRelease {key current state holder} (hlive : live = some current)
      (hvalue : current.value = .lease state) (hheld : state.holder = some holder) :
      Writes live now version (.leaseRelease key holder.owner holder.fencing) (.leaseReleased true)
        (.lease { state with holder := none }) current.expiry
  | streamCreate {key stream shard} (hlive : live = none) :
      Writes live now version (.streamCreate key stream shard) (.put version)
        (.streamShard ⟨stream, shard, 0, []⟩) .never
  | streamAppend {key partition payload current shard} (hlive : live = some current)
      (hvalue : current.value = .streamShard shard)
      (hroom : ¬ (maxStreamEntryBytes < payload.length ∨ maxStreamEntryBytes < partition.length ∨
        maxStreamShardEntries ≤ shard.entries.length)) :
      Writes live now version (.streamAppend key partition payload)
        (.streamAppended shard.nextOffset)
        (.streamShard { shard with
          nextOffset := saturatingAddU64 shard.nextOffset 1
          entries := shard.entries ++ [⟨shard.nextOffset, partition, payload⟩] }) current.expiry
  | streamTrim {key through current shard} (hlive : live = some current)
      (hvalue : current.value = .streamShard shard) :
      Writes live now version (.streamTrim key through)
        (.streamTrimmed
          (UInt64.ofNat (shard.entries.length - (trimmed shard.entries through).length)))
        (.streamShard { shard with entries := trimmed shard.entries through }) current.expiry

/-- Everything a successful step does to an entry. -/
inductive EntryStep (stored : Option StoredObject) (now : WallTimestamp) :
    Mutation → ApplyOutcome → Option StoredObject → Prop
  | deleted {key} :
      EntryStep stored now (.delete key) (.deleted (liveObject stored now).isSome) none
  | absent {key expiry} (hlive : liveObject stored now = none) :
      EntryStep stored now (.setExpiry key expiry) (.expiry false none) stored
  | idle {key owner fencing current state} (hlive : liveObject stored now = some current)
      (hvalue : current.value = .lease state) (hfree : state.holder = none) :
      EntryStep stored now (.leaseRelease key owner fencing) (.leaseReleased false) stored
  | written {mutation outcome value version expiry}
      (hversion : entryNextVersion stored now = some version)
      (hwrites : Writes (liveObject stored now) now version mutation outcome value expiry) :
      EntryStep stored now mutation outcome (some ⟨value, version, expiry⟩)

/-- The entry now holds an object under the version that was next. -/
def Stores (stored : Option StoredObject) (now : WallTimestamp) (after : Option StoredObject) :
    Prop :=
  ∃ object, after = some object ∧ entryNextVersion stored now = some object.version

variable {stored after : Option StoredObject} {now : WallTimestamp} {outcome : ApplyOutcome}
  {current : StoredObject} {mutation : Mutation}

theorem entryNextVersion_of_live (hlive : liveObject stored now = some current) :
    entryNextVersion stored now = current.version.next := by
  rw [entryNextVersion, hlive]

theorem entryNextVersion_of_absent (hlive : liveObject stored now = none) :
    entryNextVersion stored now = some .first := by
  rw [entryNextVersion, hlive]

variable {expiry : Expiry} {answer : ObjectVersion → ApplyOutcome}

theorem replaceEntry_eq_ok_iff {value : ObjectVersion → LogicalValue} :
    replaceEntry stored now value expiry answer = .ok (outcome, after) ↔
      ∃ version, entryNextVersion stored now = some version ∧ outcome = answer version ∧
        after = some ⟨value version, version, expiry⟩ := by
  unfold replaceEntry
  cases entryNextVersion stored now <;> simp [eq_comm]

variable {value : LogicalValue}

namespace EntryStep

theorem of_replace {value : ObjectVersion → LogicalValue}
    (h : replaceEntry stored now value expiry answer = .ok (outcome, after))
    (hwrites : ∀ version, Writes (liveObject stored now) now version mutation (answer version)
      (value version) expiry) : EntryStep stored now mutation outcome after := by
  obtain ⟨version, hversion, rfl, rfl⟩ := replaceEntry_eq_ok_iff.mp h
  exact .written hversion (hwrites version)

theorem of_rewrite (hlive : liveObject stored now = some current)
    (h : rewriteEntry current value answer = .ok (outcome, after))
    (hwrites : ∀ version, Writes (liveObject stored now) now version mutation (answer version)
      value current.expiry) : EntryStep stored now mutation outcome after := by
  unfold rewriteEntry at h
  cases hversion : current.version.next with
  | none => simp [hversion] at h
  | some version =>
    simp only [hversion] at h
    cases h
    exact .written ((entryNextVersion_of_live hlive).trans hversion) (hwrites version)

theorem of_create (h : createEntry stored now value = .ok (outcome, after))
    (hwrites : liveObject stored now = none →
      Writes (liveObject stored now) now .first mutation (.put .first) value .never) :
    EntryStep stored now mutation outcome after := by
  unfold createEntry at h
  split at h
  · cases h
  next hlive =>
    cases h
    exact .written (entryNextVersion_of_absent hlive) (hwrites hlive)

theorem of_add {delta : Int64} {expected : ObjectType} {value : Int64 → LogicalValue}
    {answer : ObjectVersion → Int64 → ApplyOutcome}
    (h : addEntry stored now delta expected value answer = .ok (outcome, after))
    (hwrites : ∀ sum expiry version, Adds (liveObject stored now) expected delta sum expiry →
      Writes (liveObject stored now) now version mutation (answer version sum) (value sum) expiry) :
    EntryStep stored now mutation outcome after := by
  unfold addEntry at h
  split at h
  next hlive =>
    cases h
    exact .written (entryNextVersion_of_absent hlive) (hwrites _ _ _ (.first hlive))
  next hlive =>
    split at h
    · cases h
    next hheld =>
      split at h
      · cases h
      next hsum =>
        exact of_rewrite hlive h fun version ↦ hwrites _ _ version (.more hlive hheld hsum)

theorem of_splice {key : Key} {base : Bytes} {offset : UInt64} {patch : Bytes}
    (hbase : Splices (liveObject stored now) base expiry)
    (h : spliceEntry stored now base expiry offset patch = .ok (outcome, after)) :
    EntryStep stored now (.spliceBytes key offset patch) outcome after := by
  unfold spliceEntry at h
  split at h
  · cases h
  · cases h
  next hspliced => exact of_replace h fun _ ↦ .spliceBytes hbase hspliced

theorem of_grant {key : Key} {owner : UInt64} {fencing nextFencing : FencingToken}
    {expiresAt : WallTimestamp} {holder : Option LeaseHolder}
    (h : grantEntry stored now owner fencing expiresAt nextFencing holder = .ok (outcome, after))
    (hoffers : holder = none → Offers (liveObject stored now) now nextFencing) :
    EntryStep stored now (.leaseAcquire key owner fencing expiresAt) outcome after := by
  unfold grantEntry at h
  split at h
  · cases h
  next hfree =>
    split at h
    · cases h
    next hnext =>
      simp only [not_or, not_not, Bool.not_eq_true, Option.isSome_eq_false_iff,
        Option.isNone_iff_eq_none] at hfree
      obtain ⟨hnone, rfl⟩ := hfree
      exact of_replace h fun _ ↦ .leaseAcquire (hoffers hnone) hnext

end EntryStep

/-- A step on the live object. -/
theorem onLive_ok {absent : ApplyError} {act : StoredObject → KeyAnswer}
    (h : onLive stored now absent act = .ok (outcome, after)) :
    ∃ current, liveObject stored now = some current ∧ act current = .ok (outcome, after) := by
  unfold onLive at h
  cases hlive : liveObject stored now with
  | none => simp [hlive] at h
  | some current => exact ⟨current, rfl, by simpa [hlive] using h⟩

/-- What can be written is written. -/
theorem objectStep_of_writes {version : ObjectVersion} {value : LogicalValue} {expiry : Expiry}
    (hversion : entryNextVersion stored now = some version)
    (h : Writes (liveObject stored now) now version mutation outcome value expiry) :
    objectStep stored mutation now = .ok (outcome, some ⟨value, version, expiry⟩) := by
  have hfirst (hlive : liveObject stored now = none) : version = .first :=
    (Option.some.inj ((entryNextVersion_of_absent hlive).symm.trans hversion)).symm
  have hnext {current : StoredObject} (hlive : liveObject stored now = some current) :
      current.version.next = some version := (entryNextVersion_of_live hlive).symm.trans hversion
  cases h with
  | putBytes | putBytesWithExpiry | replaceChunkedRoot | replaceChunkedRootWithExpiry
  | replaceFabricRoot | replaceFabricRootWithExpiry => simp [objectStep, replaceEntry, hversion]
  | spliceBytes hbase hspliced =>
    cases hbase <;> simp [objectStep, spliceEntry, replaceEntry, *]
  | counterAdd hadds | commutativeAdd hadds =>
    cases hadds with
    | first hlive => simp [objectStep, addEntry, hlive, hfirst hlive]
    | more hlive hheld hsum =>
      simp [objectStep, addEntry, rewriteEntry, hlive, hheld, hsum, hnext hlive]
  | boundedCreate hlive | semaphoreCreate hlive | streamCreate hlive =>
    simp [objectStep, createEntry, *]
  | leaseAcquire hoffers =>
    cases hoffers <;> simp [objectStep, grantEntry, replaceEntry, *]
  | setExpiry hlive | boundedAdd hlive | escrowSetShare hlive | semaphoreAcquire hlive
  | semaphoreRelease hlive | leaseRenew hlive | leaseRelease hlive | streamAppend hlive
  | streamTrim hlive =>
    have hlater := hnext hlive
    simp [objectStep, onLive, boundedAddEntry, setShareEntry, acquireEntry, releaseEntry,
      renewEntry, releaseLeaseEntry, appendEntry, trimEntry, rewriteEntry, *]

/-- A successful step is one of the listed ones. -/
theorem entryStep_of_ok (h : objectStep stored mutation now = .ok (outcome, after)) :
    EntryStep stored now mutation outcome after := by
  cases mutation with
  | putBytes => exact .of_replace h fun _ ↦ .putBytes
  | putBytesWithExpiry => exact .of_replace h fun _ ↦ .putBytesWithExpiry
  | replaceChunkedRoot => exact .of_replace h fun _ ↦ .replaceChunkedRoot
  | replaceChunkedRootWithExpiry => exact .of_replace h fun _ ↦ .replaceChunkedRootWithExpiry
  | replaceFabricRoot => exact .of_replace h fun _ ↦ .replaceFabricRoot
  | replaceFabricRootWithExpiry => exact .of_replace h fun _ ↦ .replaceFabricRootWithExpiry
  | counterAdd => exact .of_add h fun _ _ _ ↦ .counterAdd
  | commutativeAdd => exact .of_add h fun _ _ _ ↦ .commutativeAdd
  | semaphoreCreate => exact .of_create h .semaphoreCreate
  | streamCreate => exact .of_create h .streamCreate
  | delete =>
    cases h
    exact .deleted
  | spliceBytes =>
    simp only [objectStep] at h
    split at h
    next hlive => exact .of_splice (.first hlive) h
    next hlive =>
      split at h
      next hvalue => exact .of_splice (.onto hlive hvalue) h
      all_goals cases h
  | setExpiry =>
    simp only [objectStep] at h
    split at h
    next hlive =>
      cases h
      exact .absent hlive
    next hlive =>
      split at h
      · cases h
      next hversion =>
        cases h
        exact .written ((entryNextVersion_of_live hlive).trans hversion) (.setExpiry hlive)
  | boundedCreate =>
    simp only [objectStep] at h
    split at h
    · cases h
    next hlive =>
      split at h
      · cases h
      next hcap =>
        cases h
        exact .written (entryNextVersion_of_absent hlive) (.boundedCreate hlive hcap)
  | leaseAcquire =>
    simp only [objectStep] at h
    split at h
    next hlive => exact .of_grant h fun _ ↦ .first hlive
    next hlive =>
      split at h
      next hvalue => exact .of_grant h (.next hlive hvalue)
      next => cases h
  | leaseRenew =>
    obtain ⟨current, hlive, hact⟩ := onLive_ok h
    unfold renewEntry at hact
    split at hact
    next hvalue =>
      split at hact
      · cases hact
      next hheld =>
        split at hact
        next hsame =>
          obtain ⟨rfl, rfl⟩ := hsame
          exact .of_rewrite hlive hact fun _ ↦ .leaseRenew hlive hvalue hheld
        next => cases hact
    next => cases hact
  | leaseRelease =>
    obtain ⟨current, hlive, hact⟩ := onLive_ok h
    unfold releaseLeaseEntry at hact
    split at hact
    next hvalue =>
      split at hact
      next hfree =>
        cases hact
        rw [← (liveObject_eq_some_iff.mp hlive).1]
        exact .idle hlive hvalue hfree
      next hheld =>
        split at hact
        next hsame =>
          obtain ⟨rfl, rfl⟩ := hsame
          exact .of_rewrite hlive hact fun _ ↦ .leaseRelease hlive hvalue hheld
        next => cases hact
    next => cases hact
  | txnPrepare | txnFinalize | txnCommitLocal => cases h
  | _ =>
    -- The others check the live value and rewrite it.
    obtain ⟨current, hlive, hact⟩ := onLive_ok h
    simp only [boundedAddEntry, setShareEntry, acquireEntry, releaseEntry, appendEntry,
      trimEntry] at hact
    repeat' split at hact
    all_goals first
      | cases hact
      | exact .of_rewrite hlive hact fun _ ↦ by constructor <;> assumption

/-! ### Writes a transaction can carry -/

open ObjectStore (localCommitMutation localResultFor finalizeAnswer)

variable {key : Key} {kind : TxnWriteKind}

/-- The write can be applied to the entry: its own checks pass and, unless it deletes, the
entry's version can advance. -/
def WriteReady (kind : TxnWriteKind) (stored : Option StoredObject) (now : WallTimestamp) :
    Prop :=
  checkTxnWritable kind (liveObject stored now) = .ok () ∧
    (kind = .delete ∨ (entryNextVersion stored now).isSome)

instance (kind : TxnWriteKind) (stored : Option StoredObject) (now : WallTimestamp) :
    Decidable (WriteReady kind stored now) :=
  inferInstanceAs (Decidable (_ ∧ _))

/-- What an applied transactional write leaves, and how its outcome is answered. -/
def WriteEffect (kind : TxnWriteKind) (stored : Option StoredObject) (now : WallTimestamp)
    (outcome : ApplyOutcome) (after : Option StoredObject) : Prop :=
  (kind = .delete ∧ after = none ∧ finalizeAnswer outcome = .ok (.txnFinalized true none)) ∨
    (kind ≠ .delete ∧ ∃ object, after = some object ∧
      entryNextVersion stored now = some object.version ∧ object.isExpired now = false ∧
      finalizeAnswer outcome = .ok (.txnFinalized true (some object.version)))

theorem Adds.unexpired {expected : ObjectType} {delta sum : Int64}
    (h : Adds (liveObject stored now) expected delta sum expiry) :
    expiry.isExpired now = false := by
  cases h with
  | first => rfl
  | more hlive => exact (liveObject_eq_some_iff.mp hlive).2

theorem localCommit_step_ok
    (h : objectStep stored (localCommitMutation key kind) now = .ok (outcome, after)) :
    WriteEffect kind stored now outcome after ∧
      (localResultFor (localCommitMutation key kind) outcome).isSome := by
  cases kind with
  | put | putChunked | putFabric =>
    obtain ⟨version, hversion, rfl, rfl⟩ := replaceEntry_eq_ok_iff.mp h
    exact ⟨Or.inr ⟨by simp, _, rfl, hversion, rfl, rfl⟩, rfl⟩
  | delete =>
    cases h
    exact ⟨Or.inl ⟨rfl, rfl, rfl⟩, rfl⟩
  | counterAdd | commutativeAdd =>
    cases entryStep_of_ok h with
    | written hversion hwrites =>
      cases hwrites
      next hadds => exact ⟨Or.inr ⟨by simp, _, rfl, hversion, hadds.unexpired, rfl⟩, rfl⟩
  | boundedAdd | escrowSetShare =>
    cases entryStep_of_ok h with
    | written hversion hwrites =>
      cases hwrites
      next hlive _ _ =>
        exact ⟨Or.inr ⟨by simp, _, rfl, hversion, (liveObject_eq_some_iff.mp hlive).2, rfl⟩, rfl⟩

/-- The answer is a success exactly under the condition, and an error otherwise. -/
def SucceedsIff (ready : Prop) (answer : KeyAnswer) : Prop :=
  (ready ∧ ∃ outcome after, answer = .ok (outcome, after)) ∨
    (¬ready ∧ ∃ error, answer = .err error)

theorem rewriteEntry_cases (hlive : liveObject stored now = some current) (value : LogicalValue)
    (answer : ObjectVersion → ApplyOutcome) :
    SucceedsIff (entryNextVersion stored now).isSome (rewriteEntry current value answer) := by
  rw [entryNextVersion_of_live hlive]
  unfold rewriteEntry
  cases current.version.next <;> simp [SucceedsIff]

/-- Adding to a counter succeeds exactly when the preview passes and the version can advance. -/
theorem addEntry_cases (stored : Option StoredObject) (now : WallTimestamp) (delta : Int64)
    (expected : ObjectType) (value : Int64 → LogicalValue)
    (answer : ObjectVersion → Int64 → ApplyOutcome) :
    SucceedsIff (previewCounterAdd (liveObject stored now) delta expected = .ok () ∧
      (entryNextVersion stored now).isSome) (addEntry stored now delta expected value answer) := by
  unfold addEntry previewCounterAdd
  cases hlive : liveObject stored now with
  | none => simp [SucceedsIff, entryNextVersion_of_absent hlive]
  | some current =>
    dsimp only
    cases counterValue expected current.value with
    | none => simp [SucceedsIff]
    | some held =>
      dsimp only
      cases checkedAddI64 held delta with
      | none => simp [SucceedsIff]
      | some next => simpa using rewriteEntry_cases hlive (value next) (answer · next)

/-- The preview of a counter write is the check the reservation makes. -/
theorem checkTxnWritable_add (live : Option StoredObject) (delta : Int64) :
    (checkTxnWritable (.counterAdd delta) live = .ok () ↔
      previewCounterAdd live delta .strictCounter = .ok ()) ∧
    (checkTxnWritable (.commutativeAdd delta) live = .ok () ↔
      previewCounterAdd live delta .commutativeCounter = .ok ()) := by
  cases live with
  | none => simp [checkTxnWritable, previewCounterAdd]
  | some object =>
    cases hvalue : object.value <;>
      simp [checkTxnWritable, previewCounterAdd, counterValue, hvalue]
    all_goals cases checkedAddI64 _ delta <;> simp

/-- A transactional write succeeds exactly when it is ready, and never panics. -/
theorem localCommit_step_cases (key : Key) (kind : TxnWriteKind) (stored : Option StoredObject)
    (now : WallTimestamp) :
    SucceedsIff (WriteReady kind stored now)
      (objectStep stored (localCommitMutation key kind) now) := by
  unfold WriteReady
  cases kind with
  | put | putChunked | putFabric =>
    simp only [localCommitMutation, objectStep, replaceEntry]
    cases entryNextVersion stored now <;> simp [SucceedsIff, checkTxnWritable]
  | delete => exact Or.inl ⟨⟨rfl, Or.inl rfl⟩, _, _, rfl⟩
  | counterAdd delta =>
    rw [(checkTxnWritable_add _ delta).1]
    simp only [localCommitMutation, objectStep]
    simpa using addEntry_cases stored now delta _ _ _
  | commutativeAdd delta =>
    rw [(checkTxnWritable_add _ delta).2]
    simp only [localCommitMutation, objectStep]
    simpa using addEntry_cases stored now delta _ _ _
  | boundedAdd delta =>
    simp only [localCommitMutation, objectStep, onLive, checkTxnWritable]
    cases hlive : liveObject stored now with
    | none => simp [SucceedsIff]
    | some current =>
      cases hvalue : current.value with
      | boundedCounter state =>
        simp only [boundedAddEntry, hvalue, Option.map_some]
        cases boundedAddPreview state delta with
        | error _ => simp [SucceedsIff]
        | ok next => simpa using rewriteEntry_cases hlive _ _
      | _ => simp [SucceedsIff, boundedAddEntry, hvalue]
  | escrowSetShare min max =>
    simp only [localCommitMutation, objectStep, onLive, checkTxnWritable]
    cases hlive : liveObject stored now with
    | none => simp [SucceedsIff]
    | some current =>
      cases hvalue : current.value with
      | boundedCounter state =>
        simp only [setShareEntry, hvalue, Option.map_some]
        split_ifs
        · simpa using rewriteEntry_cases hlive _ _
        · simp [SucceedsIff]
      | _ => simp [SucceedsIff, setShareEntry, hvalue]

/-! ### Shares -/

/-- The width of the share an entry holds. -/
def entryWidth (entry : Option StoredObject) : Int :=
  match entry.map StoredObject.value with
  | some (.boundedCounter state) => shareWidth (state.share.min, state.share.max)
  | _ => 0

theorem entryWidth_of_setShare {min max : Int64}
    (h : objectStep stored (.escrowSetShare key min max) now = .ok (outcome, after)) :
    entryWidth after = shareWidth (min, max) := by
  cases entryStep_of_ok h with
  | written _ hwrites =>
    cases hwrites
    rfl

theorem entryWidth_of_add {delta : Int64}
    (h : objectStep stored (.boundedAdd key delta) now = .ok (outcome, after)) :
    entryWidth after = entryWidth stored := by
  cases entryStep_of_ok h with
  | written _ hwrites =>
    cases hwrites with
    | boundedAdd hlive hvalue =>
      rw [(liveObject_eq_some_iff.mp hlive).1]
      simp [entryWidth, hvalue]

end Kivi.State
