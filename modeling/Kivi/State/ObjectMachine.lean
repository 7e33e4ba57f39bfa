import Kivi.State.Apply

/-!
# One key as a state machine

An ordinary mutation reads and writes the entry of its own key only. `objectStep` is that
behaviour as a function of the entry: a mutation either fails and changes nothing, or answers
and leaves a new entry. `applyInner_eq` states that the store's dispatcher is this function at
the mutation's key, and every result about single keys is proved from it.
-/

namespace Kivi.State

open Library Library.CheckedArith

/-! ### The machine -/

/-- The answer of a successful step and the entry it leaves. -/
abbrev KeyAnswer := Result ApplyError (ApplyOutcome × Option StoredObject)

variable (stored : Option StoredObject) (now : WallTimestamp)

/-- The version of the next object under this entry. -/
def entryNextVersion : Option ObjectVersion :=
  match liveObject stored now with
  | none => some .first
  | some object => object.version.next

/-- Replace the entry under its next version. -/
def replaceEntry (value : ObjectVersion → LogicalValue) (expiry : Expiry)
    (outcome : ObjectVersion → ApplyOutcome) : KeyAnswer :=
  match entryNextVersion stored now with
  | none => .err .versionExhausted
  | some version => .ok (outcome version, some ⟨value version, version, expiry⟩)

/-- Create an object on an entry that is not live. -/
def createEntry (value : LogicalValue) : KeyAnswer :=
  match liveObject stored now with
  | some _ => .err .txnDiverged
  | none => .ok (.put .first, some ⟨value, .first, .never⟩)

variable (current : StoredObject)

/-- Rewrite a live object's value under its next version, keeping its expiry. -/
def rewriteEntry (value : LogicalValue) (outcome : ObjectVersion → ApplyOutcome) : KeyAnswer :=
  match current.version.next with
  | none => .err .versionExhausted
  | some version => .ok (outcome version, some ⟨value, version, current.expiry⟩)

/-- Add to a counter entry. -/
def addEntry (delta : Int64) (expected : ObjectType) (value : Int64 → LogicalValue)
    (outcome : ObjectVersion → Int64 → ApplyOutcome) : KeyAnswer :=
  match liveObject stored now with
  | none => .ok (outcome .first delta, some ⟨value delta, .first, .never⟩)
  | some current =>
    match counterValue expected current.value with
    | none => .err (.typeMismatch expected current.objectType)
    | some held =>
      match checkedAddI64 held delta with
      | none => .err .counterOverflow
      | some next => rewriteEntry current (value next) (outcome · next)

/-- Run `act` on the live object, or fail with `absent` when there is none. -/
def onLive (absent : ApplyError) (act : StoredObject → KeyAnswer) : KeyAnswer :=
  match liveObject stored now with
  | none => .err absent
  | some current => act current

/-- The write of a bounded counter's new value. -/
def boundedAddEntry (delta : Int64) : KeyAnswer :=
  match current.value with
  | .boundedCounter state =>
    match boundedAddPreview state delta with
    | .error _ => .err .boundedExceeded
    | .ok next =>
      rewriteEntry current (.boundedCounter { state with value := next }) (.bounded · next)
  | _ => .err (.typeMismatch .boundedCounter current.objectType)

/-- The write of a bounded counter's new share. -/
def setShareEntry (min max : Int64) : KeyAnswer :=
  match current.value with
  | .boundedCounter state =>
    if escrowShareValid state.value state.capacity min max then
      rewriteEntry current
        (.boundedCounter { state with share := { state.share with min := min, max := max } }) .put
    else .err .boundedExceeded
  | _ => .err (.typeMismatch .boundedCounter current.objectType)

def acquireEntry (permit : PermitId) (owner qty : UInt64) : KeyAnswer :=
  match current.value with
  | .semaphore state =>
    match ObjectStore.acquirePermit state permit owner qty with
    | .error error => .err error
    | .ok state => rewriteEntry current (.semaphore state) fun _ ↦ .semaphoreAcquired
  | _ => .err (.typeMismatch .semaphore current.objectType)

def releaseEntry (permit : PermitId) : KeyAnswer :=
  match current.value with
  | .semaphore state =>
    rewriteEntry current (.semaphore { state with permits := state.permits.erase permit })
      fun _ ↦ .semaphoreReleased (state.permits.contains permit)
  | _ => .err (.typeMismatch .semaphore current.objectType)

/-- Grant a free lease under the token it offers. -/
def grantEntry (owner : UInt64) (fencing : FencingToken) (expiresAt : WallTimestamp)
    (nextFencing : FencingToken) (live : Option LeaseHolder) : KeyAnswer :=
  if live.isSome ∨ fencing ≠ nextFencing then .err .leaseConflict
  else match fencing.next with
  | none => .err .streamFull
  | some advanced =>
    replaceEntry stored now (fun _ ↦ .lease ⟨some ⟨owner, fencing, expiresAt⟩, advanced⟩) .never
      fun _ ↦ .leaseGranted fencing expiresAt

def renewEntry (now : WallTimestamp) (owner : UInt64) (fencing : FencingToken)
    (expiresAt : WallTimestamp) : KeyAnswer :=
  match current.value with
  | .lease state =>
    match leaseLive state now with
    | none => .err .leaseConflict
    | some holder =>
      if holder.owner = owner ∧ holder.fencing = fencing then
        rewriteEntry current (.lease { state with holder := some ⟨owner, fencing, expiresAt⟩ })
          fun _ ↦ .leaseGranted fencing expiresAt
      else .err .leaseConflict
  | _ => .err (.typeMismatch .lease current.objectType)

def releaseLeaseEntry (owner : UInt64) (fencing : FencingToken) : KeyAnswer :=
  match current.value with
  | .lease state =>
    match state.holder with
    | none => .ok (.leaseReleased false, some current)
    | some holder =>
      if holder.owner = owner ∧ holder.fencing = fencing then
        rewriteEntry current (.lease { state with holder := none }) fun _ ↦ .leaseReleased true
      else .err .leaseConflict
  | _ => .err (.typeMismatch .lease current.objectType)

def appendEntry (partition payload : Bytes) : KeyAnswer :=
  match current.value with
  | .streamShard shard =>
    if maxStreamEntryBytes < payload.length ∨ maxStreamEntryBytes < partition.length ∨
        maxStreamShardEntries ≤ shard.entries.length then
      .err .streamFull
    else
      rewriteEntry current
        (.streamShard { shard with
          nextOffset := saturatingAddU64 shard.nextOffset 1
          entries := shard.entries ++ [⟨shard.nextOffset, partition, payload⟩] })
        fun _ ↦ .streamAppended shard.nextOffset
  | _ => .err (.typeMismatch .streamShard current.objectType)

/-- The entries a trim keeps. -/
def trimmed (entries : List StreamEntry) (through : UInt64) : List StreamEntry :=
  entries.dropWhile fun entry ↦ decide (entry.offset ≤ through)

def trimEntry (through : UInt64) : KeyAnswer :=
  match current.value with
  | .streamShard shard =>
    rewriteEntry current (.streamShard { shard with entries := trimmed shard.entries through })
      fun _ ↦ .streamTrimmed
        (UInt64.ofNat (shard.entries.length - (trimmed shard.entries through).length))
  | _ => .err (.typeMismatch .streamShard current.objectType)

/-- Splice `patch` into a byte value. -/
def spliceEntry (base : Bytes) (expiry : Expiry) (offset : UInt64) (patch : Bytes) :
    KeyAnswer :=
  match spliceInline base offset patch with
  | .panic => .panic
  | .err _ => .err .unresolvableSplice
  | .ok spliced => replaceEntry stored now (fun _ ↦ .bytes spliced) expiry .put

/-- A fabric reference follows its object's version; other values do not carry one. -/
def withVersion (value : LogicalValue) (version : ObjectVersion) : LogicalValue :=
  match value with
  | .fabric reference => .fabric { reference with version := version.asU64 }
  | value => value

/-- What an ordinary mutation does to the entry of its key. -/
def objectStep (stored : Option StoredObject) (mutation : Mutation) (now : WallTimestamp) :
    KeyAnswer :=
  match mutation with
  | .putBytes _ value => replaceEntry stored now (fun _ ↦ .bytes value) .never .put
  | .putBytesWithExpiry _ value expiry =>
    replaceEntry stored now (fun _ ↦ .bytes value) expiry .put
  | .replaceChunkedRootWithExpiry _ manifest logicalLen expiry =>
    replaceEntry stored now (fun _ ↦ .chunked ⟨manifest, logicalLen⟩) expiry .put
  | .replaceChunkedRoot _ manifest logicalLen =>
    replaceEntry stored now (fun _ ↦ .chunked ⟨manifest, logicalLen⟩) .never .put
  | .replaceFabricRoot _ fabricId logicalLen _ =>
    replaceEntry stored now (fun version ↦ .fabric ⟨fabricId, logicalLen, version.asU64⟩)
      .never .put
  | .replaceFabricRootWithExpiry _ fabricId logicalLen _ expiry =>
    replaceEntry stored now (fun version ↦ .fabric ⟨fabricId, logicalLen, version.asU64⟩)
      expiry .put
  | .spliceBytes _ offset patch =>
    match liveObject stored now with
    | none => spliceEntry stored now [] .never offset patch
    | some current =>
      match current.value with
      | .bytes value => spliceEntry stored now value current.expiry offset patch
      | .chunked _ | .fabric _ => .err .unresolvableSplice
      | _ => .err (.typeMismatch .bytes current.objectType)
  | .delete _ => .ok (.deleted (liveObject stored now).isSome, none)
  | .counterAdd _ delta => addEntry stored now delta .strictCounter .strictCounter .counter
  | .setExpiry _ expiry =>
    match liveObject stored now with
    | none => .ok (.expiry false none, stored)
    | some current =>
      match current.version.next with
      | none => .err .versionExhausted
      | some version =>
        .ok (.expiry true (some version),
          some ⟨withVersion current.value version, version, expiry⟩)
  | .commutativeAdd _ delta =>
    addEntry stored now delta .commutativeCounter .commutativeCounter .commutative
  | .boundedCreate _ capacity holder =>
    match liveObject stored now with
    | some _ => .err .txnDiverged
    | none =>
      match i64OfU64 capacity with
      | none => .err .boundedExceeded
      | some cap =>
        .ok (.put .first,
          some ⟨.boundedCounter ⟨0, capacity, ⟨holder, 0, cap⟩⟩, .first, .never⟩)
  | .boundedAdd _ delta => onLive stored now .boundedExceeded (boundedAddEntry · delta)
  | .escrowSetShare _ min max =>
    onLive stored now .boundedExceeded (setShareEntry · min max)
  | .semaphoreCreate _ capacity => createEntry stored now (.semaphore ⟨capacity, ∅⟩)
  | .semaphoreAcquire _ permit owner qty =>
    onLive stored now .txnDiverged (acquireEntry · permit owner qty)
  | .semaphoreRelease _ permit => onLive stored now .txnDiverged (releaseEntry · permit)
  | .leaseAcquire _ owner fencing expiresAt =>
    match liveObject stored now with
    | none => grantEntry stored now owner fencing expiresAt ⟨1⟩ none
    | some current =>
      match current.value with
      | .lease state =>
        grantEntry stored now owner fencing expiresAt state.nextFencing (leaseLive state now)
      | _ => .err (.typeMismatch .lease current.objectType)
  | .leaseRenew _ owner fencing expiresAt =>
    onLive stored now .leaseConflict (renewEntry · now owner fencing expiresAt)
  | .leaseRelease _ owner fencing =>
    onLive stored now .txnDiverged (releaseLeaseEntry · owner fencing)
  | .streamCreate _ stream shard => createEntry stored now (.streamShard ⟨stream, shard, 0, []⟩)
  | .streamAppend _ partition payload =>
    onLive stored now .txnDiverged (appendEntry · partition payload)
  | .streamTrim _ through => onLive stored now .txnDiverged (trimEntry · through)
  | .txnPrepare _ _ _ _ _ _ | .txnFinalize _ _ _ _ _ | .txnCommitLocal _ _ => .panic

/-! ### Entries of the store -/

theorem liveObject_eq_some_iff {stored : Option StoredObject} {now : WallTimestamp}
    {object : StoredObject} :
    liveObject stored now = some object ↔ stored = some object ∧ object.isExpired now = false := by
  simp [liveObject, Option.filter_eq_some_iff]

namespace ObjectStore

/-- Make `entry` the entry of `key`. -/
def setEntry (store : ObjectStore) (key : Key) : Option StoredObject → ObjectStore
  | none => store.eraseObject key
  | some object => store.insertObject key object

variable (store : ObjectStore) (key : Key) (entry : Option StoredObject)

@[simp] theorem setEntry_ordered :
    (store.setEntry key entry).ordered = store.ordered := by
  cases entry <;> rfl

@[simp] theorem setEntry_intents :
    (store.setEntry key entry).intents = store.intents := by
  cases entry <;> rfl

theorem getElem?_setEntry (key other : Key) (entry : Option StoredObject) :
    (store.setEntry key entry).objects[other]? =
      if other = key then entry else store.objects[other]? := by
  cases entry <;>
    simp [setEntry, eraseObject, insertObject, Std.ExtTreeMap.getElem?_erase,
      Std.ExtTreeMap.getElem?_insert, @eq_comm _ other key]

@[ext] theorem ext_entries {a b : ObjectStore}
    (hobjects : ∀ key : Key, a.objects[key]? = b.objects[key]?) (hordered : a.ordered = b.ordered)
    (hintents : a.intents = b.intents) : a = b := by
  have hmap : a.objects = b.objects := Std.ExtTreeMap.ext_getElem? fun key ↦ hobjects key
  cases a
  cases b
  simp_all

@[simp] theorem setEntry_self :
    store.setEntry key store.objects[key]? = store := by
  refine ext_entries (fun other ↦ ?_) (setEntry_ordered ..) (setEntry_intents ..)
  rw [getElem?_setEntry]
  split_ifs with h
  · rw [h]
  · rfl

/-- The store after a step of one key's machine. -/
def lift (store : ObjectStore) (key : Key) : KeyAnswer → Applied
  | .ok (outcome, entry) => (.ok outcome, store.setEntry key entry)
  | .err error => (.err error, store)
  | .panic => (.panic, store)

@[simp] theorem lift_ok (outcome : ApplyOutcome)
    (entry : Option StoredObject) :
    store.lift key (.ok (outcome, entry)) = (.ok outcome, store.setEntry key entry) := rfl

@[simp] theorem lift_err (error : ApplyError) :
    store.lift key (.err error) = (.err error, store) := rfl

@[simp] theorem lift_panic :
    store.lift key .panic = (.panic, store) := rfl

/-! ### The dispatcher is the machine at the mutation's key -/

variable (store : ObjectStore) (key : Key) (now : WallTimestamp)

theorem get_eq : store.get key now = liveObject store.objects[key]? now := rfl

theorem nextVersion_eq : store.nextVersion key now = entryNextVersion store.objects[key]? now := rfl

theorem putRoot_eq_lift (value : ObjectVersion → LogicalValue) (expiry : Expiry) :
    store.putRoot key value expiry now =
      store.lift key (replaceEntry store.objects[key]? now value expiry .put) := by
  simp only [putRoot, replaceEntry, nextVersion_eq]
  cases entryNextVersion store.objects[key]? now <;> rfl

theorem createRoot_eq_lift (value : LogicalValue) :
    store.createRoot key value now =
      store.lift key (createEntry store.objects[key]? now value) := by
  simp only [createRoot, createEntry, get]
  cases liveObject store.objects[key]? now <;> rfl

variable {store key now} in
theorem rewrite_eq_lift {current : StoredObject} (hlive : store.get key now = some current)
    (value : LogicalValue) (outcome : ObjectVersion → ApplyOutcome) :
    store.rewrite key value outcome = store.lift key (rewriteEntry current value outcome) := by
  have hstored : store.objects[key]? = some current := (liveObject_eq_some_iff.mp hlive).1
  simp only [rewrite, rewriteEntry, versionOf, expiryOf, hstored]
  cases current.version.next <;> rfl

theorem addToCounter_eq_lift (delta : Int64) (expected : ObjectType)
    (value : Int64 → LogicalValue) (outcome : ObjectVersion → Int64 → ApplyOutcome) :
    store.addToCounter key delta expected value outcome now =
      store.lift key (addEntry store.objects[key]? now delta expected value outcome) := by
  unfold addToCounter addEntry
  rw [get_eq]
  cases hlive : liveObject store.objects[key]? now with
  | none => rfl
  | some current =>
    cases hheld : counterValue expected current.value with
    | none => simp [hheld]
    | some held =>
      cases hnext : checkedAddI64 held delta with
      | none => simp [hheld, hnext]
      | some next => simp [hheld, hnext, rewrite_eq_lift (get_eq store key now ▸ hlive)]

theorem spliceRoot_eq_lift (base : Bytes) (expiry : Expiry) (offset : UInt64)
    (patch : Bytes) :
    store.spliceRoot key base expiry offset patch now =
      store.lift key (spliceEntry store.objects[key]? now base expiry offset patch) := by
  unfold spliceRoot spliceEntry
  cases spliceInline base offset patch with
  | ok spliced => exact putRoot_eq_lift ..
  | err _ => rfl
  | panic => rfl

theorem grantLease_eq_lift (owner : UInt64) (fencing : FencingToken) (expiresAt : WallTimestamp)
    (nextFencing : FencingToken) (live : Option LeaseHolder) :
    store.grantLease key owner fencing expiresAt nextFencing live now =
      store.lift key
        (grantEntry store.objects[key]? now owner fencing expiresAt nextFencing live) := by
  unfold grantLease grantEntry replaceEntry
  rw [nextVersion_eq]
  split_ifs
  · rfl
  · cases fencing.next with
    | none => rfl
    | some advanced => cases entryNextVersion store.objects[key]? now <;> rfl

/-- A check on the live object's value followed by a rewrite of it. -/
theorem onLive_eq_lift (absent : ApplyError) (act : StoredObject → KeyAnswer)
    (write : StoredObject → Applied)
    (hact : ∀ current, store.get key now = some current →
      write current = store.lift key (act current)) :
    (match store.get key now with
      | none => (.err absent, store)
      | some current => write current) =
      store.lift key (onLive store.objects[key]? now absent act) := by
  unfold onLive
  rw [get_eq] at *
  cases hlive : liveObject store.objects[key]? now with
  | none => rfl
  | some current => exact hact current hlive

/-- An ordinary mutation is one step of the entry under its key. -/
theorem applyInner_eq {mutation : Mutation} (hkey : mutation.ordinaryKey = some key) :
    store.applyInner mutation now =
      store.lift key (objectStep store.objects[key]? mutation now) := by
  cases mutation <;> simp only [Mutation.ordinaryKey, Mutation.key, Mutation.keys,
    List.head?_cons, Option.some.injEq, reduceCtorEq] at hkey
  all_goals subst hkey
  case putBytes | putBytesWithExpiry | replaceChunkedRoot | replaceChunkedRootWithExpiry |
      replaceFabricRoot | replaceFabricRootWithExpiry =>
    exact putRoot_eq_lift ..
  case counterAdd | commutativeAdd => exact addToCounter_eq_lift ..
  case semaphoreCreate | streamCreate => exact createRoot_eq_lift ..
  case delete => rfl
  case spliceBytes key offset patch =>
    simp only [applyInner, objectStep, spliceRoot_eq_lift, get_eq]
    cases liveObject store.objects[key]? now with
    | none => rfl
    | some current => cases hvalue : current.value <;> simp [hvalue]
  case setExpiry key expiry =>
    simp only [applyInner, objectStep, get_eq]
    cases hlive : liveObject store.objects[key]? now with
    | none => simp
    | some current =>
      have hstored := (liveObject_eq_some_iff.mp hlive).1
      simp only [versionOf, hstored]
      cases current.version.next with
      | none => rfl
      | some version => cases hvalue : current.value <;> rfl
  case boundedCreate key capacity holder =>
    simp only [applyInner, objectStep, get_eq]
    cases liveObject store.objects[key]? now with
    | some current => rfl
    | none => cases i64OfU64 capacity <;> rfl
  case leaseAcquire key owner fencing expiresAt =>
    simp only [applyInner, objectStep, grantLease_eq_lift, get_eq]
    cases liveObject store.objects[key]? now with
    | none => rfl
    | some current => cases hvalue : current.value <;> simp [hvalue]
  case leaseRelease key owner fencing =>
    refine onLive_eq_lift _ _ _ _ _ _ fun current hlive ↦ ?_
    unfold releaseLeaseEntry
    cases current.value with
    | lease state =>
      cases hholder : state.holder with
      | none =>
        have hstored := (liveObject_eq_some_iff.mp hlive).1
        simp [hholder, ← hstored]
      | some holder =>
        simp only [hholder]
        split_ifs
        · exact rewrite_eq_lift hlive ..
        · rfl
    | _ => rfl
  -- The others check the live value and rewrite it.
  all_goals
    refine onLive_eq_lift _ _ _ _ _ _ fun current hlive ↦ ?_
    simp only [boundedAddEntry, setShareEntry, acquireEntry, releaseEntry, renewEntry, appendEntry,
      trimEntry]
    cases current.value
    all_goals first | rfl | exact rewrite_eq_lift hlive .. | simp only [rewrite_eq_lift hlive]
    all_goals split <;> simp [*, apply_ite (store.lift _)]

end ObjectStore

end Kivi.State
