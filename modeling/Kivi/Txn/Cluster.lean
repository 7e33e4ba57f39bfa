import Kivi.Txn.Decision

/-!
# Two-phase commit across tablets

Drivers run cross-tablet transactions: they prepare every write, decide on the coordinator's
record and finalize every write. Resolvers take up reservations that are left behind. Both act on
the tablets only through messages, which may be delayed, repeated and lost, and may stop at any
point. A decision is read from the record; a resolver may read an old copy of it.
-/

namespace Kivi.Txn

open Library State

/-! ### Transactions -/

/-- The write set of a transaction with the tablet of each key, as it was given: nothing keeps a
batch from naming a key twice or the key of a decision record. -/
structure Plan where
  coordinator : TabletId
  writes : List (TabletId × TxnWrite)
  digest : Digest
  dirVersion : UInt64

/-- The transactions of a cluster, and how the identity of a decide transaction is derived from
the transaction it decides and a salt. -/
structure Setting where
  plans : TxnId → Option Plan
  derive : TxnId → UInt64 → TxnId

namespace Plan

variable (plan : Plan) (txn : TxnId)

/-- The tablets of the write set, in order. -/
def participants : List TabletId := (Std.ExtTreeSet.ofList (plan.writes.map Prod.fst)).toList

def recordKey : Key := txnRecordKey plan.coordinator txn

/-- The record of a decision: an abort names no participants. -/
def record (commit : Bool) : TxnRecord :=
  if commit then
    ⟨txn, plan.coordinator, plan.participants, .committed, plan.dirVersion, plan.digest⟩
  else ⟨txn, plan.coordinator, [], .aborted, 0, plan.digest⟩

def prepare (write : TxnWrite) : Mutation :=
  .txnPrepare txn plan.coordinator write.key write.expect write.kind plan.digest

def finalize (commit : Bool) (write : TxnWrite) : Mutation :=
  .txnFinalize txn write.key commit write plan.digest

/-- One write for each key, and none of a decision record. -/
structure Plain : Prop where
  keys_nodup : (plan.writes.map fun entry ↦ (entry.1, entry.2.key)).Nodup
  keys_user : ∀ entry ∈ plan.writes, parseTxnRecordKey entry.2.key = none

end Plan

/-- Every write set is plain. -/
def Setting.Plain (setting : Setting) : Prop :=
  ∀ txn plan, setting.plans txn = some plan → plan.Plain

/-! ### Reading a record -/

inductive RecordRead where
  | absent
  | unreadable
  | found (record : TxnRecord)
deriving DecidableEq

/-- A point read of a record. -/
def readRecord (store : ObjectStore) (key : Key) (now : WallTimestamp) : RecordRead :=
  match store.get key now with
  | none => .absent
  | some object =>
    match storedRecord (some object) with
    | some record => .found record
    | none => .unreadable

/-! ### Drivers -/

/-- Where a driver is. `count` is the number of writes whose prepare was answered with success;
`commit` tells which decision is being made. -/
inductive DriverPhase where
  | recovering
  | preparing (count : Nat)
  | deciding (commit : Bool) (count : Nat)
  | confirming (commit : Bool) (count : Nat)
  | rereading (commit : Bool) (count : Nat)
  | verifying (count : Nat)
  | committing
  | aborting (count : Nat)
  | done
deriving DecidableEq

structure Driver where
  txn : TxnId
  plan : Plan
  phase : DriverPhase

/-- A mutation for a tablet. -/
abbrev Request := TabletId × Mutation

namespace Driver

variable (setting : Setting) (driver : Driver)

/-- The decide transaction of a driver: salt 0 commits, salt 1 aborts. -/
def decider (commit : Bool) : Decider :=
  ⟨setting.derive driver.txn (if commit then 0 else 1), driver.plan.coordinator, .absent,
    driver.plan.record driver.txn commit⟩

def decidePrepare (commit : Bool) : Request :=
  (driver.plan.coordinator, (driver.decider setting commit).prepare
    (driver.plan.recordKey driver.txn))

def decideFinalize (commit : Bool) : Request :=
  (driver.plan.coordinator, (driver.decider setting commit).finalize
    (driver.plan.recordKey driver.txn))

/-- What the driver may send in its phase; each request may be sent again. -/
def requests : List Request :=
  match driver.phase with
  | .preparing count =>
    (driver.plan.writes[count]?).toList.map fun entry ↦
      (entry.1, driver.plan.prepare driver.txn entry.2)
  | .deciding commit _ => [driver.decidePrepare setting commit]
  | .confirming commit _ => [driver.decideFinalize setting commit]
  | .committing =>
    driver.plan.writes.map fun entry ↦ (entry.1, driver.plan.finalize driver.txn true entry.2)
  | .aborting count =>
    (driver.plan.writes.take count).map fun entry ↦
      (entry.1, driver.plan.finalize driver.txn false entry.2)
  | .recovering | .rereading _ _ | .verifying _ | .done => []

/-- The next phase when the record is not a commit of this write set. -/
def afterOther (read : RecordRead) : DriverPhase :=
  match driver.phase, read with
  | _, .unreadable => .done
  | .recovering, .absent => .preparing 0
  | .recovering, .found record => if record.state = .begun then .preparing 0 else .done
  | .rereading true count, .absent => .deciding false count
  | .rereading true count, .found record =>
    -- A commit of another write set under this identity is not followed.
    if record.state = .committed then .done else .deciding false count
  | .verifying count, _ => .deciding false count
  | _, _ => .done

/-- The next phase after reading the record. -/
def afterRead (read : RecordRead) : DriverPhase :=
  match read with
  | .found record =>
    if record.state = .committed ∧ record.digest = driver.plan.digest then .committing
    else driver.afterOther read
  | _ => driver.afterOther read

/-- The phase after an error, a refusal or a timeout. -/
def afterFailure : DriverPhase :=
  match driver.phase with
  | .preparing count => .deciding false count
  | .deciding commit count | .confirming commit count => .rereading commit count
  | _ => .done

end Driver

/-! ### Resolvers -/

/-- A reservation is left alone for the grace period before a known decision is applied to it.
The saturating differences of the source compare as the exact ones do. -/
def intentFresh (preparedAt now : WallTimestamp) : Bool :=
  decide (now.toInt - preparedAt.toInt < resolveGraceMicros)

def leaseExpired (preparedAt now : WallTimestamp) : Bool :=
  decide (preparedAt.toInt + maxTxnLifetimeMicros < now.toInt)

/-- Where a resolver is. `guarded` holds an undecided record with the version it was read at;
without one, the resolver fences an absent record. -/
inductive ResolverPhase where
  | looking
  | versioning (record : TxnRecord)
  | deciding (guarded : Option (TxnRecord × ObjectVersion))
  | confirming (guarded : Option (TxnRecord × ObjectVersion))
  | finalizing (commit : Bool)
  | done
deriving DecidableEq

/-- A resolver of one reservation, as it was found on its tablet. -/
structure Resolver where
  tablet : TabletId
  intent : TxnIntent
  phase : ResolverPhase

namespace Resolver

variable (setting : Setting) (resolver : Resolver)

def recordKey : Key := txnRecordKey resolver.intent.coordinator resolver.intent.id

/-- The abort a resolver decides: salt 2 on an absent record, salt 3 on an undecided one. -/
def decider : Option (TxnRecord × ObjectVersion) → Decider
  | none =>
    ⟨setting.derive resolver.intent.id 2, resolver.intent.coordinator, .absent,
      ⟨resolver.intent.id, resolver.intent.coordinator, [], .aborted, 0, .zero _⟩⟩
  | some (record, version) =>
    ⟨setting.derive record.id 3, resolver.intent.coordinator, .version version,
      { record with state := .aborted }⟩

/-- The key a resolver decides on. -/
def decideKey : Option (TxnRecord × ObjectVersion) → Key
  | none => resolver.recordKey
  | some (record, _) => txnRecordKey record.coordinator record.id

def decidePrepare (guarded : Option (TxnRecord × ObjectVersion)) : Request :=
  (resolver.intent.coordinator,
    (resolver.decider setting guarded).prepare (resolver.decideKey guarded))

def decideFinalize (guarded : Option (TxnRecord × ObjectVersion)) : Request :=
  (resolver.intent.coordinator,
    (resolver.decider setting guarded).finalize (resolver.decideKey guarded))

def finalize (commit : Bool) : Request :=
  (resolver.tablet, .txnFinalize resolver.intent.id resolver.intent.key commit
    resolver.intent.write resolver.intent.digest)

def requests : List Request :=
  match resolver.phase with
  | .deciding guarded => [resolver.decidePrepare setting guarded]
  | .confirming guarded => [resolver.decideFinalize setting guarded]
  | .finalizing commit => [resolver.finalize commit]
  | .looking | .versioning _ | .done => []

/-- The next phase after reading the record. -/
def afterRead (read : RecordRead) (now : WallTimestamp) : ResolverPhase :=
  match read with
  | .unreadable => .done
  | .absent => if leaseExpired resolver.intent.preparedAt now then .deciding none else .done
  | .found record =>
    match record.state with
    | .committed => if intentFresh resolver.intent.preparedAt now then .done else .finalizing true
    | .aborted => if intentFresh resolver.intent.preparedAt now then .done else .finalizing false
    | .begun => if leaseExpired resolver.intent.preparedAt now then .versioning record else .done

end Resolver

/-! ### The cluster -/

inductive Sender where
  | driver (index : Nat)
  | resolver (index : Nat)
deriving DecidableEq

structure Message where
  sender : Sender
  request : Request
deriving DecidableEq

abbrev Answer := Result ApplyError ApplyOutcome

/-- Whether a commit was applied. -/
def isApplied : Answer → Bool
  | .ok (.txnFinalized applied _) => applied
  | _ => false

abbrev Tablets := Std.ExtTreeMap TabletId ObjectStore

/-- The store of a tablet. -/
def storeOf (tablets : Tablets) (tablet : TabletId) : ObjectStore := tablets.getD tablet .new

/-- What lasts: the tablets now and at every earlier moment, and the answers given so far. -/
structure Ground where
  tablets : Tablets
  history : List Tablets
  answers : List (Message × Answer)

namespace Ground

variable (ground : Ground)

def store (tablet : TabletId) : ObjectStore := storeOf ground.tablets tablet

/-- Replace the store of a tablet, remembering the moment before. -/
def setStore (tablet : TabletId) (store : ObjectStore) : Ground :=
  { ground with
    tablets := ground.tablets.insert tablet store
    history := ground.history ++ [ground.tablets] }

/-- Apply a message at its tablet and answer it. -/
def deliver (message : Message) (now : WallTimestamp) : Ground :=
  let (tablet, mutation) := message.request
  let (answer, store) := (ground.store tablet).apply mutation now
  { ground.setStore tablet store with answers := ground.answers ++ [(message, answer)] }

/-- Whether a request of the sender has had such an answer. -/
def answered (sender : Sender) (request : Request) (good : Answer → Bool) : Bool :=
  ground.answers.any fun entry ↦ decide (entry.1 = ⟨sender, request⟩) && good entry.2

variable (setting : Setting)

/-- The next phase of a driver, on the answers it has and the record as it is now. -/
def nextDriverPhase (index : Nat) (driver : Driver) (now : WallTimestamp) : DriverPhase :=
  match driver.phase with
  | .recovering | .rereading _ _ | .verifying _ =>
    driver.afterRead (readRecord (ground.store driver.plan.coordinator)
      (driver.plan.recordKey driver.txn) now)
  | .preparing count =>
    match driver.plan.writes[count]? with
    | none => .deciding true count
    | some entry =>
      if ground.answered (.driver index) (entry.1, driver.plan.prepare driver.txn entry.2)
          (fun answer ↦ decide (answer = .ok .txnPrepared)) then .preparing (count + 1)
      else .preparing count
  | .deciding commit count =>
    if ground.answered (.driver index) (driver.decidePrepare setting commit)
        (fun answer ↦ decide (answer = .ok .txnPrepared)) then .confirming commit count
    else .deciding commit count
  | .confirming commit count =>
    if ground.answered (.driver index) (driver.decideFinalize setting commit) isApplied then
      if commit then .verifying count else .aborting count
    else .confirming commit count
  | phase => phase

/-- The next phase of a resolver, on the answers it has and the record's version as it is now. -/
def nextResolverPhase (index : Nat) (resolver : Resolver) (now : WallTimestamp) : ResolverPhase :=
  match resolver.phase with
  | .versioning record =>
    match (ground.store resolver.intent.coordinator).get
        (txnRecordKey record.coordinator record.id) now with
    | none => .done
    | some object => .deciding (some (record, object.version))
  | .deciding guarded =>
    if ground.answered (.resolver index) (resolver.decidePrepare setting guarded)
        (fun answer ↦ decide (answer = .ok .txnPrepared)) then .confirming guarded
    else .deciding guarded
  | .confirming guarded =>
    if ground.answered (.resolver index) (resolver.decideFinalize setting guarded) isApplied then
      if guarded.isNone then .finalizing false else .done
    else .confirming guarded
  | phase => phase

end Ground

/-- The cluster: what lasts, the processes and the messages under way. -/
structure Cluster extends Ground where
  drivers : List Driver
  resolvers : List Resolver
  network : List Message

/-- What happens in a cluster: processes start, move on, fail and stop (`crash`, which is also how
they end), messages are sent, delivered and lost, and tablets act on their own. -/
inductive ClusterEvent where
  | start (txn : TxnId)
  | resolve (tablet : TabletId) (key : Key)
  | advance (sender : Sender) (now : WallTimestamp)
  | look (resolver : Nat) (moment : Option Nat) (now : WallTimestamp)
  | fail (sender : Sender)
  | crash (sender : Sender)
  | send (sender : Sender) (position : Nat)
  | deliver (position : Nat) (now : WallTimestamp)
  | lose (position : Nat)
  | act (tablet : TabletId) (event : StoreEvent)

/-- An event of a tablet that is no step of a transaction and names no decision record. -/
def isOrdinary : StoreEvent → Bool
  | .apply (.txnPrepare _ _ _ _ _ _) _ | .apply (.txnFinalize _ _ _ _ _) _ => false
  | .apply mutation _ => mutation.keys.all fun key ↦ (parseTxnRecordKey key).isNone
  | .transferEscrow donor recipient _ _ =>
    (parseTxnRecordKey donor).isNone && (parseTxnRecordKey recipient).isNone
  | .sweepExpired _ _ _ | .setOrderedIndexing _ => true

namespace Cluster

def new : Cluster := ⟨⟨∅, [], []⟩, [], [], []⟩

def setDriver (cluster : Cluster) (index : Nat) (driver : Driver) (phase : DriverPhase) :
    Cluster :=
  { cluster with drivers := cluster.drivers.set index { driver with phase } }

def setResolver (cluster : Cluster) (index : Nat) (resolver : Resolver) (phase : ResolverPhase) :
    Cluster :=
  { cluster with resolvers := cluster.resolvers.set index { resolver with phase } }

variable (setting : Setting)

/-- What a process may send. -/
def requestsOf (cluster : Cluster) : Sender → List Request
  | .driver index => ((cluster.drivers[index]?).map (Driver.requests setting)).getD []
  | .resolver index => ((cluster.resolvers[index]?).map (Resolver.requests setting)).getD []

/-- One step of the cluster. A delivered message stays under way, so it may arrive again. -/
def step (cluster : Cluster) : ClusterEvent → Cluster
  | .start txn =>
    match setting.plans txn with
    | none => cluster
    | some plan => { cluster with drivers := cluster.drivers ++ [⟨txn, plan, .recovering⟩] }
  | .resolve tablet key =>
    match (cluster.store tablet).intents[key]? with
    | none => cluster
    | some intent =>
      { cluster with resolvers := cluster.resolvers ++ [⟨tablet, intent, .looking⟩] }
  | .advance (.driver index) now =>
    match cluster.drivers[index]? with
    | none => cluster
    | some driver =>
      cluster.setDriver index driver (cluster.nextDriverPhase setting index driver now)
  | .advance (.resolver index) now =>
    match cluster.resolvers[index]? with
    | none => cluster
    | some resolver =>
      cluster.setResolver index resolver (cluster.nextResolverPhase setting index resolver now)
  | .look index moment now =>
    match cluster.resolvers[index]?, (cluster.tablets :: cluster.history)[moment.getD 0]? with
    | some resolver, some tablets =>
      if resolver.phase = .looking then
        cluster.setResolver index resolver (resolver.afterRead
          (readRecord (storeOf tablets resolver.intent.coordinator) resolver.recordKey now) now)
      else cluster
    | _, _ => cluster
  | .fail (.driver index) =>
    match cluster.drivers[index]? with
    | none => cluster
    | some driver => cluster.setDriver index driver driver.afterFailure
  | .crash (.driver index) =>
    match cluster.drivers[index]? with
    | none => cluster
    | some driver => cluster.setDriver index driver .done
  | .fail (.resolver index) | .crash (.resolver index) =>
    match cluster.resolvers[index]? with
    | none => cluster
    | some resolver => cluster.setResolver index resolver .done
  | .send sender position =>
    match (cluster.requestsOf setting sender)[position]? with
    | none => cluster
    | some request => { cluster with network := cluster.network ++ [⟨sender, request⟩] }
  | .deliver position now =>
    match cluster.network[position]? with
    | none => cluster
    | some message => { cluster with toGround := cluster.deliver message now }
  | .lose position => { cluster with network := cluster.network.eraseIdx position }
  | .act tablet event =>
    { cluster with toGround := cluster.setStore tablet (event.step (cluster.store tablet)) }

end Cluster

end Kivi.Txn
