import Kivi.Engine.Overlay

/-!
# The commit coordinator

A worker owns several live tablets and commits their requests in groups. Admitted requests wait
in one queue. A poll answers what needs no log record, prepares the rest into the open batch, and
may seal that batch and hand it to the durability lane; while a batch is in flight no other is
prepared. When the lane reports, the batch is applied in order or its positions are rewound.

`Worker` is the coordinator with its tablets, and beside them what an observer sees: the replies
sent, the records that are durable and the members of failed batches. Time and batch limits only
decide how far a poll prepares and whether it seals, so both choices are left to the event. A
panic ends the worker.
-/

namespace Kivi.Engine

open Library State
open Consensus (SessionId CommitPosition RequestIdentity MutationIdentity)

/-! ### Requests -/

/-- The protocol's number for an operation. -/
def operationOpcode : Operation → UInt8
  | .get _ => 1
  | .set _ _ | .setChunked _ _ _ | .setFabric _ _ _ _ => 2
  | .delete _ => 3
  | .exists _ => 4
  | .counterGet _ => 5
  | .counterAdd _ _ => 6
  | .expireAt _ _ => 7
  | .persistExpiry _ => 8
  | .getExpiry _ => 9
  | .setRange _ _ _ => 10
  | .getRange _ _ _ => 12
  | .bytesLength _ => 13
  | .setConditional _ _ _ _ | .setConditionalChunked _ _ _ _ _
  | .setConditionalFabric _ _ _ _ _ _ => 14
  | .txnCommitLocal _ _ => 16
  | .txnPrepare _ _ _ _ => 17
  | .txnFinalize _ _ _ _ _ => 18
  | .getVersion _ => 19
  | .commutativeGet _ => 20
  | .commutativeAdd _ _ => 21
  | .boundedCounterCreate _ _ _ => 22
  | .boundedCounterAdd _ _ => 23
  | .boundedCounterGet _ => 24
  | .escrowTransfer _ _ _ => 25
  | .semaphoreCreate _ _ => 26
  | .semaphoreAcquire _ _ _ _ => 27
  | .semaphoreRelease _ _ => 28
  | .semaphoreInspect _ => 29
  | .leaseAcquire _ _ _ => 30
  | .leaseRenew _ _ _ _ => 31
  | .leaseRelease _ _ _ => 32
  | .leaseInspect _ => 33
  | .streamCreate _ _ _ => 34
  | .streamAppend _ _ _ => 35
  | .streamRead _ _ _ => 36
  | .streamTrim _ _ => 37

/-- An admitted request. The address its reply goes to names it. -/
structure PendingEntry where
  tablet : TabletId
  op : Operation
  now : WallTimestamp
  identity : Option MutationIdentity
  rangeFence : Option (RangeRootFence ChunkedRef)
  respond : Nat

inductive WorkerRequestError where
  | unknownTablet (tablet : TabletId)
  | tablet (error : TabletError)
  | dedupExpired
  | sessionOverloaded
  | storage
deriving DecidableEq

abbrev WorkerResponse := Except WorkerRequestError OperationResult

/-- The reply a retained answer stands for. -/
def mapTerminal : DurableOutcome → WorkerResponse
  | .completed result => .ok result
  | .rejected error => .error (.tablet (.op error))
  | .versionExhausted => .error (.tablet (.apply .versionExhausted))

/-! ### Batches -/

/-- How a batch member completes once it is durable. -/
inductive PreparedKind where
  | mutation (mutation : Mutation) (expected : OperationResult) (isPersistExpiry : Bool)
  | terminal (outcome : DurableOutcome) (opcode : UInt8)
deriving DecidableEq

structure ApplyData where
  tablet : TabletId
  commit : CommitPosition
  kind : PreparedKind
  identity : Option MutationIdentity
  now : WallTimestamp
  respond : Nat
deriving DecidableEq

/-- A record of the log: a mutation with its predicted result, or an answer alone. -/
inductive WalRecord where
  | mutation (tablet : TabletId) (commit : CommitPosition) (now : WallTimestamp)
      (identity : Option MutationIdentity) (mutation : Mutation) (expected : OperationResult)
  | outcome (tablet : TabletId) (commit : CommitPosition) (identity : Option MutationIdentity)
      (opcode : UInt8) (outcome : DurableOutcome)
deriving DecidableEq

/-- The record that is logged for a batch member. -/
def ApplyData.record (apply : ApplyData) : WalRecord :=
  match apply.kind with
  | .mutation mutation expected _ =>
    .mutation apply.tablet apply.commit apply.now apply.identity mutation expected
  | .terminal outcome opcode =>
    .outcome apply.tablet apply.commit apply.identity opcode outcome

structure OpenBatch where
  applies : List ApplyData
  overlays : Std.ExtTreeMap TabletId TabletOverlay
  commitBase : Std.ExtTreeMap TabletId CommitPosition

def OpenBatch.empty : OpenBatch := ⟨[], ∅, ∅⟩

structure InflightBatch where
  applies : List ApplyData
  commitBase : Std.ExtTreeMap TabletId CommitPosition

structure CommitCoordinator where
  queue : List PendingEntry
  openBatch : Option OpenBatch
  inflight : Option InflightBatch
  unappliedIdentities : List RequestIdentity
  unappliedSessions : Std.ExtTreeMap SessionId Nat

namespace CommitCoordinator

def new : CommitCoordinator := ⟨[], none, none, [], ∅⟩

/-- A request must wait: its tablet has a batch in flight, or its identity is in a batch that is
not applied yet. -/
def isHeld (coordinator : CommitCoordinator) (tablet : TabletId)
    (identity : Option MutationIdentity) : Bool :=
  (match coordinator.inflight with
    | some batch => batch.applies.any fun apply ↦ decide (apply.tablet = tablet)
    | none => false) ||
  (match identity with
    | some marker => coordinator.unappliedIdentities.contains marker.client
    | none => false)

/-- Enter an identity that was prepared. -/
def noteIdentity (coordinator : CommitCoordinator) (identity : Option MutationIdentity) :
    CommitCoordinator :=
  match identity with
  | none => coordinator
  | some marker =>
    { coordinator with
      unappliedIdentities := coordinator.unappliedIdentities.insert marker.client
      unappliedSessions := coordinator.unappliedSessions.insert marker.client.session
        ((coordinator.unappliedSessions[marker.client.session]?).getD 0 + 1) }

/-- Remove an identity that was applied or failed. -/
def forgetIdentity (coordinator : CommitCoordinator) (identity : Option MutationIdentity) :
    CommitCoordinator :=
  match identity with
  | none => coordinator
  | some marker =>
    { coordinator with
      unappliedIdentities := coordinator.unappliedIdentities.filter (· ≠ marker.client)
      unappliedSessions :=
        match coordinator.unappliedSessions[marker.client.session]? with
        | none => coordinator.unappliedSessions
        | some count =>
          if count - 1 = 0 then coordinator.unappliedSessions.erase marker.client.session
          else coordinator.unappliedSessions.insert marker.client.session (count - 1) }

end CommitCoordinator

/-! ### The worker -/

structure Worker where
  ids : List TabletId
  tablets : Std.ExtTreeMap TabletId LiveTablet
  coordinator : CommitCoordinator
  nextRequest : Nat
  replies : List (Nat × WorkerResponse)
  log : List ApplyData
  failed : List ApplyData
  halted : Bool

/-- A worker with these tablets, all empty. -/
def Worker.new (ids : List TabletId) : Worker :=
  ⟨ids, .ofList (ids.map fun id ↦ (id, LiveTablet.new id)), .new, 0, [], [], [], false⟩

namespace Worker

variable (worker : Worker)

def reply (respond : Nat) (response : WorkerResponse) : Worker :=
  { worker with replies := worker.replies ++ [(respond, response)] }

def setTablet (live : LiveTablet) : Worker :=
  { worker with tablets := worker.tablets.insert live.id live }

/-- A panic ends the worker. -/
def halt : Worker := { worker with halted := true }

def setOpen (batch : OpenBatch) : Worker :=
  { worker with coordinator := { worker.coordinator with openBatch := some batch } }

/-- Put a request at the end of the queue. -/
def admitEntry (tablet : TabletId) (op : Operation) (now : WallTimestamp)
    (identity : Option MutationIdentity) (rangeFence : Option (RangeRootFence ChunkedRef)) :
    Worker :=
  let entry : PendingEntry := ⟨tablet, op, now, identity, rangeFence, worker.nextRequest⟩
  { worker with
    nextRequest := worker.nextRequest + 1
    coordinator := { worker.coordinator with queue := worker.coordinator.queue ++ [entry] } }

/-- Put requests back at the end of the queue. -/
def requeue (entries : List PendingEntry) : Worker :=
  { worker with
    coordinator := { worker.coordinator with queue := worker.coordinator.queue ++ entries } }

/-! ### Fast paths -/

/-- What is answered without a record: reads, unknown tablets and settled identities. A fabric read
is answered by its reference; fetching the bytes is left out. -/
def fastAnswer (tablets : Std.ExtTreeMap TabletId LiveTablet) (entry : PendingEntry) :
    Option WorkerResponse :=
  match tablets[entry.tablet]? with
  | none => some (.error (.unknownTablet entry.tablet))
  | some live =>
    if entry.op.isMutating then
      match entry.identity.map live.checkIdentity with
      | none | some .admitted => none
      | some .expired => some (.error .dedupExpired)
      | some (.hit outcome _) => some (mapTerminal outcome)
      | some .overloaded => some (.error .sessionOverloaded)
    else
      (live.store.prepareRead entry.now entry.op).map fun
        | .ok result => .ok result
        | .error error => .error (.tablet (.op error))

/-- Answer what needs no record; the rest stays queued in order. -/
def answerFastPaths : Worker :=
  let queue := worker.coordinator.queue
  { worker with
    coordinator := { worker.coordinator with
      queue := queue.filter fun entry ↦ (fastAnswer worker.tablets entry).isNone }
    replies := worker.replies ++ queue.filterMap fun entry ↦
      (fastAnswer worker.tablets entry).map fun response ↦ (entry.respond, response) }

/-! ### Preparation -/

/-- Whether the session may leave no further answer: those retained and those of members not
applied yet fill its window. -/
def sessionFull (live : LiveTablet) (identity : Option MutationIdentity) : Bool :=
  match identity with
  | none => false
  | some marker =>
    let session := marker.client.session
    let retained := ((live.dedup[session]?).map SessionDedup.len).getD 0
    let unapplied := (worker.coordinator.unappliedSessions[session]?).getD 0
    decide (sessionOutcomeCap ≤ retained + unapplied)

/-- Whether a fenced request still finds its root, as the open batch shows it. None where the
request has no key. -/
def fenceHolds (live : LiveTablet) (entry : PendingEntry) : Option Bool :=
  match entry.rangeFence with
  | none => some true
  | some fence => entry.op.key.map fun key ↦
    let overlay := worker.coordinator.openBatch.bind fun batch ↦ batch.overlays[entry.tablet]?
    fence.matches <| match overlay with
      | none => live.store.get key entry.now
      | some overlay => overlay.effectiveObject live.store key entry.now

/-- How a prepared request completes. A read has no place in a batch. -/
def preparedKind (op : Operation) : StorePrepared → Option PreparedKind
  | .read _ => none
  | .write mutation expected => some (.mutation mutation expected op.isPersistExpiry)
  | .terminal outcome => some (.terminal outcome (operationOpcode op))

/-- Prepare a request into the open batch: stage it over the tablet's overlay, assign its
position and add it. -/
def prepareIntoOpen (live : LiveTablet) (entry : PendingEntry) : Worker :=
  let batch := worker.coordinator.openBatch.getD .empty
  let overlay := (batch.overlays[live.id]?).getD .empty
  match overlay.prepareEntry live.store entry.op entry.now with
  | (.panic, _) => worker.halt
  | (.err error, overlay) =>
    let batch := { batch with overlays := batch.overlays.insert live.id overlay }
    (worker.setOpen batch).reply entry.respond (.error (.tablet error))
  | (.ok prepared, overlay) =>
    let batch := { batch with
      overlays := batch.overlays.insert live.id overlay
      commitBase := batch.commitBase.insertIfNew live.id live.nextCommit }
    match live.assignCommit, preparedKind entry.op prepared with
    | (.error error, _), _ =>
      (worker.setOpen batch).reply entry.respond (.error (.tablet error))
    | (.ok _, _), none => worker.halt
    | (.ok commit, assigned), some kind =>
      let apply : ApplyData := ⟨live.id, commit, kind, entry.identity, entry.now, entry.respond⟩
      let worker := (worker.setOpen { batch with applies := batch.applies ++ [apply] }).setTablet
        assigned
      { worker with coordinator := worker.coordinator.noteIdentity entry.identity }

/-- Prepare a request that is not held. -/
def prepareQueued (entry : PendingEntry) : Worker :=
  match worker.tablets[entry.tablet]? with
  | none => worker.halt
  | some live =>
    if worker.sessionFull live entry.identity then
      worker.reply entry.respond (.error .sessionOverloaded)
    else match worker.fenceHolds live entry with
    | none => worker.halt
    | some false => worker.reply entry.respond (.error (.tablet (.op .staleRangeBase)))
    | some true => worker.prepareIntoOpen live entry

/-- Go through the queue in order until the batch is full. Held requests keep their place. -/
def prepareMutations (full : Nat → Bool) : Nat → List PendingEntry → Worker → Worker
  | _, [], worker => worker
  | index, entry :: rest, worker =>
    if worker.halted then worker
    else if worker.coordinator.openBatch.isSome && full index then worker.requeue (entry :: rest)
    else if worker.coordinator.isHeld entry.tablet entry.identity then
      prepareMutations full (index + 1) rest (worker.requeue [entry])
    else prepareMutations full (index + 1) rest (worker.prepareQueued entry)

/-- Hand the open batch to the lane; an empty one stays open. -/
def sealOpen : Worker :=
  match worker.coordinator.openBatch with
  | none => worker
  | some batch =>
    if batch.applies.isEmpty then worker
    else
      { worker with coordinator := { worker.coordinator with
        openBatch := none
        inflight := some ⟨batch.applies, batch.commitBase⟩ } }

/-- One poll, without the completions: fast paths, and with no batch in flight the preparation of
what is queued, sealed if that is due. -/
def poll (full : Nat → Bool) (due : Bool) : Worker :=
  let answered := worker.answerFastPaths
  if answered.coordinator.inflight.isSome then answered
  else
    let emptied := { answered with coordinator := { answered.coordinator with queue := [] } }
    let prepared := prepareMutations full 0 answered.coordinator.queue emptied
    if due && !prepared.halted then prepared.sealOpen else prepared

/-! ### Completion -/

/-- Apply one durable member and form its reply. None is a panic. -/
def applyItem (live : LiveTablet) (apply : ApplyData) : Option (LiveTablet × WorkerResponse) :=
  match apply.kind with
  | .mutation mutation expected isPersistExpiry =>
    match live.commitPersisted mutation expected isPersistExpiry apply.identity apply.commit
        apply.now with
    | (.ok result, live) => some (live.acknowledge apply.identity, .ok result)
    | _ => none
  | .terminal outcome opcode =>
    match live.commitTerminal outcome apply.identity apply.commit opcode with
    | (.ok outcome, live) => some (live.acknowledge apply.identity, mapTerminal outcome)
    | _ => none

/-- The batch is durable: apply its members in order. -/
def applyBatch : List ApplyData → Worker → Worker
  | [], worker => worker
  | apply :: rest, worker =>
    let forgotten := { worker with
      coordinator := worker.coordinator.forgetIdentity apply.identity }
    match worker.tablets[apply.tablet]?.bind (applyItem · apply) with
    | none => forgotten.halt
    | some (live, response) =>
      applyBatch rest ((forgotten.setTablet live).reply apply.respond response)

/-- Give back the position of one member of a failed batch and report the failure. -/
def rewindOne (commitBase : Std.ExtTreeMap TabletId CommitPosition) (worker : Worker)
    (apply : ApplyData) : Worker :=
  let forgotten := { worker with
    coordinator := worker.coordinator.forgetIdentity apply.identity }
  let rewound := match commitBase[apply.tablet]?, worker.tablets[apply.tablet]? with
    | some base, some live => forgotten.setTablet (live.rewindCommit base)
    | _, _ => forgotten
  rewound.reply apply.respond (.error .storage)

/-- The batch failed: every member is rewound, in order. -/
def rewindBatch (commitBase : Std.ExtTreeMap TabletId CommitPosition) :
    List ApplyData → Worker → Worker
  | [], worker => worker
  | apply :: rest, worker => rewindBatch commitBase rest (rewindOne commitBase worker apply)

/-- The lane reports on the batch in flight. -/
def applyCompletion (durable : Bool) : Worker :=
  match worker.coordinator.inflight with
  | none => worker
  | some batch =>
    let taken := { worker with coordinator := { worker.coordinator with inflight := none } }
    if durable then
      applyBatch batch.applies { taken with log := taken.log ++ batch.applies }
    else
      rewindBatch batch.commitBase batch.applies
        { taken with failed := taken.failed ++ batch.applies }

/-! ### Sweeps -/

/-- The keys in use by queued, open or in-flight requests. None where a queued request has no
key. -/
def touchedKeys (coordinator : CommitCoordinator) : Option (List Key) :=
  let queued := (coordinator.queue.filter (·.op.isMutating)).mapM (·.op.key)
  let staged := match coordinator.openBatch with
    | none => []
    | some batch => batch.overlays.toList.flatMap fun (_, overlay) ↦ overlay.pending.keys
  let inflight := match coordinator.inflight with
    | none => []
    | some batch => batch.applies.flatMap fun apply ↦
      match apply.kind with
      | .mutation mutation _ _ => mutation.keys
      | .terminal _ _ => []
  queued.map (· ++ staged ++ inflight)

/-- Sweep every tablet, passing over the keys in use. -/
def sweep (now : WallTimestamp) (limit : Nat) : Worker :=
  match touchedKeys worker.coordinator with
  | none => worker.halt
  | some keys =>
    { worker with
      tablets := worker.tablets.map fun _ live ↦ live.sweepExpired now limit (.ofList keys) }

/-! ### Crash and recovery -/

/-- Replay one record of the log. -/
def replayRecord (live : LiveTablet) : WalRecord → Result RecoveryError Unit × LiveTablet
  | .mutation _ commit now identity mutation expected =>
    live.applyRecoveredMutation mutation expected (isPersistExpiry mutation) commit identity now
  | .outcome _ commit identity opcode outcome =>
    live.installRecoveredOutcome outcome commit identity opcode

/-- Replay records in order; none when one of them fails. -/
def replay : List WalRecord → LiveTablet → Option LiveTablet
  | [], live => some live
  | record :: rest, live =>
    match replayRecord live record with
    | (.ok _, live) => replay rest live
    | _ => none

/-- The records of one tablet, in log order. -/
def recordsOf (log : List ApplyData) (tablet : TabletId) : List WalRecord :=
  (log.filter fun apply ↦ decide (apply.tablet = tablet)).map ApplyData.record

/-- The tablets as the log leaves them; none when the recovery of one fails. -/
def recover (ids : List TabletId) (log : List ApplyData) : Option (List (TabletId × LiveTablet)) :=
  ids.mapM fun id ↦ (replay (recordsOf log id) (.new id)).map fun live ↦ (id, live)

/-- The process ends and starts again from the log. The batch in flight is durable or lost;
everything else in memory is gone. A recovery that fails does not start. -/
def crash (persisted : Bool) : Worker :=
  let inflight := (worker.coordinator.inflight.map InflightBatch.applies).getD []
  let log := if persisted then worker.log ++ inflight else worker.log
  let down := { worker with coordinator := .new, log }
  match recover worker.ids log with
  | some tablets => { down with tablets := .ofList tablets, halted := false }
  | none => { down with tablets := ∅, halted := true }

/-! ### Runs -/

inductive Event where
  | admitEntry (tablet : TabletId) (op : Operation) (now : WallTimestamp)
      (identity : Option MutationIdentity) (rangeFence : Option (RangeRootFence ChunkedRef))
  | poll (full : Nat → Bool) (due : Bool)
  | complete (durable : Bool)
  | sweep (now : WallTimestamp) (limit : Nat)
  | crash (persisted : Bool)

/-- One event. A worker that ended can only start again. -/
def step (event : Event) : Worker :=
  match worker.halted, event with
  | _, .crash persisted => worker.crash persisted
  | true, _ => worker
  | false, .admitEntry tablet op now identity rangeFence =>
    worker.admitEntry tablet op now identity rangeFence
  | false, .poll full due => worker.poll full due
  | false, .complete durable => worker.applyCompletion durable
  | false, .sweep now limit => worker.sweep now limit

end Worker

end Kivi.Engine
