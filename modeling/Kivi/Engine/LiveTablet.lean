import Kivi.Consensus.Tablet
import Kivi.State.OrderedIndex

/-!
# The live tablet

A live tablet pairs its store with two commit cursors and with the retry state of its sessions.
Positions are assigned when a request is prepared and applied once its record is durable; an
assignment whose batch fails is rewound. Recovery replays durable records through functions of
their own, which assign and apply in lockstep, and a checkpoint restores store, sessions,
reservations and cursors at once.
-/

namespace Kivi.Engine

open Library Library.CheckedArith State
open Consensus (SessionId RequestSeq CommitPosition MutationIdentity mutationOpcode)

/-- Failures of a live tablet's durable path. -/
inductive TabletError where
  | op (error : OpError)
  | apply (error : ApplyError)
  | commitExhausted (tablet : TabletId)
deriving DecidableEq

inductive RecoveryError where
  | chainBreak (tablet : TabletId) (expected found : CommitPosition)
  | outcomeMismatch (tablet : TabletId) (commit : CommitPosition)
deriving DecidableEq

/-- Answers one session may leave unacknowledged. -/
def sessionOutcomeCap : Nat := 1024

/-- The successor of a commit position, unless positions are exhausted. -/
def nextPosition (position : CommitPosition) : Option CommitPosition := checkedAddU64 position 1

/-! ### Sessions -/

structure DedupEntry where
  commit : CommitPosition
  opcode : UInt8
  outcome : DurableOutcome
deriving DecidableEq

/-- What a session has acknowledged, and the answers retained for it. -/
structure SessionDedup where
  floor : RequestSeq
  outcomes : Std.ExtTreeMap RequestSeq DedupEntry

namespace SessionDedup

def empty : SessionDedup := ⟨0, ∅⟩

/-- Drop the answers an acknowledgement covers. -/
def advanceFloor (state : SessionDedup) (ack : RequestSeq) : SessionDedup :=
  if state.floor < ack then ⟨ack, state.outcomes.filter fun seq _ ↦ decide (ack < seq)⟩ else state

/-- Retain the answer of a sequence. -/
def insert (state : SessionDedup) (seq : RequestSeq) (entry : DedupEntry) : SessionDedup :=
  { state with outcomes := state.outcomes.insert seq entry }

/-- How many answers are retained. -/
def len (state : SessionDedup) : Nat := state.outcomes.size

end SessionDedup

/-- The verdict on a retry identity. -/
inductive IdentityGate where
  | admitted
  | hit (outcome : DurableOutcome) (opcode : UInt8)
  | expired
  | overloaded
deriving DecidableEq

/-! ### The tablet -/

structure LiveTablet where
  id : TabletId
  store : ObjectStore
  nextCommit : CommitPosition
  appliedCommit : CommitPosition
  dedup : Std.ExtTreeMap SessionId SessionDedup

namespace LiveTablet

/-- An empty tablet. -/
def new (id : TabletId) : LiveTablet := ⟨id, .new, 0, 0, ∅⟩

variable (live : LiveTablet)

/-- Check an identity against the floor it would install itself, without changing anything. -/
def checkIdentity (marker : MutationIdentity) : IdentityGate :=
  match live.dedup[marker.client.session]? with
  | none => .admitted
  | some session =>
    let floor := max session.floor marker.ackFloor
    if marker.client.seq ≤ floor then .expired
    else match session.outcomes[marker.client.seq]? with
    | some entry => .hit entry.outcome entry.opcode
    | none => if sessionOutcomeCap ≤ session.len then .overloaded else .admitted

/-- Advance the floor of a session the tablet has seen. -/
def advanceSessionFloor (session : SessionId) (ack : RequestSeq) : LiveTablet :=
  match live.dedup[session]? with
  | none => live
  | some state => { live with dedup := live.dedup.insert session (state.advanceFloor ack) }

/-- Record the answer of a completed identity. -/
def installDedup (session : SessionId) (seq : RequestSeq) (entry : DedupEntry) : LiveTablet :=
  let state := (live.dedup[session]?).getD .empty
  { live with dedup := live.dedup.insert session (state.insert seq entry) }

/-- Record the answer of a request that may carry an identity. -/
def installFor (identity : Option MutationIdentity) (entry : DedupEntry) : LiveTablet :=
  match identity with
  | none => live
  | some marker => live.installDedup marker.client.session marker.client.seq entry

/-- Take the acknowledgement of a request that may carry an identity. -/
def acknowledge (identity : Option MutationIdentity) : LiveTablet :=
  match identity with
  | none => live
  | some marker => live.advanceSessionFloor marker.client.session marker.ackFloor

/-- Assign the next commit position. -/
def assignCommit : Except TabletError CommitPosition × LiveTablet :=
  match nextPosition live.nextCommit with
  | none => (.error (.commitExhausted live.id), live)
  | some next => (.ok next, { live with nextCommit := next })

/-- Give back the positions of a batch that was not persisted. -/
def rewindCommit (base : CommitPosition) : LiveTablet :=
  { live with nextCommit := base }

/-- Commit a persisted mutation. Out of order, or with another answer than the persisted one, it
is fatal. -/
def commitPersisted (mutation : Mutation) (expected : OperationResult) (isPersistExpiry : Bool)
    (identity : Option MutationIdentity) (commit : CommitPosition)
    (now : WallTimestamp) : Result TabletError OperationResult × LiveTablet :=
  if nextPosition live.appliedCommit ≠ some commit then (.panic, live)
  else match live.store.apply mutation now with
  | (.err error, store) => (.err (.apply error), { live with store })
  | (.panic, store) => (.panic, { live with store })
  | (.ok outcome, store) =>
    match outcomeFor mutation outcome isPersistExpiry with
    | none => (.panic, { live with store })
    | some result =>
      if result ≠ expected then (.panic, { live with store })
      else
        (.ok result, { live with store, appliedCommit := commit }.installFor identity
          ⟨commit, mutationOpcode mutation isPersistExpiry, .completed result⟩)

/-- Commit a persisted answer without a mutation. -/
def commitTerminal (outcome : DurableOutcome) (identity : Option MutationIdentity)
    (commit : CommitPosition) (opcode : UInt8) :
    Result TabletError DurableOutcome × LiveTablet :=
  if nextPosition live.appliedCommit ≠ some commit then (.panic, live)
  else
    (.ok outcome, { live with appliedCommit := commit }.installFor identity
      ⟨commit, opcode, outcome⟩)

/-! ### Recovery -/

/-- The position a replayed record must carry. -/
def checkChain (commit : CommitPosition) : Except RecoveryError Unit :=
  match nextPosition live.appliedCommit with
  | none => .error (.chainBreak live.id maxU64 commit)
  | some expected =>
    if commit ≠ expected then .error (.chainBreak live.id expected commit) else .ok ()

/-- Replay a mutation record at its recorded time. Panics of the apply stay panics. -/
def applyRecoveredMutation (mutation : Mutation) (expected : OperationResult)
    (isPersistExpiry : Bool) (commit : CommitPosition) (identity : Option MutationIdentity)
    (now : WallTimestamp) : Result RecoveryError Unit × LiveTablet :=
  match live.checkChain commit with
  | .error error => (.err error, live)
  | .ok _ =>
    match live.store.apply mutation now with
    | (.err _, store) => (.err (.outcomeMismatch live.id commit), { live with store })
    | (.panic, store) => (.panic, { live with store })
    | (.ok outcome, store) =>
      match outcomeFor mutation outcome isPersistExpiry with
      | none => (.panic, { live with store })
      | some result =>
        if result ≠ expected then
          (.err (.outcomeMismatch live.id commit), { live with store })
        else
          let live := { live with store, nextCommit := commit, appliedCommit := commit }
          let entry : DedupEntry :=
            ⟨commit, mutationOpcode mutation isPersistExpiry, .completed result⟩
          (.ok (), (live.installFor identity entry).acknowledge identity)

/-- Replay an answer without a mutation. -/
def installRecoveredOutcome (outcome : DurableOutcome) (commit : CommitPosition)
    (identity : Option MutationIdentity) (opcode : UInt8) :
    Result RecoveryError Unit × LiveTablet :=
  match live.checkChain commit with
  | .error error => (.err error, live)
  | .ok _ =>
    let live := { live with nextCommit := commit, appliedCommit := commit }
    (.ok (), (live.installFor identity ⟨commit, opcode, outcome⟩).acknowledge identity)

/-! ### Checkpoints -/

/-- A checkpoint of a tablet at its applied position. -/
structure TabletSnapshot where
  cut : CommitPosition
  objects : List (Key × StoredObject)
  sessions : List (SessionId × RequestSeq × List (RequestSeq × DedupEntry))
  intents : List TxnIntent

/-- Capture everything that is applied. -/
def captureView : TabletSnapshot where
  cut := live.appliedCommit
  objects := live.store.objects.toList
  sessions := live.dedup.toList.map fun (session, state) ↦
    (session, state.floor, state.outcomes.toList)
  intents := live.store.intents.toList.map Prod.snd

/-- The session state that restored answers make up. -/
def restoreSession (floor : RequestSeq) (outcomes : List (RequestSeq × DedupEntry)) :
    SessionDedup :=
  outcomes.foldl (fun state item ↦ state.insert item.1 item.2)
    (SessionDedup.empty.advanceFloor floor)

/-- Install a checkpoint: objects, reservations, sessions and both cursors. -/
def restoreCheckpoint (restored : TabletSnapshot) : LiveTablet :=
  let store := restored.objects.foldl (fun store item ↦ store.putStored item.1 item.2) live.store
  let store := restored.intents.foldl ObjectStore.insertIntent store
  let dedup := restored.sessions.foldl
    (fun dedup item ↦ dedup.insert item.1 (restoreSession item.2.1 item.2.2)) live.dedup
  { live with store, dedup, nextCommit := restored.cut, appliedCommit := restored.cut }

/-! ### Sweeps -/

/-- Reclaim expired objects, passing over the keys in `skip`. No record is logged. -/
def sweepExpired (live : LiveTablet) (now : WallTimestamp) (limit : Nat)
    (skip : Std.ExtTreeSet Key) : LiveTablet :=
  { live with store := (live.store.sweepExpired now limit skip).2 }

end LiveTablet

end Kivi.Engine
