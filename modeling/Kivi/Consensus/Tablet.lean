import Kivi.State.PrepareDurable

/-!
# The replicated tablet

Every replica of a tablet applies the same committed entries to its own store. An entry carries
the mutation together with the answer its leader predicted; applying it recomputes the answer and
faults when the two differ. Commands of identified clients leave their answer behind, so that a
retry is answered without executing it again.
-/

namespace Kivi.Consensus

open Library Library.CheckedArith Library.Bytes State

abbrev NamespaceId := UInt64
abbrev RequestSeq := UInt64
abbrev sessionIdBits : Nat := 128
abbrev SessionId := BitVec sessionIdBits
abbrev CommitPosition := UInt64

/-- Answers one session may leave unacknowledged. -/
def sessionOutcomeCap : Nat := 1024

/-- The session of commands without a retry contract. -/
def anonymousSession : SessionId := 0

/-- The identity of the system control group, which no tablet has. -/
def controlTabletRaw : TabletId := maxU64

/-! ### Authority -/

structure TabletAuthority where
  tablet : TabletId
  epoch : UInt64
  guard : UInt64
deriving DecidableEq

inductive AuthorityMismatch where
  | wrongTablet (presented current : TabletId)
  | staleEpoch (presented current : UInt64)
  | staleGuard (presented current : UInt64)
deriving DecidableEq

/-- The first mismatch in the order tablet, epoch, guard. -/
def TabletAuthority.checkAgainst (presented current : TabletAuthority) :
    Except AuthorityMismatch Unit :=
  if presented.tablet ≠ current.tablet then
    .error (.wrongTablet presented.tablet current.tablet)
  else if presented.epoch ≠ current.epoch then
    .error (.staleEpoch presented.epoch current.epoch)
  else if presented.guard ≠ current.guard then
    .error (.staleGuard presented.guard current.guard)
  else .ok ()

/-! ### Commands -/

structure RequestIdentity where
  session : SessionId
  seq : RequestSeq
deriving DecidableEq

/-- A retryable request and the sequence its client has acknowledged. -/
structure MutationIdentity where
  client : RequestIdentity
  ackFloor : RequestSeq
deriving DecidableEq

structure MutationEnvelope where
  namespaceId : NamespaceId
  authority : TabletAuthority
  client : RequestIdentity
  idempotency : Option (FixedBytes 16)
  operation : Mutation
deriving DecidableEq

/-- A mutation on its way through the log, with the answer its leader predicted. -/
structure ReplicatedMutation where
  envelope : MutationEnvelope
  expected : OperationResult
  now : WallTimestamp
  ackFloor : RequestSeq
deriving DecidableEq

inductive ConsensusCommand where
  | tablet (command : ReplicatedMutation)
  | control
  | readSync (tablet : TabletId)
deriving DecidableEq

structure LogId where
  term : UInt64
  leader : UInt64
  index : UInt64
deriving DecidableEq

inductive EntryPayload where
  | blank
  | membership
  | normal (command : ConsensusCommand)
deriving DecidableEq

/-- The answer of an applied entry; entries no client waits for have none. -/
abbrev ReplicatedOutcome := Option OperationResult

inductive StateMachineFault where
  | divergence (index : UInt64) (expected found : OperationResult)
  | dedupDivergence (index : UInt64) (retained expected : OperationResult)
  | misrouted (namespaceId : NamespaceId) (tablet : TabletId) (expectedNamespace : NamespaceId)
      (expectedTablet : TabletId)
  | authorityMismatch (mismatch : AuthorityMismatch)
  | expiredIdentity (session : SessionId) (seq floor : RequestSeq) (index : UInt64)
  | sessionOverloaded (session : SessionId) (index : UInt64)
  | applyFailed (index : UInt64) (error : ApplyError)
  | corruptState (session : SessionId) (seq : RequestSeq)
  | unhealthy
  | wrongGroup (index : UInt64)
deriving DecidableEq

/-! ### Sessions -/

structure RetainedOutcome where
  commit : CommitPosition
  opcode : UInt8
  outcome : DurableOutcome
deriving DecidableEq

/-- What a session has acknowledged, and the answers above that floor. -/
structure SessionState where
  floor : RequestSeq
  outcomes : Std.ExtTreeMap RequestSeq RetainedOutcome

namespace SessionState

/-- A session that has answered nothing. -/
def initial : SessionState := ⟨0, ∅⟩

/-- Drop the answers an acknowledgement covers. -/
def advanceFloor (state : SessionState) (ack : RequestSeq) : SessionState :=
  if state.floor < ack then ⟨ack, state.outcomes.filter fun seq _ ↦ decide (ack < seq)⟩ else state

/-- Answers that remain above `floor`. -/
def retainedAfter (state : SessionState) (floor : RequestSeq) : Nat :=
  (state.outcomes.keys.filter fun seq ↦ decide (floor < seq)).length

end SessionState

/-- The request opcode whose response an applied mutation answers in. -/
def mutationOpcode (mutation : Mutation) (isPersistExpiry : Bool) : UInt8 :=
  match mutation with
  | .putBytes _ _ | .replaceChunkedRoot _ _ _ | .replaceFabricRoot _ _ _ _ => 2
  | .putBytesWithExpiry _ _ _ | .replaceChunkedRootWithExpiry _ _ _ _
  | .replaceFabricRootWithExpiry _ _ _ _ _ => 14
  | .spliceBytes _ _ _ => 10
  | .delete _ => 3
  | .counterAdd _ _ => 6
  | .setExpiry _ _ => if isPersistExpiry then 8 else 7
  | .txnPrepare _ _ _ _ _ _ | .txnFinalize _ _ _ _ _ | .txnCommitLocal _ _ => 16
  | .commutativeAdd _ _ => 21
  | .boundedCreate _ _ _ => 22
  | .boundedAdd _ _ => 23
  | .escrowSetShare _ _ _ => 25
  | .semaphoreCreate _ _ => 26
  | .semaphoreAcquire _ _ _ _ => 27
  | .semaphoreRelease _ _ => 28
  | .leaseAcquire _ _ _ _ => 30
  | .leaseRenew _ _ _ _ => 31
  | .leaseRelease _ _ _ => 32
  | .streamCreate _ _ _ => 34
  | .streamAppend _ _ _ => 35
  | .streamTrim _ _ => 37

/-- Log indexes start at zero, commit positions at one. -/
def commitOfIndex (index : UInt64) : CommitPosition := saturatingAddU64 index 1

/-! ### The tablet -/

/-- One replica. It is not the control group, and its authority is for its own tablet. -/
structure ReplicatedTablet where
  namespaceId : NamespaceId
  tablet : TabletId
  authority : TabletAuthority
  store : ObjectStore
  sessions : Std.ExtTreeMap SessionId SessionState
  applied : Option LogId
  tablet_ne_control : tablet ≠ controlTabletRaw
  authority_tablet : authority.tablet = tablet

inductive ProposalGate where
  | admitted
  | hit (outcome : OperationResult)
  | expired
  | overloaded
deriving DecidableEq

namespace ReplicatedTablet

/-- An empty replica. -/
def new (namespaceId : NamespaceId) (authority : TabletAuthority)
    (hcontrol : authority.tablet ≠ controlTabletRaw) : ReplicatedTablet :=
  ⟨namespaceId, authority.tablet, authority, .new, ∅, none, hcontrol, rfl⟩

variable (tablet : ReplicatedTablet)

/-- The leader's verdict on a request's identity, before anything is proposed. -/
def checkProposal (session : SessionId) (seq ackFloor : RequestSeq) :
    Except StateMachineFault ProposalGate :=
  match tablet.sessions[session]? with
  | none => .ok .admitted
  | some state =>
    let floor := max state.floor ackFloor
    if seq ≤ floor then .ok .expired
    else match state.outcomes[seq]? with
    | some ⟨_, _, .completed result⟩ => .ok (.hit result)
    | some _ => .error (.corruptState session seq)
    | none =>
      if sessionOutcomeCap ≤ state.retainedAfter floor then .ok .overloaded else .ok .admitted

/-- What the leader would propose for an operation in the state it has applied. -/
def prepareOperation (op : Operation) (now : WallTimestamp) : Result OpError StorePrepared :=
  tablet.store.prepareDurable now op

/-- The retained answer of an identity, or none when the command is to be executed. -/
def dedupLookup (session : SessionId) (seq ackFloor : RequestSeq) (index : UInt64) :
    Except StateMachineFault (Option OperationResult) :=
  match tablet.sessions[session]? with
  | none => .ok none
  | some state =>
    let floor := max state.floor ackFloor
    if seq ≤ floor then .error (.expiredIdentity session seq floor index)
    else match state.outcomes[seq]? with
    | none =>
      if sessionOutcomeCap ≤ state.retainedAfter floor then
        .error (.sessionOverloaded session index)
      else .ok none
    | some ⟨_, _, .completed result⟩ => .ok (some result)
    | some _ => .error (.corruptState session seq)

/-- Execute a command and compare its answer with the predicted one. The store keeps what the
execution did to it even when the comparison fails. -/
def applyFresh (index : UInt64) (command : ReplicatedMutation) :
    Result StateMachineFault OperationResult × ReplicatedTablet :=
  let mutation := command.envelope.operation
  match tablet.store.apply mutation command.now with
  | (.err error, store) => (.err (.applyFailed index error), { tablet with store })
  | (.panic, store) => (.panic, { tablet with store })
  | (.ok outcome, store) =>
    match outcomeFor mutation outcome (isPersistExpiry mutation) with
    | none => (.panic, { tablet with store })
    | some result =>
      if result = command.expected then (.ok result, { tablet with store })
      else (.err (.divergence index command.expected result), { tablet with store })

/-- Retain an answer for retries, after dropping what the client has acknowledged. -/
def install (index : UInt64) (command : ReplicatedMutation) (result : OperationResult) :
    ReplicatedTablet :=
  let client := command.envelope.client
  let mutation := command.envelope.operation
  let state := ((tablet.sessions[client.session]?).getD .initial).advanceFloor command.ackFloor
  let retained : RetainedOutcome :=
    ⟨commitOfIndex index, mutationOpcode mutation (isPersistExpiry mutation), .completed result⟩
  { tablet with
    sessions := tablet.sessions.insert client.session
      { state with outcomes := state.outcomes.insert client.seq retained } }

/-- Answer a retry from its retained answer, or execute the command and retain its answer. -/
def applyIdentified (index : UInt64) (command : ReplicatedMutation) :
    Result StateMachineFault OperationResult × ReplicatedTablet :=
  let client := command.envelope.client
  match tablet.dedupLookup client.session client.seq command.ackFloor index with
  | .error fault => (.err fault, tablet)
  | .ok (some retained) =>
    if retained = command.expected then (.ok retained, tablet)
    else (.err (.dedupDivergence index retained command.expected), tablet)
  | .ok none =>
    match tablet.applyFresh index command with
    | (.ok result, after) => (.ok result, after.install index command result)
    | (.err fault, after) => (.err fault, after)
    | (.panic, after) => (.panic, after)

/-- Apply one committed command. -/
def applyCommand (index : UInt64) (command : ReplicatedMutation) :
    Result StateMachineFault OperationResult × ReplicatedTablet :=
  let envelope := command.envelope
  let client := envelope.client
  if envelope.namespaceId ≠ tablet.namespaceId ∨ envelope.authority.tablet ≠ tablet.tablet then
    (.err (.misrouted envelope.namespaceId envelope.authority.tablet tablet.namespaceId
      tablet.tablet), tablet)
  else match envelope.authority.checkAgainst tablet.authority with
  | .error mismatch => (.err (.authorityMismatch mismatch), tablet)
  | .ok _ =>
    -- Anonymous commands have no retry contract: they neither look up nor leave an answer.
    if client.session = anonymousSession ∧ client.seq = 0 then tablet.applyFresh index command
    else tablet.applyIdentified index command

/-- Apply one committed envelope. A read fence only takes its place in the order. -/
def applyEnvelope (index : UInt64) :
    ConsensusCommand → Result StateMachineFault ReplicatedOutcome × ReplicatedTablet
  | .tablet command =>
    match tablet.applyCommand index command with
    | (.ok result, after) => (.ok (some result), after)
    | (.err fault, after) => (.err fault, after)
    | (.panic, after) => (.panic, after)
  | .control => (.err (.wrongGroup index), tablet)
  | .readSync fenced =>
    if fenced ≠ tablet.tablet then
      (.err (.misrouted tablet.namespaceId fenced tablet.namespaceId tablet.tablet), tablet)
    else (.ok none, tablet)

/-- Apply one committed entry; the applied pointer follows every entry that succeeds. -/
def applyEntry (log : LogId) :
    EntryPayload → Result StateMachineFault ReplicatedOutcome × ReplicatedTablet
  | .blank | .membership => (.ok none, { tablet with applied := some log })
  | .normal command =>
    match tablet.applyEnvelope log.index command with
    | (.ok outcome, after) => (.ok outcome, { after with applied := some log })
    | (.err fault, after) => (.err fault, after)
    | (.panic, after) => (.panic, after)

end ReplicatedTablet

end Kivi.Consensus
