import Kivi.Consensus.Tablet
import Kivi.State.Prediction

/-!
# The proposal pipeline

A leader checks a request's identity, prepares its operation against the state it has applied
and hands the command to the log. Nothing orders these moments between requests: other commands
may be committed and applied between any two of them. A log applies without a fault when every
command, at its turn, is still what the leader would propose for its request; two writes of one
key prepared side by side already fault.
-/

namespace Kivi.Consensus

open Library Library.Bytes Library.Runs State
open ReplicatedTablet

/-! ### Proposing -/

/-- What a client asks of the leader. -/
structure Request where
  op : Operation
  identity : Option MutationIdentity
  idempotency : Option (FixedBytes 16)
  now : WallTimestamp
deriving DecidableEq

namespace Request

/-- The identity a request is enveloped under. -/
def client (request : Request) : RequestIdentity :=
  match request.identity with
  | some marker => marker.client
  | none => ⟨anonymousSession, 0⟩

def ackFloor (request : Request) : RequestSeq :=
  match request.identity with
  | some marker => marker.ackFloor
  | none => 0

end Request

namespace ReplicatedTablet

/-- The gate of a request: requests without an identity pass it. -/
def checkRequest (tablet : ReplicatedTablet) (request : Request) :
    Except StateMachineFault ProposalGate :=
  match request.identity with
  | none => .ok .admitted
  | some marker => tablet.checkProposal marker.client.session marker.client.seq marker.ackFloor

/-- The command a request becomes once its mutation and answer are predicted. -/
def commandOf (tablet : ReplicatedTablet) (request : Request) (mutation : Mutation)
    (expected : OperationResult) : ReplicatedMutation :=
  ⟨⟨tablet.namespaceId, tablet.authority, request.client, request.idempotency, mutation⟩, expected,
    request.now, request.ackFloor⟩

/-- The command the leader proposes for an admitted request; reads, rejections and preparation
errors are answered without one. -/
def prepareCommand (tablet : ReplicatedTablet) (request : Request) : Option ReplicatedMutation :=
  match tablet.prepareOperation request.op request.now with
  | .ok (.write mutation expected) => some (tablet.commandOf request mutation expected)
  | _ => none

end ReplicatedTablet

/-- A leader with the requests it has admitted and the commands it has proposed. `answers` has
one result for every committed entry, in log order. -/
structure Leader where
  tablet : ReplicatedTablet
  fenced : Bool
  admitted : List Request
  proposed : List (Request × ReplicatedMutation)
  answers : List (Result StateMachineFault ReplicatedOutcome)

/-- Entries of the log that carry no client command. -/
inductive Barrier where
  | blank
  | membership
  | readSync
deriving DecidableEq

def Barrier.payload (tablet : ReplicatedTablet) : Barrier → EntryPayload
  | blank => .blank
  | membership => .membership
  | readSync => .normal (.readSync tablet.tablet)

inductive LeaderEvent where
  | check (request : Request)
  | prepare (position : Nat)
  | commit (position : Nat) (log : LogId)
  | barrier (kind : Barrier) (log : LogId)
  | fence (fenced : Bool)
deriving DecidableEq

namespace Leader

def new (tablet : ReplicatedTablet) : Leader := ⟨tablet, false, [], [], []⟩

/-- No entry has faulted so far. -/
def healthy (leader : Leader) : Bool :=
  leader.answers.all fun answer ↦ match answer with
    | .ok _ => true
    | _ => false

/-- Apply the next entry of the log. A fault poisons the machine for all later entries. -/
def applyNext (leader : Leader) (log : LogId) (payload : EntryPayload) : Leader :=
  if leader.healthy then
    let (answer, after) := leader.tablet.applyEntry log payload
    { leader with tablet := after, answers := leader.answers ++ [answer] }
  else { leader with answers := leader.answers ++ [.err .unhealthy] }

/-- One step. The gate, the preparation and the commit of a request are separate steps. -/
def step (leader : Leader) : LeaderEvent → Leader
  | .check request =>
    match leader.tablet.checkRequest request with
    | .ok .admitted =>
      if leader.fenced then leader else { leader with admitted := leader.admitted ++ [request] }
    | _ => leader
  | .prepare position =>
    match leader.admitted[position]? with
    | none => leader
    | some request =>
      let admitted := leader.admitted.eraseIdx position
      match leader.tablet.prepareCommand request with
      | none => { leader with admitted }
      | some command =>
        { leader with admitted, proposed := leader.proposed ++ [(request, command)] }
  | .commit position log =>
    match leader.proposed[position]? with
    | none => leader
    | some (_, command) =>
      { leader with proposed := leader.proposed.eraseIdx position }.applyNext log
        (.normal (.tablet command))
  | .barrier kind log => leader.applyNext log (kind.payload leader.tablet)
  | .fence fenced => { leader with fenced }

end Leader

/-! ### Commands that are still current -/

/-- In this state the leader would propose the same command for the request once more, or answer
it as a duplicate with the command's own answer. -/
def StillProposed (tablet : ReplicatedTablet) (request : Request)
    (command : ReplicatedMutation) : Prop :=
  tablet.checkRequest request = .ok (.hit command.expected) ∨
    tablet.checkRequest request = .ok .admitted ∧ tablet.prepareCommand request = some command

/-- The operations whose prediction application may contradict on the state it was made in. -/
def Mispredicted (store : ObjectStore) (op : Operation) (now : WallTimestamp) : Prop :=
  store.EmptyReacquire op now ∨ store.MeetsForeignReservation op ∨
    ObjectStore.ExceedsAddressable op

/-- A commit step applies a command that is still proposed in the state it meets. -/
def CommitsCurrent (leader : Leader) : LeaderEvent → Prop
  | .commit position _ =>
    match leader.proposed[position]? with
    | none => True
    | some (request, command) => StillProposed leader.tablet request command ∧
        ¬ Mispredicted leader.tablet.store request.op request.now
  | _ => True

/-! ### What applying an entry leaves in place -/

variable {mutation : Mutation} {expected : OperationResult}

namespace ReplicatedTablet

/-- `after` is a later state of the replica `before`. -/
structure Follows (before after : ReplicatedTablet) : Prop where
  namespaceId : after.namespaceId = before.namespaceId
  authority : after.authority = before.authority
  store : ReachableStore before.store → ReachableStore after.store

variable {tablet : ReplicatedTablet} {request : Request} {command : ReplicatedMutation}

theorem Follows.refl (tablet : ReplicatedTablet) : Follows tablet tablet := ⟨rfl, rfl, id⟩

theorem Follows.trans {first second third : ReplicatedTablet} (h₁ : Follows first second)
    (h₂ : Follows second third) : Follows first third :=
  ⟨h₂.namespaceId.trans h₁.namespaceId, h₂.authority.trans h₁.authority, h₂.store ∘ h₁.store⟩

section

variable (tablet : ReplicatedTablet) (index : UInt64) (command : ReplicatedMutation)

/-- The store of a fresh execution is the applied one, whatever the comparison says. -/
theorem applyFresh_snd :
    (tablet.applyFresh index command).2 = { tablet with
      store := applyStep tablet.store (command.envelope.operation, command.now) } := by
  simp only [applyFresh, applyStep]
  rcases tablet.store.apply command.envelope.operation command.now with ⟨answer, store⟩
  rcases answer with outcome | error | _
  · dsimp only
    split
    · rfl
    · split_ifs <;> rfl
  · rfl
  · rfl

theorem applyFresh_follows : Follows tablet (tablet.applyFresh index command).2 := by
  rw [applyFresh_snd]
  exact ⟨rfl, rfl, fun hreach ↦ hreach.run [.apply command.envelope.operation command.now]⟩

theorem applyIdentified_follows : Follows tablet (tablet.applyIdentified index command).2 := by
  have hfresh := applyFresh_follows tablet index command
  unfold applyIdentified
  dsimp only
  split
  · exact .refl tablet
  · split_ifs <;> exact .refl tablet
  · rcases happly : tablet.applyFresh index command with ⟨answer, after⟩
    rw [happly] at hfresh
    cases answer with
    | ok result => exact hfresh.trans ⟨rfl, rfl, id⟩
    | err | panic => exact hfresh

theorem applyCommand_follows : Follows tablet (tablet.applyCommand index command).2 := by
  unfold applyCommand
  dsimp only
  split
  · exact .refl tablet
  split
  · exact .refl tablet
  split
  · exact applyFresh_follows tablet index command
  · exact applyIdentified_follows tablet index command

end

theorem applyEnvelope_follows (tablet : ReplicatedTablet) (index : UInt64)
    (command : ConsensusCommand) : Follows tablet (tablet.applyEnvelope index command).2 := by
  rcases command with command | _ | fenced
  · have hcommand := applyCommand_follows tablet index command
    simp only [applyEnvelope]
    rcases happly : tablet.applyCommand index command with ⟨answer, after⟩
    rw [happly] at hcommand
    cases answer <;> exact hcommand
  · exact .refl tablet
  · simp only [applyEnvelope]
    split_ifs <;> exact .refl tablet

theorem applyEntry_follows (tablet : ReplicatedTablet) (log : LogId) (payload : EntryPayload) :
    Follows tablet (tablet.applyEntry log payload).2 := by
  rcases payload with _ | _ | command
  · exact ⟨rfl, rfl, id⟩
  · exact ⟨rfl, rfl, id⟩
  · have henvelope := applyEnvelope_follows tablet log.index command
    simp only [applyEntry]
    rcases happly : tablet.applyEnvelope log.index command with ⟨answer, after⟩
    rw [happly] at henvelope
    cases answer with
    | ok outcome => exact henvelope.trans ⟨rfl, rfl, id⟩
    | err | panic => exact henvelope

/-! ### Current commands are applied -/

/-- The gate and the lookup at apply time read the same session in the same order. -/
theorem verdict_cases (tablet : ReplicatedTablet) (session : SessionId)
    (seq ackFloor : RequestSeq) (index : UInt64) :
    let gate := tablet.checkProposal session seq ackFloor
    let lookup := tablet.dedupLookup session seq ackFloor index
    (gate = .ok .admitted ∧ lookup = .ok none) ∨
      (∃ retained, gate = .ok (.hit retained) ∧ lookup = .ok (some retained) ∧ seq ≠ 0) ∨
      (∃ floor, gate = .ok .expired ∧ lookup = .error (.expiredIdentity session seq floor index)) ∨
      (gate = .ok .overloaded ∧ lookup = .error (.sessionOverloaded session index)) ∨
      (gate = .error (.corruptState session seq) ∧
        lookup = .error (.corruptState session seq)) := by
  unfold checkProposal dedupLookup
  cases tablet.sessions[session]? with
  | none => exact Or.inl ⟨rfl, rfl⟩
  | some state =>
    by_cases hfloor : seq ≤ max state.floor ackFloor
    · refine Or.inr (Or.inr (Or.inl ⟨max state.floor ackFloor, ?_, ?_⟩)) <;> exact if_pos hfloor
    · have hseq : seq ≠ 0 := fun hzero ↦ hfloor (hzero ▸ UInt64.zero_le)
      simp only [if_neg hfloor]
      rcases state.outcomes[seq]? with _ | ⟨commit, opcode, outcome⟩
      · by_cases hfull : sessionOutcomeCap ≤ state.retainedAfter (max state.floor ackFloor)
        · simp [hfull]
        · simp [hfull]
      · cases outcome <;> simp [hseq]

section

variable (index : UInt64) (hcommand : command = tablet.commandOf request mutation expected)
include hcommand

/-- A command under this replica's authority passes the checks of its envelope. -/
theorem applyCommand_of_own :
    tablet.applyCommand index command =
      if request.client.session = anonymousSession ∧ request.client.seq = 0 then
        tablet.applyFresh index command
      else tablet.applyIdentified index command := by
  subst hcommand
  unfold applyCommand
  simp [commandOf, tablet.authority_tablet, TabletAuthority.checkAgainst]
  rfl

/-- A fresh execution that succeeds is the command's answer when its identity is admitted. -/
theorem applyCommand_of_admitted (hgate : tablet.checkRequest request = .ok .admitted)
    (hfresh : (tablet.applyFresh index command).1 = .ok expected) :
    (tablet.applyCommand index command).1 = .ok expected := by
  rw [applyCommand_of_own index hcommand]
  split_ifs with hanonymous
  · exact hfresh
  -- A request that is not anonymous has an identity, and the gate looked it up.
  rcases hidentity : request.identity with _ | marker
  · simp [Request.client, hidentity] at hanonymous
  simp only [checkRequest, hidentity] at hgate
  have hlookup := tablet.verdict_cases marker.client.session marker.client.seq marker.ackFloor index
  simp only [hgate, reduceCtorEq, Except.ok.injEq, false_and, exists_false, or_false, true_and]
    at hlookup
  rcases happly : tablet.applyFresh index command with ⟨answer, after⟩
  rw [happly] at hfresh
  cases hfresh
  subst hcommand
  simp only [applyIdentified, commandOf, Request.client, Request.ackFloor, hidentity, hlookup]
  simp only [commandOf, Request.client, Request.ackFloor, hidentity] at happly
  rw [happly]

/-- A retained answer that agrees with the command's is its answer. -/
theorem applyCommand_of_hit (hgate : tablet.checkRequest request = .ok (.hit expected)) :
    (tablet.applyCommand index command).1 = .ok expected := by
  rw [applyCommand_of_own index hcommand]
  rcases hidentity : request.identity with _ | marker
  · simp [checkRequest, hidentity] at hgate
  simp only [checkRequest, hidentity] at hgate
  have hcases := tablet.verdict_cases marker.client.session marker.client.seq marker.ackFloor index
  simp only [hgate, reduceCtorEq, Except.ok.injEq, ProposalGate.hit.injEq, false_and, exists_false,
    or_false, false_or, exists_eq_left'] at hcases
  obtain ⟨hlookup, hseq⟩ := hcases
  subst hcommand
  simp [applyIdentified, commandOf, Request.client, Request.ackFloor, hidentity, hlookup, hseq]

end

end ReplicatedTablet

/-- A command that is still proposed is applied with its predicted answer. -/
theorem StillProposed.applyCommand_ok {tablet : ReplicatedTablet} {request : Request}
    {command : ReplicatedMutation} (h : StillProposed tablet request command)
    (hreach : ReachableStore tablet.store)
    (hpredicted : ¬ Mispredicted tablet.store request.op request.now)
    (hcommand : command = tablet.commandOf request mutation expected) (index : UInt64) :
    (tablet.applyCommand index command).1 = .ok command.expected := by
  obtain rfl : command.expected = expected := by rw [hcommand]; rfl
  rcases h with hhit | ⟨hadmitted, hprepare⟩
  · exact applyCommand_of_hit index hcommand hhit
  refine applyCommand_of_admitted index hcommand hadmitted ?_
  obtain ⟨hreacquire, hforeign, hfits⟩ : _ ∧ _ ∧ _ := by
    simpa only [Mispredicted, not_or] using hpredicted
  unfold prepareCommand prepareOperation at hprepare
  split at hprepare
  · next mutation' expected' hwrite =>
    cases hprepare
    obtain ⟨outcome, happly, hanswer⟩ :=
      (ObjectStore.prepared_agrees_iff (fun key _ ↦ ReachableStore.sound hreach key)
        (ObjectStore.intentsFiled_of_reachable hreach) hwrite hforeign hfits).mpr hreacquire
    rcases hstore : tablet.store.apply mutation' request.now with ⟨answer, store⟩
    rw [hstore] at happly
    cases happly
    simp [applyFresh, commandOf, hstore, hanswer]
  · cases hprepare

/-! ### Whole logs -/

namespace Leader

/-- Every proposed command is under the leader's own authority, and no entry has faulted. -/
structure Sound (leader : Leader) : Prop where
  reachable : ReachableStore leader.tablet.store
  commands : ∀ entry ∈ leader.proposed, ∃ mutation expected,
    entry.2 = leader.tablet.commandOf entry.1 mutation expected
  answers : ∀ answer ∈ leader.answers, ∃ outcome, answer = .ok outcome

variable {leader : Leader}

theorem Sound.healthy (h : leader.Sound) : leader.healthy = true := by
  refine List.all_eq_true.mpr fun answer hmem ↦ ?_
  obtain ⟨outcome, rfl⟩ := h.answers answer hmem
  rfl

/-- An entry that is applied keeps the pipeline sound. -/
theorem Sound.applyNext (h : leader.Sound) {log : LogId} {payload : EntryPayload}
    {outcome : ReplicatedOutcome}
    (happly : (leader.tablet.applyEntry log payload).1 = .ok outcome) :
    (leader.applyNext log payload).Sound := by
  have hfollows := applyEntry_follows leader.tablet log payload
  unfold Leader.applyNext
  rw [if_pos h.healthy]
  refine ⟨hfollows.store h.reachable, fun entry hmem ↦ ?_, fun answer hmem ↦ ?_⟩
  · obtain ⟨mutation, expected, heq⟩ := h.commands entry hmem
    refine ⟨mutation, expected, heq.trans ?_⟩
    simp only [commandOf, hfollows.namespaceId, hfollows.authority]
  · rcases List.mem_append.mp hmem with hold | hnew
    · exact h.answers answer hold
    · obtain rfl := List.mem_singleton.mp hnew
      exact ⟨outcome, happly⟩

/-- One step. -/
theorem Sound.step (h : leader.Sound) (event : LeaderEvent)
    (hcurrent : CommitsCurrent leader event) : (leader.step event).Sound := by
  cases event with
  | check request =>
    simp only [Leader.step]
    split
    · split_ifs
      · exact h
      · exact ⟨h.reachable, h.commands, h.answers⟩
    · exact h
  | prepare position =>
    simp only [Leader.step]
    split
    · exact h
    next request hrequest =>
    split
    · exact ⟨h.reachable, h.commands, h.answers⟩
    next command hcommand =>
    refine ⟨h.reachable, fun entry hmem ↦ ?_, h.answers⟩
    rcases List.mem_append.mp hmem with hold | hnew
    · exact h.commands entry hold
    · obtain rfl := List.mem_singleton.mp hnew
      unfold prepareCommand at hcommand
      split at hcommand
      · exact ⟨_, _, (Option.some.inj hcommand).symm⟩
      · cases hcommand
  | commit position log =>
    simp only [Leader.step]
    simp only [CommitsCurrent] at hcurrent
    cases hentry : leader.proposed[position]? with
    | none => exact h
    | some entry =>
      obtain ⟨request, command⟩ := entry
      simp only [hentry] at hcurrent
      obtain ⟨mutation, expected, hcommand⟩ :=
        h.commands (request, command) (List.mem_of_getElem? hentry)
      have hok := hcurrent.1.applyCommand_ok h.reachable hcurrent.2 hcommand log.index
      have hrest : Sound { leader with proposed := leader.proposed.eraseIdx position } :=
        ⟨h.reachable, fun entry hmem ↦ h.commands entry (List.mem_of_mem_eraseIdx hmem), h.answers⟩
      refine @applyNext _ hrest _ _ (some command.expected) ?_
      simp only [applyEntry, applyEnvelope]
      rcases happly : leader.tablet.applyCommand log.index command with ⟨answer, after⟩
      rw [happly] at hok
      cases hok
      rfl
  | barrier kind log =>
    refine @applyNext _ h _ _ none ?_
    cases kind <;>
      simp [Barrier.payload, applyEntry, applyEnvelope]
  | fence fenced => exact ⟨h.reachable, h.commands, h.answers⟩

theorem new_sound (namespaceId : NamespaceId) (authority : TabletAuthority)
    (hcontrol : authority.tablet ≠ controlTabletRaw) :
    (Leader.new (.new namespaceId authority hcontrol)).Sound :=
  ⟨Reachable.refl _, List.forall_mem_nil _,
    List.forall_mem_nil _⟩

/-- In every run of the pipeline in which each committed command is still proposed at its turn,
every committed entry is applied. -/
theorem committed_log_applies (namespaceId : NamespaceId) (authority : TabletAuthority)
    (hcontrol : authority.tablet ≠ controlTabletRaw) {events : List LeaderEvent}
    (hcurrent : Along Leader.step CommitsCurrent (.new (.new namespaceId authority hcontrol))
      events) :
    ∀ answer ∈ (run Leader.step (.new (.new namespaceId authority hcontrol)) events).answers,
      ∃ outcome, answer = .ok outcome :=
  (run_invariant_along (P := Sound) (fun _ event hstep h ↦ h.step event hstep)
    (new_sound namespaceId authority hcontrol) hcurrent).answers

/-- Two writes of one key, the second prepared after the first was applied. -/
theorem sequential_sets_apply :
    let leader := Leader.new (.new 0 ⟨1, 0, 0⟩ (by decide))
    let set (value : UInt8) : Request := ⟨.set [1] [value], none, none, 0⟩
    let events : List LeaderEvent := [.check (set 1), .prepare 0, .commit 0 ⟨1, 1, 0⟩,
      .check (set 2), .prepare 0, .commit 0 ⟨1, 1, 1⟩]
    (run Leader.step leader events).answers =
        [.ok (some (.stored .first)), .ok (some (.stored ⟨2⟩))] ∧
      ∀ answer ∈ (run Leader.step leader events).answers, ∃ outcome, answer = .ok outcome := by
  refine ⟨by decide, committed_log_applies 0 ⟨1, 0, 0⟩ (by decide) ?_⟩
  exact ⟨trivial, trivial, ⟨Or.inr ⟨rfl, by decide⟩, by rintro (h | h | h) <;> exact h⟩, trivial,
    trivial, ⟨Or.inr ⟨rfl, by decide⟩, by rintro (h | h | h) <;> exact h⟩, trivial⟩

/-- Two writes of one fresh key, prepared side by side, both predict the first version. The one
committed second finds it taken. -/
theorem concurrent_sets_diverge :
    let leader := Leader.new (.new 0 ⟨1, 0, 0⟩ (by decide))
    let set (value : UInt8) : Request := ⟨.set [1] [value], none, none, 0⟩
    (run Leader.step leader [.check (set 1), .prepare 0, .check (set 2), .prepare 0,
      .commit 0 ⟨1, 1, 0⟩, .commit 0 ⟨1, 1, 1⟩]).answers =
      [.ok (some (.stored .first)),
        .err (.divergence 1 (.stored .first) (.stored ⟨2⟩))] := by
  decide

end Leader

end Kivi.Consensus
