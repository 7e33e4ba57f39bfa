import Kivi.Consensus.Pipeline
import Kivi.Library.RetryWindow

/-!
# A replica over its log

The state machine applies committed entries one after another and stops for good at the first one
that faults. `ReplicatedTablet.applyEntry_sessions` says what one entry can do to the sessions:
it leaves them alone, or it is the fresh command of an identified client that has just been
executed, and its answer is the only change.
-/

namespace Kivi.Consensus

open Library.RetryWindow State

/-- A session as a window of answers. -/
def SessionState.window (state : SessionState) : Window RetainedOutcome :=
  ⟨state.floor, state.outcomes⟩

theorem SessionState.window_advanceFloor (state : SessionState) (ack : RequestSeq) :
    (state.advanceFloor ack).window = state.window.advance ack := by
  unfold advanceFloor Window.advance window
  split_ifs <;> rfl

/-- A replica with the health flag of its state machine. -/
structure Replica where
  tablet : ReplicatedTablet
  healthy : Bool

/-- What reaches a replica: the entries of its log, and the switch of its key index. -/
inductive ReplicaEvent where
  | apply (log : LogId) (payload : EntryPayload)
  | setOrderedIndexing (enabled : Bool)
deriving DecidableEq

namespace ReplicatedTablet

/-- The identified client whose command reaches execution when the entry is applied. -/
def reachesFresh (tablet : ReplicatedTablet) (log : LogId) :
    EntryPayload → Option RequestIdentity
  | .normal (.tablet command) =>
    let envelope := command.envelope
    let client := envelope.client
    if envelope.namespaceId ≠ tablet.namespaceId ∨ envelope.authority.tablet ≠ tablet.tablet then
      none
    else match envelope.authority.checkAgainst tablet.authority with
    | .error _ => none
    | .ok _ =>
      if client.session = anonymousSession ∧ client.seq = 0 then none
      else match tablet.dedupLookup client.session client.seq command.ackFloor log.index with
      | .ok none => some client
      | _ => none
  | _ => none

end ReplicatedTablet

namespace Replica

def new (namespaceId : NamespaceId) (authority : TabletAuthority)
    (hcontrol : authority.tablet ≠ controlTabletRaw) : Replica :=
  ⟨.new namespaceId authority hcontrol, true⟩

/-- A fault poisons the machine: no later entry is applied. -/
def step (replica : Replica) : ReplicaEvent → Replica
  | .apply log payload =>
    if replica.healthy then
      match replica.tablet.applyEntry log payload with
      | (.ok _, after) => ⟨after, true⟩
      | (_, after) => ⟨after, false⟩
    else replica
  | .setOrderedIndexing enabled =>
    { replica with tablet := { replica.tablet with
      store := replica.tablet.store.setOrderedIndexing enabled } }

/-- The identified client whose command an event executes. -/
def executes (replica : Replica) : ReplicaEvent → Option RequestIdentity
  | .apply log payload => if replica.healthy then replica.tablet.reachesFresh log payload else none
  | .setOrderedIndexing _ => none

end Replica

namespace ReplicatedTablet

variable {tablet : ReplicatedTablet} {log : LogId}

/-- The window of a session; a session that is not known is empty. -/
def window (tablet : ReplicatedTablet) (session : SessionId) : Window RetainedOutcome :=
  ((tablet.sessions[session]?).getD .initial).window

/-- The answer a command retains. -/
def retainedOf (index : UInt64) (command : ReplicatedMutation) (result : OperationResult) :
    RetainedOutcome :=
  ⟨commitOfIndex index, mutationOpcode command.envelope.operation
    (isPersistExpiry command.envelope.operation), .completed result⟩

/-- An installed answer is the only change of its session, behind the acknowledgement. -/
theorem window_install (index : UInt64) (command : ReplicatedMutation) (result : OperationResult)
    (session : SessionId) :
    (tablet.install index command result).window session =
      if session = command.envelope.client.session then
        ((tablet.window session).advance command.ackFloor).record command.envelope.client.seq
          (retainedOf index command result)
      else tablet.window session := by
  unfold window install
  by_cases hsame : session = command.envelope.client.session
  · subst hsame
    rw [if_pos rfl, ← SessionState.window_advanceFloor, Std.ExtTreeMap.getElem?_insert_self]
    rfl
  · have hother : compare command.envelope.client.session session ≠ .eq := fun heq ↦
      hsame (Std.compare_eq_iff_eq.mp heq).symm
    rw [if_neg hsame, Std.ExtTreeMap.getElem?_insert, if_neg hother]

/-- What one entry can do to the sessions. -/
theorem applyEntry_sessions (tablet : ReplicatedTablet) (log : LogId) (payload : EntryPayload) :
    (tablet.reachesFresh log payload = none ∧
        (tablet.applyEntry log payload).2.sessions = tablet.sessions) ∨
      ∃ command, payload = .normal (.tablet command) ∧
        tablet.reachesFresh log payload = some command.envelope.client ∧
        tablet.dedupLookup command.envelope.client.session command.envelope.client.seq
          command.ackFloor log.index = .ok none ∧
        ((∃ result, (tablet.applyEntry log payload).1 = .ok (some result) ∧
            (tablet.applyEntry log payload).2.sessions =
              (tablet.install log.index command result).sessions) ∨
          (∀ outcome, (tablet.applyEntry log payload).1 ≠ .ok outcome) ∧
            (tablet.applyEntry log payload).2.sessions = tablet.sessions) := by
  -- The sessions of an entry are those of its command, and so is its success.
  have hcommand (command : ReplicatedMutation) :
      (tablet.applyEntry log (.normal (.tablet command))).2.sessions =
          (tablet.applyCommand log.index command).2.sessions ∧
        ∀ outcome, (tablet.applyEntry log (.normal (.tablet command))).1 = .ok outcome ↔
          ∃ result, outcome = some result ∧
            (tablet.applyCommand log.index command).1 = .ok result := by
    simp only [applyEntry, applyEnvelope]
    rcases tablet.applyCommand log.index command with ⟨answer, after⟩
    cases answer <;> simp [eq_comm]
  rcases payload with _ | _ | command
  · exact Or.inl ⟨rfl, rfl⟩
  · exact Or.inl ⟨rfl, rfl⟩
  rcases command with command | _ | fenced
  · obtain ⟨hsessions, hok⟩ := hcommand command
    unfold reachesFresh
    dsimp only
    unfold applyCommand at hsessions hok
    dsimp only at hsessions hok
    by_cases hroute : command.envelope.namespaceId ≠ tablet.namespaceId ∨
        command.envelope.authority.tablet ≠ tablet.tablet
    · rw [if_pos hroute] at hsessions ⊢
      exact Or.inl ⟨rfl, hsessions⟩
    rw [if_neg hroute] at hsessions hok ⊢
    rcases hcheck : command.envelope.authority.checkAgainst tablet.authority with mismatch | _
    · rw [hcheck] at hsessions
      exact Or.inl ⟨rfl, hsessions⟩
    rw [hcheck] at hsessions hok
    dsimp only at hsessions hok ⊢
    by_cases hanonymous : command.envelope.client.session = anonymousSession ∧
        command.envelope.client.seq = 0
    · rw [if_pos hanonymous, applyFresh_snd] at hsessions
      rw [if_pos hanonymous]
      exact Or.inl ⟨rfl, hsessions⟩
    rw [if_neg hanonymous] at hsessions hok ⊢
    by_cases hlookup : tablet.dedupLookup command.envelope.client.session
        command.envelope.client.seq command.ackFloor log.index = .ok none
    · refine Or.inr ⟨command, rfl, by rw [hlookup], hlookup, ?_⟩
      have hfresh := applyFresh_snd tablet log.index command
      unfold applyIdentified at hsessions hok
      simp only [hlookup] at hsessions hok
      rcases happly : tablet.applyFresh log.index command with ⟨answer, after⟩
      rw [happly] at hfresh hsessions hok
      dsimp only at hfresh
      subst hfresh
      cases answer with
      | ok result => exact Or.inl ⟨result, (hok _).mpr ⟨result, rfl, rfl⟩, hsessions⟩
      | _ => exact Or.inr ⟨fun outcome houtcome ↦ by simpa using (hok _).mp houtcome, hsessions⟩
    · -- A command that is not looked up as new leaves the sessions as they are.
      have hkept : (tablet.applyIdentified log.index command).2 = tablet := by
        unfold applyIdentified
        dsimp only
        split
        · rfl
        · split_ifs <;> rfl
        · contradiction
      rw [hkept] at hsessions
      refine Or.inl ⟨?_, hsessions⟩
      split
      · contradiction
      · rfl
  · exact Or.inl ⟨rfl, rfl⟩
  · refine Or.inl ⟨rfl, ?_⟩
    simp only [applyEntry, applyEnvelope]
    split_ifs <;> rfl

end ReplicatedTablet

end Kivi.Consensus
