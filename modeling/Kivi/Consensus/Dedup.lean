import Kivi.Consensus.Replica

/-!
# Each identity is executed once

A command of an identified client is executed when the replica holds no answer for it. Over a
whole log no identity is executed twice, because what a session has answered it either still
holds or has seen acknowledged. The leader's gate and the lookup of the replicas agree in every
state. That a session holds answers above its floor only is broken by the first command of a
session, which is not compared with its own acknowledgement.
-/

namespace Kivi.Consensus

open Library.Runs Library.RetryWindow

namespace ReplicatedTablet

variable {tablet : ReplicatedTablet} {session : SessionId} {seq ackFloor : RequestSeq}
  {index : UInt64}

/-- The gate and the lookup give one verdict on an identity. -/
structure GateAgrees (tablet : ReplicatedTablet) (session : SessionId) (seq ackFloor : RequestSeq)
    (index : UInt64) : Prop where
  admitted : tablet.checkProposal session seq ackFloor = .ok .admitted ↔
    tablet.dedupLookup session seq ackFloor index = .ok none
  hit : ∀ outcome, tablet.checkProposal session seq ackFloor = .ok (.hit outcome) ↔
    tablet.dedupLookup session seq ackFloor index = .ok (some outcome)
  expired : tablet.checkProposal session seq ackFloor = .ok .expired ↔
    ∃ floor, tablet.dedupLookup session seq ackFloor index =
      .error (.expiredIdentity session seq floor index)
  overloaded : tablet.checkProposal session seq ackFloor = .ok .overloaded ↔
    tablet.dedupLookup session seq ackFloor index = .error (.sessionOverloaded session index)

/-- Both read the same session in the same order. -/
theorem gateAgrees (tablet : ReplicatedTablet) (session : SessionId) (seq ackFloor : RequestSeq)
    (index : UInt64) : GateAgrees tablet session seq ackFloor index := by
  rcases tablet.verdict_cases session seq ackFloor index with ⟨hgate, hlookup⟩ |
    ⟨retained, hgate, hlookup, -⟩ | ⟨floor, hgate, hlookup⟩ | ⟨hgate, hlookup⟩ |
    ⟨hgate, hlookup⟩ <;>
  constructor <;> simp [hgate, hlookup, eq_comm]

theorem window_of_known {state : SessionState} (h : tablet.sessions[session]? = some state) :
    tablet.window session = state.window := by
  rw [window, h]
  rfl

theorem window_of_unknown (h : session ∉ tablet.sessions) : tablet.window session = .empty := by
  rw [window, Std.ExtTreeMap.getElem?_eq_none h]
  rfl

/-- What a lookup that finds nothing says of a known session. -/
theorem dedupLookup_none (hknown : session ∈ tablet.sessions)
    (h : tablet.dedupLookup session seq ackFloor index = .ok none) :
    max (tablet.window session).floor ackFloor < seq ∧ ¬ (tablet.window session).Settled seq := by
  obtain ⟨state, hstate⟩ := Std.ExtTreeMap.mem_iff_isSome_getElem?.mp hknown |>
    Option.isSome_iff_exists.mp
  unfold dedupLookup at h
  rw [window_of_known hstate]
  simp only [hstate] at h
  split at h
  · cases h
  next hfloor =>
  refine ⟨UInt64.not_le.mp hfloor, ?_⟩
  rintro (hbelow | hkept)
  · exact hfloor (le_max_iff_u64.mpr (Or.inl hbelow))
  · obtain ⟨⟨commit, opcode, outcome⟩, houtcome⟩ :=
      Option.isSome_iff_exists.mp (Std.ExtTreeMap.mem_iff_isSome_getElem?.mp hkept)
    simp only [show state.outcomes[seq]? = _ from houtcome] at h
    cases outcome <;> cases h

/-- Every answer a session holds is above its floor. -/
def RetainedAbove (tablet : ReplicatedTablet) : Prop :=
  ∀ session, (tablet.window session).Above

end ReplicatedTablet

namespace Replica

open ReplicatedTablet

/-- A command that opens a session acknowledges less than its own sequence. -/
def OpensAbove (replica : Replica) : ReplicaEvent → Prop
  | .apply log (.normal (.tablet command)) =>
    let client := command.envelope.client
    replica.executes (.apply log (.normal (.tablet command))) = some client →
      (∃ outcome, (replica.tablet.applyEntry log (.normal (.tablet command))).1 = .ok outcome) →
        client.session ∉ replica.tablet.sessions → command.ackFloor < client.seq
  | _ => True

variable {replica : Replica}

/-- What one event can do to the sessions of a replica. -/
theorem step_sessions (replica : Replica) (event : ReplicaEvent) :
    (replica.executes event = none ∧
        (replica.step event).tablet.sessions = replica.tablet.sessions ∧
        ((replica.step event).healthy = true → replica.healthy = true)) ∨
      ∃ log command, event = .apply log (.normal (.tablet command)) ∧
        replica.executes event = some command.envelope.client ∧ replica.healthy = true ∧
        replica.tablet.dedupLookup command.envelope.client.session command.envelope.client.seq
          command.ackFloor log.index = .ok none ∧
        ((∃ result, (replica.tablet.applyEntry log (.normal (.tablet command))).1 =
              .ok (some result) ∧
            (replica.step event).tablet.sessions =
              (replica.tablet.install log.index command result).sessions) ∨
          (∀ outcome, (replica.tablet.applyEntry log (.normal (.tablet command))).1 ≠
              .ok outcome) ∧
            (replica.step event).tablet.sessions = replica.tablet.sessions ∧
            (replica.step event).healthy = false) := by
  rcases event with ⟨log, payload⟩ | enabled
  · by_cases hhealthy : replica.healthy = true
    · have hstep : (replica.step (.apply log payload)).tablet =
          (replica.tablet.applyEntry log payload).2 := by
        unfold step
        simp only [if_pos hhealthy]
        rcases replica.tablet.applyEntry log payload with ⟨answer, after⟩
        cases answer <;> rfl
      have hexecutes : replica.executes (.apply log payload) =
          replica.tablet.reachesFresh log payload := if_pos hhealthy
      rw [hstep, hexecutes]
      rcases replica.tablet.applyEntry_sessions log payload with ⟨hnone, hsame⟩ |
        ⟨command, rfl, hfresh, hlookup, hanswer⟩
      · exact Or.inl ⟨hnone, hsame, fun _ ↦ hhealthy⟩
      · refine Or.inr ⟨log, command, rfl, hfresh, hhealthy, hlookup, hanswer.imp id ?_⟩
        rintro ⟨hfails, hsame⟩
        refine ⟨hfails, hsame, ?_⟩
        unfold step
        simp only [if_pos hhealthy]
    · have hstep : replica.step (.apply log payload) = replica := if_neg hhealthy
      rw [hstep]
      exact Or.inl ⟨if_neg hhealthy, rfl, id⟩
  · exact Or.inl ⟨rfl, rfl, id⟩

/-- The identities executed so far, each once, and all of them settled while the replica is
healthy. -/
structure ExecutedOnce (executed : List RequestIdentity) (replica : Replica) : Prop where
  nodup : executed.Nodup
  settled : replica.healthy = true → ∀ identity ∈ executed,
    identity.session ∈ replica.tablet.sessions ∧
      (replica.tablet.window identity.session).Settled identity.seq

/-- No entry is executed for a request that has been executed before. -/
theorem ExecutedOnce.step {executed : List RequestIdentity} (h : ExecutedOnce executed replica)
    (event : ReplicaEvent) :
    ExecutedOnce (executed ++ (replica.executes event).toList) (replica.step event) := by
  rcases replica.step_sessions event with ⟨hnone, hsame, hhealth⟩ |
    ⟨log, command, -, hexecutes, hhealthy, hlookup, hanswer⟩
  · rw [hnone, Option.toList_none, List.append_nil]
    refine ⟨h.nodup, fun hhealthy ↦ ?_⟩
    unfold window
    rw [hsame]
    exact h.settled (hhealth hhealthy)
  · rw [hexecutes, Option.toList_some]
    refine ⟨?_, ?_⟩
    · refine List.nodup_append.mpr ⟨h.nodup, List.nodup_singleton _, ?_⟩
      intro identity hidentity other hother heq
      obtain rfl := List.mem_singleton.mp hother
      obtain ⟨hknown, hsettled⟩ := h.settled hhealthy identity hidentity
      rw [heq] at hknown hsettled
      exact (dedupLookup_none hknown hlookup).2 hsettled
    · rcases hanswer with ⟨result, -, hinstall⟩ | ⟨-, -, hpoisoned⟩
      · intro _ identity hidentity
        have hwindow : (replica.step event).tablet.window identity.session =
            (replica.tablet.install log.index command result).window identity.session := by
          unfold window
          rw [hinstall]
        rw [hwindow, hinstall, window_install, install, Std.ExtTreeMap.mem_insert,
          Std.compare_eq_iff_eq]
        rcases List.mem_append.mp hidentity with hold | hnew
        · obtain ⟨hknown, hsettled⟩ := h.settled hhealthy identity hold
          refine ⟨Or.inr hknown, ?_⟩
          split_ifs
          · exact (hsettled.advance _).record _ _
          · exact hsettled
        · obtain rfl := List.mem_singleton.mp hnew
          rw [if_pos rfl]
          exact ⟨Or.inl rfl, Or.inr Std.ExtTreeMap.mem_insert_self⟩
      · intro hhealthy
        cases hpoisoned.symm.trans hhealthy

/-- Answers stay above the floors exactly in the steps that open sessions above their
acknowledgement. -/
theorem retainedAbove_step_iff (h : replica.tablet.RetainedAbove) (event : ReplicaEvent) :
    (replica.step event).tablet.RetainedAbove ↔ replica.OpensAbove event := by
  have hkept {after : ReplicatedTablet} (hsame : after.sessions = replica.tablet.sessions) :
      after.RetainedAbove := by
    unfold RetainedAbove window
    rw [hsame]
    exact h
  rcases replica.step_sessions event with ⟨hnone, hsame, -⟩ |
    ⟨log, command, rfl, hexecutes, -, hlookup, hanswer⟩
  · refine iff_of_true (hkept hsame) ?_
    unfold OpensAbove
    split
    · intro client hsome
      cases hnone.symm.trans hsome
    · trivial
  · rcases hanswer with ⟨result, hok, hinstall⟩ | ⟨hfails, hsame, -⟩
    · set client := command.envelope.client with hclient
      have hwindow (session : SessionId) :
          (replica.step (.apply log (.normal (.tablet command)))).tablet.window session =
            (replica.tablet.install log.index command result).window session := by
        unfold window
        rw [hinstall]
      have hopened : (replica.step (.apply log (.normal (.tablet command)))).tablet.RetainedAbove ↔
          max (replica.tablet.window client.session).floor command.ackFloor < client.seq := by
        rw [← Window.advance_floor, ← Window.above_record_iff ((h client.session).advance _)]
        constructor
        · intro habove
          have hsession := habove client.session
          rwa [hwindow, window_install, if_pos rfl] at hsession
        · intro habove session
          rw [hwindow, window_install]
          split_ifs with hsession
          · rw [hsession]
            exact habove
          · exact h session
      rw [hopened]
      by_cases hknown : client.session ∈ replica.tablet.sessions
      · refine iff_of_true (dedupLookup_none hknown hlookup).1 ?_
        intro _ _ hunknown
        exact absurd hknown hunknown
      · rw [window_of_unknown hknown, show max Window.empty.floor command.ackFloor =
          command.ackFloor from UInt64.max_def _ _ ▸ if_pos UInt64.zero_le]
        exact ⟨fun hbelow _ _ _ ↦ hbelow, fun habove ↦ habove hexecutes ⟨_, hok⟩ hknown⟩
    · refine iff_of_true (hkept hsame) ?_
      rintro - ⟨outcome, houtcome⟩ -
      exact absurd houtcome (hfails outcome)

/-- No run executes an identity twice, whatever replica it starts from. -/
theorem executes_nodup (start : Replica) (events : List ReplicaEvent) :
    (collect step executes start events).Nodup := by
  have hstart : ExecutedOnce [] start :=
    ⟨List.nodup_nil, fun _ _ hmem ↦ absurd hmem List.not_mem_nil⟩
  have halong : Along step (fun _ _ ↦ True) start events := along_of_forall _ fun _ _ ↦ trivial
  exact (collect_invariant_along (P := ExecutedOnce) (fun _ _ event _ h ↦ h.step event) hstart
    halong).nodup

/-- Over every log, each identity is executed at most once; in the state it leads to, the gate and
the lookup agree on every identity; and the states on the way hold answers above their floors only
exactly if every command that opens a session acknowledges less than its own sequence. -/
theorem dedup_over_log (namespaceId : NamespaceId) (authority : TabletAuthority)
    (hcontrol : authority.tablet ≠ controlTabletRaw) (events : List ReplicaEvent) :
    (collect step executes (new namespaceId authority hcontrol) events).Nodup ∧
      (∀ session seq ackFloor index,
        (run step (new namespaceId authority hcontrol) events).tablet.GateAgrees session seq
          ackFloor index) ∧
      ((∀ front back, events = front ++ back →
          (run step (new namespaceId authority hcontrol) front).tablet.RetainedAbove) ↔
        Along step OpensAbove (new namespaceId authority hcontrol) events) := by
  refine ⟨executes_nodup _ events, fun session seq ackFloor index ↦ gateAgrees _ _ _ _ _, ?_⟩
  refine forall_states_iff_along (P := fun replica : Replica ↦ replica.tablet.RetainedAbove)
    (fun _ event h ↦ retainedAbove_step_iff h event) fun session ↦ ?_
  have hunknown : session ∉ (new namespaceId authority hcontrol).tablet.sessions :=
    Std.ExtTreeMap.not_mem_empty
  rw [window_of_unknown hunknown]
  exact Window.above_empty

/-- A write of one session under the given sequence and acknowledgement. -/
def writeEntry (index : UInt64) (seq ackFloor : RequestSeq) (version : UInt64) : ReplicaEvent :=
  .apply ⟨1, 0, index⟩ (.normal (.tablet
    ⟨⟨0, ⟨1, 0, 0⟩, ⟨7, seq⟩, none, .putBytes [1] [5]⟩, .stored ⟨version⟩, ⟨0⟩, ackFloor⟩))

/-- A write, its retry and a second write that acknowledges the first: two executions. -/
theorem dedup_over_log_retry :
    let start := new 0 ⟨1, 0, 0⟩ (by decide)
    let events := [writeEntry 0 1 0 1, writeEntry 1 1 0 1, writeEntry 2 2 1 2]
    collect step executes start events = [⟨7, 1⟩, ⟨7, 2⟩] ∧
      (collect step executes start events).Nodup := by
  refine ⟨by decide, (dedup_over_log 0 ⟨1, 0, 0⟩ (by decide) _).1⟩

/-- The first command of a session acknowledges a sequence above its own: its answer is retained
below the floor. -/
theorem opening_below_its_acknowledgement :
    let start := new 0 ⟨1, 0, 0⟩ (by decide)
    let after := start.step (writeEntry 0 1 5 1)
    start.tablet.checkProposal 7 1 5 = .ok .admitted ∧
      (start.tablet.applyEntry ⟨1, 0, 0⟩ (.normal (.tablet
        ⟨⟨0, ⟨1, 0, 0⟩, ⟨7, 1⟩, none, .putBytes [1] [5]⟩, .stored ⟨1⟩, ⟨0⟩, 5⟩))).1 =
          .ok (some (.stored ⟨1⟩)) ∧
      (after.tablet.sessions[(7 : SessionId)]?).map (fun state ↦
        (state.floor, state.outcomes.keys)) = some (5, [1]) ∧
      ¬ after.tablet.RetainedAbove := by
  refine ⟨by decide, by decide, by decide, fun habove ↦ ?_⟩
  have hmem : (1 : RequestSeq) ∈
      (((new 0 ⟨1, 0, 0⟩ (by decide)).step (writeEntry 0 1 5 1)).tablet.window 7).kept := by
    decide
  exact absurd (habove 7 1 hmem) (by decide)

end Replica

end Kivi.Consensus
