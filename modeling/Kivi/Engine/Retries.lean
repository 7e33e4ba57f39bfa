import Kivi.Engine.GroupCommit
import Kivi.Library.RetryWindow

/-!
# Retries of identified requests

A request that carries a session and a sequence is executed at most once, also across crashes.
`Remembers` ties the retry state of a tablet to its log: the sequence of every logged member is
acknowledged or its answer is retained, and every retained answer is that of a logged member. A
request is prepared only when the tablet admits its identity and no pending member carries it, so
the identities of a tablet's members stay distinct.
-/

namespace Kivi.Engine

open Library Library.Runs Library.RetryWindow State
open Consensus (SessionId RequestSeq RequestIdentity MutationIdentity)
open Std (ExtTreeMap)

/-! ### Sessions as windows -/

/-- The session as a retry window. -/
def SessionDedup.window (state : SessionDedup) : Window DedupEntry := ⟨state.floor, state.outcomes⟩

/-- The window of a session, empty if the tablet does not know it. -/
def LiveTablet.window (live : LiveTablet) (session : SessionId) : Window DedupEntry :=
  ((live.dedup[session]?).map SessionDedup.window).getD .empty

theorem SessionDedup.window_advanceFloor (state : SessionDedup) (ack : RequestSeq) :
    (state.advanceFloor ack).window = state.window.advance ack := by
  unfold SessionDedup.advanceFloor Window.advance
  split_ifs with hless hfloor hfloor
  · rfl
  · exact absurd hless hfloor
  · exact absurd hfloor hless
  · rfl

namespace LiveTablet

variable {live : LiveTablet} {session : SessionId} {marker : MutationIdentity} {entry : DedupEntry}

theorem mem_recordAnswer :
    session ∈ ((live.installFor (some marker) entry).acknowledge (some marker)).dedup ↔
      marker.client.session = session ∨ session ∈ live.dedup := by
  simp only [installFor, installDedup, acknowledge, advanceSessionFloor,
    ExtTreeMap.getElem?_insert_self, ExtTreeMap.mem_insert, Std.compare_eq_iff_eq]
  tauto

theorem advance_dedup (live : LiveTablet) (apply : ApplyData) :
    (live.advance apply).dedup =
      ((live.installFor apply.identity apply.entry).acknowledge apply.identity).dedup := by
  unfold advance
  cases apply.identity with
  | none => rfl
  | some marker =>
    simp only [installFor, installDedup, acknowledge, advanceSessionFloor,
      ExtTreeMap.getElem?_insert_self]

/-- The verdict on an identity of a session the tablet knows. -/
theorem checkIdentity_of_mem (h : marker.client.session ∈ live.dedup) :
    live.checkIdentity marker =
      if marker.client.seq ≤ (live.window marker.client.session).floor ∨
          marker.client.seq ≤ marker.ackFloor then .expired
      else match (live.window marker.client.session).kept[marker.client.seq]? with
        | some entry => .hit entry.outcome entry.opcode
        | none =>
          if sessionOutcomeCap ≤ (live.window marker.client.session).kept.size then .overloaded
          else .admitted := by
  obtain ⟨state, hstate⟩ := Option.isSome_iff_exists.mp
    (ExtTreeMap.mem_iff_isSome_getElem?.mp h)
  simp only [checkIdentity, hstate, window, Option.map_some, Option.getD_some, le_max_iff_u64]
  rfl

end LiveTablet

theorem client_eq {first second : RequestIdentity} (hsession : first.session = second.session)
    (hseq : first.seq = second.seq) : first = second := by
  cases first
  cases hsession
  cases hseq
  rfl

/-! ### What a tablet remembers -/

/-- The identity a member carries. -/
def ApplyData.client (apply : ApplyData) : Option RequestIdentity :=
  apply.identity.map MutationIdentity.client

variable {log : List ApplyData} {apply : ApplyData}

/-- No member carries the identity of this one. -/
def Fresh (log : List ApplyData) (apply : ApplyData) : Prop :=
  ∀ other ∈ log, ∀ client ∈ other.client, apply.client ≠ some client

/-- With distinct identities the last member has one of its own. -/
theorem fresh_of_nodup (h : ((log ++ [apply]).filterMap ApplyData.client).Nodup) :
    Fresh log apply := by
  intro other hmem client hother hclient
  rw [List.filterMap_append] at h
  obtain ⟨-, -, hdisjoint⟩ := List.nodup_append.mp h
  refine hdisjoint client (List.mem_filterMap.mpr ⟨other, hmem, hother⟩) client ?_ rfl
  exact List.mem_filterMap.mpr ⟨apply, List.mem_singleton_self _, hclient⟩

theorem nodup_of_fresh (h : (log.filterMap ApplyData.client).Nodup) (hfresh : Fresh log apply) :
    ((log ++ [apply]).filterMap ApplyData.client).Nodup := by
  rw [List.filterMap_append]
  refine List.nodup_append.mpr ⟨h, ?_, ?_⟩
  · cases hclient : apply.client <;> simp [hclient]
  · intro client hmem other hother heq
    obtain ⟨member, hmember, hclient⟩ := List.mem_filterMap.mp hmem
    obtain ⟨last, hlast, hown⟩ := List.mem_filterMap.mp hother
    rw [List.mem_singleton.mp hlast, ← heq] at hown
    exact hfresh member hmember client hclient hown

/-- The retry state of a tablet against its log. -/
structure Remembers (live : LiveTablet) (log : List ApplyData) : Prop where
  settled : ∀ apply ∈ log, ∀ client ∈ apply.client, client.session ∈ live.dedup ∧
    (client.seq ≤ (live.window client.session).floor ∨
      ∃ entry, (live.window client.session).kept[client.seq]? = some entry ∧
        entry.outcome = apply.entry.outcome)
  kept : ∀ (session : SessionId) (seq : RequestSeq) (entry : DedupEntry),
    (live.window session).kept[seq]? = some entry →
      ∃ apply ∈ log, apply.client = some ⟨session, seq⟩ ∧ entry.outcome = apply.entry.outcome

variable {marker : MutationIdentity}

namespace Remembers

variable {live after : LiveTablet} {log : List ApplyData} {apply : ApplyData}

theorem new (tablet : TabletId) : Remembers (.new tablet) [] where
  settled _ hmem := absurd hmem List.not_mem_nil
  kept session seq entry hget := by
    simp [LiveTablet.window, LiveTablet.new, Window.empty] at hget

section

variable (h : Remembers live log)
include h

/-- Only the sessions matter. -/
theorem congr (hdedup : after.dedup = live.dedup) : Remembers after log := by
  have hwindow (session : SessionId) : after.window session = live.window session := by
    rw [LiveTablet.window, LiveTablet.window, hdedup]
  constructor
  · intro apply hmem client hclient
    rw [hdedup, hwindow]
    exact h.settled apply hmem client hclient
  · intro session seq entry hget
    rw [hwindow] at hget
    exact h.kept session seq entry hget

/-- A member with an identity of its own joins the log. -/
theorem install {entry : DedupEntry} (houtcome : entry.outcome = apply.entry.outcome)
    (hfresh : Fresh log apply)
    (hdedup : after.dedup =
      ((live.installFor apply.identity entry).acknowledge apply.identity).dedup) :
    Remembers after (log ++ [apply]) := by
  cases hidentity : apply.identity with
  | none =>
    have hclient : apply.client = none := by rw [ApplyData.client, hidentity]; rfl
    rw [hidentity] at hdedup
    have hsame : Remembers after log := h.congr hdedup
    constructor
    · intro other hmem client hother
      rcases List.mem_append.mp hmem with hold | hnew
      · exact hsame.settled other hold client hother
      · rw [List.mem_singleton.mp hnew, hclient] at hother
        cases hother
    · intro session seq found hget
      obtain ⟨other, hmem, hother⟩ := hsame.kept session seq found hget
      exact ⟨other, List.mem_append_left _ hmem, hother⟩
  | some marker =>
    have hclient : apply.client = some marker.client := by rw [ApplyData.client, hidentity]; rfl
    rw [hidentity] at hdedup
    have hwindow (session : SessionId) : after.window session =
        if marker.client.session = session then
          ((live.window session).record marker.client.seq entry).advance marker.ackFloor
        else live.window session := by
      simp only [LiveTablet.window, hdedup, LiveTablet.installFor, LiveTablet.installDedup,
        LiveTablet.acknowledge, LiveTablet.advanceSessionFloor, ExtTreeMap.getElem?_insert_self]
      by_cases hsame : marker.client.session = session
      · subst hsame
        rw [ExtTreeMap.getElem?_insert_self, if_pos rfl, Option.map_some, Option.getD_some,
          SessionDedup.window_advanceFloor]
        cases live.dedup[marker.client.session]? <;> rfl
      · simp [ExtTreeMap.getElem?_insert, hsame]
    constructor
    · intro other hmem client hother
      rw [hdedup, LiveTablet.mem_recordAnswer, hwindow]
      rcases List.mem_append.mp hmem with hold | hnew
      · obtain ⟨hknown, hsettled⟩ := h.settled other hold client hother
        refine ⟨Or.inr hknown, ?_⟩
        split_ifs with hsame
        · have hseq : marker.client.seq ≠ client.seq := fun hseq ↦
            hfresh other hold client hother (hclient.trans (congrArg some (client_eq hsame hseq)))
          rcases hsettled with hfloor | ⟨found, hfound, hanswer⟩
          · have hrecorded : client.seq ≤
                ((live.window client.session).record marker.client.seq entry).floor := hfloor
            exact Or.inl (Window.le_floor_advance hrecorded marker.ackFloor)
          · have hkept : ((live.window client.session).record marker.client.seq
                entry).kept[client.seq]? = some found := by
              rw [Window.getElem?_record, if_neg hseq, hfound]
            exact (Window.advance_keeps (Or.inr hkept) marker.ackFloor).imp_right fun hstill ↦
              ⟨found, hstill, hanswer⟩
        · exact hsettled
      · rw [List.mem_singleton.mp hnew, hclient] at hother
        cases hother
        rw [List.mem_singleton.mp hnew, if_pos rfl]
        refine ⟨Or.inl rfl, ?_⟩
        have hkept : (((live.window marker.client.session).record marker.client.seq
            entry)).kept[marker.client.seq]? = some entry := by
          rw [Window.getElem?_record, if_pos rfl]
        exact (Window.advance_keeps (Or.inr hkept) marker.ackFloor).imp_right fun hstill ↦
          ⟨entry, hstill, houtcome⟩
    · intro session seq found hget
      rw [hwindow] at hget
      split_ifs at hget with hsame
      · have hrecorded := Window.kept_of_advance hget
        rw [Window.getElem?_record] at hrecorded
        split_ifs at hrecorded with hseq
        · cases hrecorded
          refine ⟨apply, List.mem_append_right _ (List.mem_singleton_self _), ?_, houtcome⟩
          rw [hclient, ← hsame, ← hseq]
        · obtain ⟨other, hmem, hother⟩ := h.kept session seq found hrecorded
          exact ⟨other, List.mem_append_left _ hmem, hother⟩
      · obtain ⟨other, hmem, hother⟩ := h.kept session seq found hget
        exact ⟨other, List.mem_append_left _ hmem, hother⟩

/-- The identity of a logged member is settled: its retry gets the answer of the member, or is
told that the session has acknowledged it. -/
theorem checkIdentity (hmem : apply ∈ log) (hclient : apply.client = some marker.client) :
    live.checkIdentity marker = .expired ∨
      ∃ opcode, live.checkIdentity marker = .hit apply.entry.outcome opcode := by
  obtain ⟨hknown, hsettled⟩ := h.settled apply hmem marker.client hclient
  rw [LiveTablet.checkIdentity_of_mem hknown]
  by_cases hcovered : marker.client.seq ≤ (live.window marker.client.session).floor ∨
      marker.client.seq ≤ marker.ackFloor
  · exact Or.inl (if_pos hcovered)
  · obtain ⟨entry, hentry, houtcome⟩ :=
      hsettled.resolve_left fun hfloor ↦ hcovered (Or.inl hfloor)
    rw [if_neg hcovered, hentry, ← houtcome]
    exact Or.inr ⟨entry.opcode, rfl⟩

/-- An answer is given only for a logged member, and it is that member's. -/
theorem of_hit {outcome : DurableOutcome} {opcode : UInt8}
    (hhit : live.checkIdentity marker = .hit outcome opcode) :
    ∃ apply ∈ log, apply.client = some marker.client ∧ outcome = apply.entry.outcome := by
  have hknown : marker.client.session ∈ live.dedup := by
    by_contra hunknown
    rw [LiveTablet.checkIdentity, ExtTreeMap.getElem?_eq_none hunknown] at hhit
    cases hhit
  rw [LiveTablet.checkIdentity_of_mem hknown] at hhit
  split at hhit
  · cases hhit
  cases hentry : (live.window marker.client.session).kept[marker.client.seq]? with
  | none =>
    rw [hentry] at hhit
    dsimp only at hhit
    split_ifs at hhit
  | some entry =>
    rw [hentry] at hhit
    cases hhit
    exact h.kept _ _ entry hentry

theorem advance (hfresh : Fresh log apply) :
    Remembers (live.advance apply) (log ++ [apply]) :=
  h.install rfl hfresh (live.advance_dedup apply)

theorem recoverStep (hfresh : Fresh log apply) :
    Remembers (live.recoverStep apply) (log ++ [apply]) := by
  refine h.install apply.recovered_outcome hfresh ?_
  have hdedup := live.advance_dedup apply.recovered
  rw [ApplyData.recovered_identity] at hdedup
  exact hdedup

/-- Records with distinct identities are remembered through a replay. -/
theorem recover {applies : List ApplyData}
    (hdistinct : ((log ++ applies).filterMap ApplyData.client).Nodup) :
    Remembers (run LiveTablet.recoverStep live applies) (log ++ applies) := by
  induction applies generalizing live log with
  | nil => simpa using h
  | cons apply rest ih =>
    rw [List.append_cons] at hdistinct ⊢
    refine ih (h.recoverStep (fresh_of_nodup ?_)) hdistinct
    rw [List.filterMap_append] at hdistinct
    exact (List.nodup_append.mp hdistinct).1

end

end Remembers

/-! ### What a store was built from -/

/-- The stores that these mutations lead to, each applied once and in order, with sweeps anywhere
between them. -/
inductive BuiltFrom : List Timed → ObjectStore → Prop
  | new : BuiltFrom [] .new
  | apply {mutations : List Timed} {store : ObjectStore} (timed : Timed)
      (h : BuiltFrom mutations store) : BuiltFrom (mutations ++ [timed]) (applyStep store timed)
  | sweep {mutations : List Timed} {store : ObjectStore} (now : WallTimestamp) (limit : Nat)
      (skip : Std.ExtTreeSet Key) (h : BuiltFrom mutations store) :
      BuiltFrom mutations (store.sweepExpired now limit skip).2

/-- The mutation of a member that has one. -/
def ApplyData.timed (apply : ApplyData) : Option Timed :=
  match apply.kind with
  | .mutation mutation _ _ => some (mutation, apply.now)
  | .terminal _ _ => none

theorem BuiltFrom.member {mutations : List Timed} {store : ObjectStore}
    (h : BuiltFrom mutations store) (apply : ApplyData) :
    BuiltFrom (mutations ++ apply.timed.toList) (run commitStep store apply.write.toList) := by
  rcases apply with ⟨tablet, commit, kind, identity, now, respond⟩
  cases kind with
  | mutation mutation expected flag => exact h.apply (mutation, now)
  | terminal outcome opcode =>
    simp only [ApplyData.timed, ApplyData.write, Option.toList_none, List.append_nil, run_nil]
    exact h

theorem filterMap_concat_timed (log : List ApplyData) (apply : ApplyData) :
    (log ++ [apply]).filterMap ApplyData.timed =
      log.filterMap ApplyData.timed ++ apply.timed.toList := by
  rw [List.filterMap_append]
  cases htimed : apply.timed <;> simp [htimed]

variable {live : LiveTablet}

theorem BuiltFrom.advance (h : BuiltFrom (log.filterMap ApplyData.timed) live.store)
    (apply : ApplyData) :
    BuiltFrom ((log ++ [apply]).filterMap ApplyData.timed) (live.advance apply).store := by
  rw [LiveTablet.advance_store, filterMap_concat_timed]
  exact h.member apply

theorem BuiltFrom.recover (h : BuiltFrom (log.filterMap ApplyData.timed) live.store)
    (applies : List ApplyData) :
    BuiltFrom ((log ++ applies).filterMap ApplyData.timed)
      (run LiveTablet.recoverStep live applies).store := by
  induction applies generalizing live log with
  | nil => simpa using h
  | cons apply rest ih =>
    have hnext : BuiltFrom ((log ++ [apply]).filterMap ApplyData.timed)
        (live.recoverStep apply).store := by
      have htimed : apply.recovered.timed = apply.timed := by
        rcases apply with ⟨tablet, commit, kind, identity, now, respond⟩
        cases kind <;> rfl
      have hmember := h.member apply.recovered
      rw [htimed, ← filterMap_concat_timed] at hmember
      rwa [LiveTablet.recoverStep, LiveTablet.advance_store]
    rw [List.append_cons]
    exact ih hnext

/-- Sessions and store of a tablet come from this log. -/
def Traced (live : LiveTablet) (log : List ApplyData) : Prop :=
  Remembers live log ∧ BuiltFrom (log.filterMap ApplyData.timed) live.store

/-! ### The invariant of a worker -/

namespace Worker

/-- Identities are distinct on each tablet, pending ones are held, and every tablet's sessions
and store come from its log. -/
structure Deduplicates (worker : Worker) : Prop where
  distinct : ∀ tablet, ((onTablet tablet (worker.log ++ worker.coordinator.pending)).filterMap
    ApplyData.client).Nodup
  held : ∀ apply ∈ worker.coordinator.pending, ∀ client ∈ apply.client,
    client ∈ worker.coordinator.unappliedIdentities
  remembers : ∀ {tablet : TabletId} {live : LiveTablet}, worker.tablets[tablet]? = some live →
    Remembers live (onTablet tablet worker.log)
  built : ∀ {tablet : TabletId} {live : LiveTablet}, worker.tablets[tablet]? = some live →
    BuiltFrom ((onTablet tablet worker.log).filterMap ApplyData.timed) live.store

/-- The tablet of a queued request admits its identity. -/
def Admitted (worker : Worker) (entry : PendingEntry) : Prop :=
  ∀ live, worker.tablets[entry.tablet]? = some live →
    ∀ marker ∈ entry.identity, live.checkIdentity marker = .admitted

variable {worker : Worker} {entry : PendingEntry}

/-- What the fast paths leave over is admitted. -/
theorem admitted_of_fastAnswer (h : fastAnswer worker.tablets entry = none) :
    Admitted worker entry := by
  intro live hget marker hmarker
  simp only [fastAnswer, hget] at h
  split_ifs at h with hmutating
  · rw [Option.mem_def.mp hmarker, Option.map_some] at h
    cases hgate : live.checkIdentity marker with
    | admitted => rfl
    | _ => rw [hgate] at h; cases h
  · rw [Option.map_eq_none_iff] at h
    cases hop : entry.op <;> rw [hop] at h hmutating <;>
      first | exact absurd rfl hmutating | cases h

namespace Deduplicates

variable {worker after : Worker}

theorem congr (h : Deduplicates worker) (htablets : after.tablets = worker.tablets)
    (hlog : after.log = worker.log)
    (hpending : after.coordinator.pending = worker.coordinator.pending)
    (hidentities : after.coordinator.unappliedIdentities =
      worker.coordinator.unappliedIdentities) : Deduplicates after := by
  constructor
  · rw [hlog, hpending]
    exact h.distinct
  · rw [hpending, hidentities]
    exact h.held
  · intro tablet live hget
    rw [hlog]
    exact h.remembers (htablets ▸ hget)
  · intro tablet live hget
    rw [hlog]
    exact h.built (htablets ▸ hget)

/-- With nothing pending only the log matters. -/
theorem of_idle (hpending : after.coordinator.pending = [])
    (hdistinct : ∀ tablet, ((onTablet tablet after.log).filterMap ApplyData.client).Nodup)
    (htraced : ∀ {tablet : TabletId} {live : LiveTablet}, after.tablets[tablet]? = some live →
      Traced live (onTablet tablet after.log)) : Deduplicates after := by
  refine ⟨?_, ?_, fun hget ↦ (htraced hget).1, fun hget ↦ (htraced hget).2⟩
  · rw [hpending, List.append_nil]
    exact hdistinct
  · rw [hpending]
    exact List.forall_mem_nil _

/-- The members of a request that joins have an identity of their own. -/
theorem join (h : Deduplicates worker) (hinflight : worker.coordinator.inflight = none)
    {overlay : TabletOverlay} (hget : worker.tablets[apply.tablet]? = some live)
    (hid : live.id = apply.tablet)
    (hadmitted : ∀ marker ∈ apply.identity, live.checkIdentity marker = .admitted)
    (hheld : worker.coordinator.isHeld apply.tablet apply.identity = false) :
    Deduplicates (worker.join live overlay apply) := by
  have hpending := pending_join hinflight live overlay apply
  have hfresh : Fresh (onTablet apply.tablet (worker.log ++ worker.coordinator.pending)) apply := by
    intro other hmem client hother hclient
    obtain ⟨marker, hmarker, rfl⟩ := Option.map_eq_some_iff.mp hclient
    rcases List.mem_append.mp (mem_onTablet.mp hmem).1 with hlog | hwaiting
    · -- A logged identity is settled, so it would not have been admitted.
      have hlogged : other ∈ onTablet apply.tablet worker.log :=
        mem_onTablet.mpr ⟨hlog, (mem_onTablet.mp hmem).2⟩
      have hadmit := hadmitted marker hmarker
      rcases (h.remembers hget).checkIdentity hlogged hother with hexpired | ⟨opcode, hhit⟩
      · cases hexpired.symm.trans hadmit
      · cases hhit.symm.trans hadmit
    · -- A pending identity holds back every other request that carries it.
      have hcontains := h.held other hwaiting marker.client hother
      simp only [CommitCoordinator.isHeld, hinflight, Option.mem_def.mp hmarker,
        Bool.false_or, List.contains_eq_mem, decide_eq_false_iff_not] at hheld
      exact hheld hcontains
  have hown : worker.tablets[live.id]? = some live := by rw [hid, hget]
  have hkept {tablet : TabletId} {other : LiveTablet}
      (hother : (worker.join live overlay apply).tablets[tablet]? = some other) :
      ∃ old, worker.tablets[tablet]? = some old ∧ other.dedup = old.dedup ∧
        other.store = old.store := by
    change (worker.tablets.insert live.id { live with nextCommit := apply.commit })[tablet]? =
      some other at hother
    rw [ExtTreeMap.getElem?_insert] at hother
    split_ifs at hother with hsame
    · cases hother
      exact ⟨live, Std.compare_eq_iff_eq.mp hsame ▸ hown, rfl, rfl⟩
    · exact ⟨other, hother, rfl, rfl⟩
  constructor
  · intro tablet
    rw [hpending, ← List.append_assoc, onTablet_append, onTablet_singleton]
    change ((onTablet tablet (worker.log ++ worker.coordinator.pending) ++ _).filterMap _).Nodup
    split_ifs with hsame
    · rw [← hsame]
      exact nodup_of_fresh (h.distinct apply.tablet) hfresh
    · rw [List.append_nil]
      exact h.distinct tablet
  · intro other hmem client hclient
    rw [hpending] at hmem
    change client ∈ (CommitCoordinator.noteIdentity _ apply.identity).unappliedIdentities
    rcases List.mem_append.mp hmem with hold | hnew
    · have hwaiting := h.held other hold client hclient
      cases apply.identity with
      | none => exact hwaiting
      | some marker => exact List.mem_insert_of_mem hwaiting
    · rw [List.mem_singleton.mp hnew] at hclient
      obtain ⟨marker, hmarker, rfl⟩ := Option.map_eq_some_iff.mp hclient
      rw [hmarker]
      exact List.mem_insert_self
  · intro tablet other hother
    obtain ⟨old, hold, hdedup, -⟩ := hkept hother
    exact (h.remembers hold).congr hdedup
  · intro tablet other hother
    obtain ⟨old, hold, -, hstore⟩ := hkept hother
    rw [hstore]
    exact h.built hold

/-- Preparing a request that the tablet admits. -/
theorem prepares (h : Deduplicates worker) (hsound : Sound worker)
    (hinflight : worker.coordinator.inflight = none) (hadmitted : Admitted worker entry)
    (hheld : worker.coordinator.isHeld entry.tablet entry.identity = false)
    (hstep : Prepares worker entry after) : Deduplicates after := by
  cases hstep with
  | halted | refused => exact h.congr rfl rfl rfl rfl
  | failed live error overlay hget hprepare =>
    have happlies : (worker.stage live.id overlay).applies = worker.staging.applies := rfl
    exact h.congr rfl rfl (pending_setOpen hinflight happlies) rfl
  | exhausted live prepared overlay error hget hprepare hnext =>
    have happlies : (worker.stageAt live overlay).applies = worker.staging.applies := rfl
    exact h.congr rfl rfl (pending_setOpen hinflight happlies) rfl
  | joined live prepared overlay commit kind hget hprepare hnext hkind =>
    have hid := hsound.balanced.ids hget
    exact h.join hinflight (hid ▸ hget) rfl (hadmitted live hget) (hid ▸ hheld)

/-- Assigning positions changes no verdict. -/
theorem admitted_prepares {other : PendingEntry} (hsound : Sound worker)
    (hadmitted : Admitted worker other) (hstep : Prepares worker entry after) :
    Admitted after other := by
  cases hstep with
  | joined live prepared overlay commit kind hget hprepare hnext hkind =>
    have hid := hsound.balanced.ids hget
    have hown : worker.tablets[live.id]? = some live := by rw [hid, hget]
    intro found hfound marker hmarker
    change (worker.tablets.insert live.id { live with nextCommit := commit })[other.tablet]? =
      some found at hfound
    rw [ExtTreeMap.getElem?_insert] at hfound
    split_ifs at hfound with hsame
    · cases hfound
      exact hadmitted live (Std.compare_eq_iff_eq.mp hsame ▸ hown) marker hmarker
    · exact hadmitted found hfound marker hmarker
  | _ => exact hadmitted

theorem sealOpen (h : Deduplicates worker) (hinflight : worker.coordinator.inflight = none) :
    Deduplicates worker.sealOpen := by
  unfold Worker.sealOpen
  split
  · exact h
  next batch hopen =>
    split_ifs
    · exact h
    have hpending : worker.coordinator.pending = batch.applies := by
      rw [pending_eq_of_inflight hinflight, staging, hopen]
      rfl
    exact h.congr rfl rfl hpending.symm rfl

theorem poll (h : Deduplicates worker) (hsound : Sound worker) (full : Nat → Bool) (due : Bool) :
    Deduplicates (worker.poll full due) := by
  refine poll_invariant (P := fun rest worker ↦ Deduplicates worker ∧ Sound worker ∧
      ∀ entry ∈ rest, Admitted worker entry)
    (Q := Deduplicates) full ?_ ?_ ?_ due (h.congr rfl rfl rfl rfl) ?_ ?_ ?_
  · rintro rest worker ⟨hworker, hsound, -⟩
    exact ⟨hworker, hsound, List.forall_mem_nil _⟩
  · rintro front rest worker ⟨hworker, hsound, hadmitted⟩
    exact ⟨hworker.congr rfl rfl rfl rfl, hsound.congr rfl rfl rfl rfl,
      fun entry hmem ↦ hadmitted entry (List.mem_append_right _ hmem)⟩
  · rintro entry rest worker after hinflight hheld ⟨hworker, hsound, hadmitted⟩ hstep
    refine ⟨hworker.prepares hsound hinflight (hadmitted entry List.mem_cons_self) hheld hstep,
      hsound.prepares hinflight hstep, fun other hmem ↦ ?_⟩
    exact admitted_prepares hsound (hadmitted other (List.mem_cons_of_mem _ hmem)) hstep
  · refine ⟨h.congr rfl rfl rfl rfl, hsound.congr rfl rfl rfl rfl, fun entry hentry ↦ ?_⟩
    have hnone : fastAnswer worker.tablets entry = none := by
      simpa using (List.mem_filter.mp hentry).2
    exact admitted_of_fastAnswer hnone
  · exact fun _ hworker ↦ hworker.1
  · exact fun _ hinflight hworker ↦ hworker.1.sealOpen hinflight

/-- Applying a batch with distinct identities leaves sessions and stores that come from the log
with the batch in it. -/
theorem applyBatch {applies done : List ApplyData} {worker : Worker}
    (hbalanced : Balanced worker.tablets done applies)
    (hdistinct : ∀ tablet,
      ((onTablet tablet (done ++ applies)).filterMap ApplyData.client).Nodup)
    (h : ∀ {tablet : TabletId} {live : LiveTablet}, worker.tablets[tablet]? = some live →
      Traced live (onTablet tablet done))
    {tablet : TabletId} {live : LiveTablet}
    (hget : (Worker.applyBatch applies worker).tablets[tablet]? = some live) :
    Traced live (onTablet tablet (done ++ applies)) := by
  induction applies generalizing done worker with
  | nil =>
    rw [List.append_nil]
    exact h hget
  | cons apply rest ih =>
    obtain ⟨old, hold, hitem, hnext⟩ := hbalanced.advance
    have hid := hbalanced.ids hold
    have hbind : worker.tablets[apply.tablet]?.bind (applyItem · apply) =
        some (old.advance apply, mapTerminal apply.entry.outcome) := by
      rw [hold]
      exact hitem
    rw [Worker.applyBatch, hbind] at hget
    rw [List.append_cons] at hdistinct ⊢
    refine @ih (done ++ [apply])
      ((({ worker with coordinator := worker.coordinator.forgetIdentity apply.identity }).setTablet
        (old.advance apply)).reply apply.respond (mapTerminal apply.entry.outcome)) hnext hdistinct
      (fun {other found} hfound ↦ ?_) hget
    change (worker.tablets.insert (old.advance apply).id (old.advance apply))[other]? =
      some found at hfound
    rw [ExtTreeMap.getElem?_insert, LiveTablet.advance_id, hid] at hfound
    rw [onTablet_append, onTablet_singleton]
    split_ifs at hfound with hsame
    · cases hfound
      cases Std.compare_eq_iff_eq.mp hsame
      obtain ⟨hremembers, hbuilt⟩ := h hold
      rw [if_pos rfl]
      have hnodup := hdistinct apply.tablet
      rw [onTablet_append, onTablet_append, onTablet_singleton, if_pos rfl,
        List.filterMap_append] at hnodup
      exact ⟨hremembers.advance (fresh_of_nodup (List.nodup_append.mp hnodup).1),
        hbuilt.advance apply⟩
    · rw [if_neg fun heq ↦ hsame (Std.compare_eq_iff_eq.mpr heq), List.append_nil]
      exact h hfound

/-- A completion retains the answers of its batch, or forgets the identities it had noted. -/
theorem complete (h : Deduplicates worker) (hsound : Sound worker) (durable : Bool) :
    Deduplicates (worker.applyCompletion durable) := by
  cases hinflight : worker.coordinator.inflight with
  | none =>
    rw [applyCompletion_of_none hinflight]
    exact h
  | some batch =>
    obtain ⟨hbalanced, hrewinds⟩ := hsound.rewinds hinflight
    have hdistinct := h.distinct
    rw [hsound.pending_eq_inflight hinflight] at hdistinct
    cases durable with
    | true =>
      obtain ⟨-, heq⟩ := @applyBatch_balanced _ _ (worker.landed batch) hbalanced
      rw [applyCompletion_true hinflight, heq]
      refine of_idle (hsound.pending_taken hinflight) hdistinct fun hget ↦ ?_
      exact @applyBatch _ _ (worker.landed batch) hbalanced hdistinct
        (fun hold ↦ ⟨h.remembers hold, h.built hold⟩) _ _ hget
    | false =>
      rw [applyCompletion_false hinflight, rewindBatch_eq]
      refine of_idle (hsound.pending_taken hinflight) (fun tablet ↦ ?_) fun {tablet live} hget ↦ ?_
      · refine (hdistinct tablet).sublist (List.Sublist.filterMap _ (List.Sublist.filter _ ?_))
        exact List.sublist_append_left _ _
      · have hrewound := @rewindBatch_tablets _ _ (worker.dropped batch) hrewinds tablet
        obtain ⟨old, hold, rfl⟩ := Option.map_eq_some_iff.mp (hrewound.symm.trans hget)
        exact ⟨(h.remembers hold).congr rfl, (h.built hold : BuiltFrom _ old.store)⟩

theorem sweep (h : Deduplicates worker) (now : WallTimestamp) (limit : Nat) :
    Deduplicates (worker.sweep now limit) := by
  unfold Worker.sweep
  split
  · exact h.congr rfl rfl rfl rfl
  next keys hkeys =>
    refine ⟨h.distinct, h.held, fun {tablet live} hget ↦ ?_, fun {tablet live} hget ↦ ?_⟩
    · rw [ExtTreeMap.getElem?_map] at hget
      obtain ⟨old, hold, rfl⟩ := Option.map_eq_some_iff.mp hget
      exact (h.remembers hold).congr rfl
    · rw [ExtTreeMap.getElem?_map] at hget
      obtain ⟨old, hold, rfl⟩ := Option.map_eq_some_iff.mp hget
      exact (h.built hold).sweep now limit _

theorem crash (h : Deduplicates worker) (persisted : Bool) :
    Deduplicates (worker.crash persisted) := by
  have hdistinct (tablet : TabletId) :
      ((onTablet tablet (worker.crashLog persisted)).filterMap ApplyData.client).Nodup := by
    refine (h.distinct tablet).sublist (List.Sublist.filterMap _ (List.Sublist.filter _ ?_))
    unfold crashLog
    split_ifs
    · exact (List.sublist_append_right _ _).append_left _
    · exact List.sublist_append_left _ _
  rw [crash_eq]
  cases hrecover : recover worker.ids (worker.crashLog persisted) with
  | none => exact of_idle rfl hdistinct fun hget ↦ by simp at hget
  | some tablets =>
    refine of_idle rfl hdistinct fun {tablet live} hget ↦ ?_
    obtain ⟨-, rfl⟩ := recover_get hrecover hget
    have hnew : BuiltFrom (([] : List ApplyData).filterMap ApplyData.timed)
        (LiveTablet.new tablet).store := .new
    exact ⟨(Remembers.new tablet).recover (hdistinct tablet), hnew.recover _⟩

theorem step (h : Deduplicates worker) (hsound : Sound worker) (event : Event) :
    Deduplicates (worker.step event) := by
  unfold Worker.step
  split
  · exact h.crash _
  · exact h
  · exact h.congr rfl rfl rfl rfl
  · exact h.poll hsound _ _
  · exact h.complete hsound _
  · exact h.sweep _ _

end Deduplicates

theorem deduplicates_new (ids : List TabletId) : Deduplicates (.new ids) := by
  refine .of_idle rfl (fun _ ↦ List.nodup_nil) fun {tablet live} h ↦ ?_
  obtain ⟨id, -, hid⟩ := List.mem_map.mp (LastWins.mem_of_getElem?_ofList h)
  cases hid
  exact ⟨Remembers.new tablet, .new⟩

theorem ReachableWorker.deduplicates {ids : List TabletId} (h : ReachableWorker ids worker) :
    Deduplicates worker :=
  (h.invariant (P := fun worker ↦ Deduplicates worker ∧ Sound worker)
    ⟨deduplicates_new ids, sound_new ids⟩
    fun _ event hworker ↦ ⟨hworker.1.step hworker.2 event, hworker.2.step event⟩).1

/-- In every state that admissions, polls, completions, sweeps and crashes lead to, the members of
a tablet carry distinct identities and its store is built from the mutations of the logged ones,
each applied once. A retry of a logged identity is answered with the logged answer or as expired,
and no identity gets an answer that was not logged for it. -/
theorem executes_at_most_once {ids : List TabletId} {worker : Worker}
    (h : ReachableWorker ids worker) {tablet : TabletId} {live : LiveTablet}
    (hget : worker.tablets[tablet]? = some live) :
    ((onTablet tablet (worker.log ++ worker.coordinator.pending)).filterMap
        ApplyData.client).Nodup ∧
      BuiltFrom ((onTablet tablet worker.log).filterMap ApplyData.timed) live.store ∧
      (∀ apply ∈ onTablet tablet worker.log, ∀ (entry : PendingEntry) (marker : MutationIdentity),
        entry.tablet = tablet → entry.op.isMutating = true → entry.identity = some marker →
        apply.client = some marker.client →
          fastAnswer worker.tablets entry = some (.error .dedupExpired) ∨
            fastAnswer worker.tablets entry = some (mapTerminal apply.entry.outcome)) ∧
      ∀ (marker : MutationIdentity) (outcome : DurableOutcome) (opcode : UInt8),
        live.checkIdentity marker = .hit outcome opcode →
          ∃ apply ∈ onTablet tablet worker.log,
            apply.client = some marker.client ∧ outcome = apply.entry.outcome := by
  have hworker := h.deduplicates
  refine ⟨hworker.distinct tablet, hworker.built hget, ?_, fun marker outcome opcode hhit ↦ ?_⟩
  · intro apply hmem entry marker htablet hmutating hidentity hclient
    obtain ⟨hlog, rfl⟩ := mem_onTablet.mp hmem
    simp only [fastAnswer, htablet, hget, hmutating, if_true, hidentity, Option.map_some]
    rcases (hworker.remembers hget).checkIdentity hmem hclient with hexpired | ⟨opcode, hhit⟩
    · rw [hexpired]
      exact Or.inl rfl
    · rw [hhit]
      exact Or.inr rfl
  · exact (hworker.remembers hget).of_hit hhit

/-- A retry after a crash, with another operation, gets the answer of the first execution. -/
theorem executes_at_most_once_across_crash :
    let marker : MutationIdentity := ⟨⟨7, 3⟩, 0⟩
    let worker := run step (.new [⟨1⟩]) [.admitEntry ⟨1⟩ (.counterAdd [1] 5) 1 (some marker) none,
      .poll (fun _ ↦ false) true, .complete true, .crash false]
    let retry : PendingEntry := ⟨⟨1⟩, .counterAdd [1] 9, 2, some marker, none, 1⟩
    ReachableWorker [⟨1⟩] worker ∧
      fastAnswer worker.tablets retry = some (.ok (.counterUpdated 5 .first)) ∧
      ∃ live, worker.tablets[(⟨1⟩ : TabletId)]? = some live ∧
        ∃ apply ∈ onTablet ⟨1⟩ worker.log,
          apply.client = some marker.client ∧
            DurableOutcome.completed (.counterUpdated 5 .first) = apply.entry.outcome := by
  intro marker worker retry
  have hreach : ReachableWorker [⟨1⟩] worker := ⟨_, rfl⟩
  have hsome : (worker.tablets[(⟨1⟩ : TabletId)]?).isSome = true := by decide
  obtain ⟨live, hget⟩ := Option.isSome_iff_exists.mp hsome
  have hhit : (worker.tablets[(⟨1⟩ : TabletId)]?).map (·.checkIdentity marker) =
      some (.hit (.completed (.counterUpdated 5 .first)) 6) := by decide
  rw [hget, Option.map_some, Option.some.injEq] at hhit
  refine ⟨hreach, by decide, live, hget, ?_⟩
  exact (executes_at_most_once hreach hget).2.2.2 marker _ 6 hhit

end Worker

end Kivi.Engine
