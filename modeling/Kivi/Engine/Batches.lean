import Kivi.Engine.Ledger

/-!
# The batches of a worker

A batch is prepared over the committed stores, handed to the lane, and then applied or given up
as a whole. `Sound` is the invariant of a worker: its ledgers balance, at most one of the two
batches exists, the overlays follow the stores their batch leads to, and every member's tablet
has the position noted that a failure must return to. `Prepares` lists all that preparing a
request can do, and what a poll keeps is read off it (`poll_invariant`).
-/

namespace Kivi.Engine

open Library State
open Consensus (CommitPosition MutationIdentity)
open Std (ExtTreeMap)
open CommitCoordinator

namespace CommitCoordinator

def openApplies (coordinator : CommitCoordinator) : List ApplyData :=
  (coordinator.openBatch.map OpenBatch.applies).getD []

def inflightApplies (coordinator : CommitCoordinator) : List ApplyData :=
  (coordinator.inflight.map InflightBatch.applies).getD []

/-- The members with a position that are not applied. -/
def pending (coordinator : CommitCoordinator) : List ApplyData :=
  coordinator.openApplies ++ coordinator.inflightApplies

variable (coordinator : CommitCoordinator) (identity : Option MutationIdentity)

theorem noteIdentity_kept :
    (coordinator.noteIdentity identity).queue = coordinator.queue ∧
      (coordinator.noteIdentity identity).openBatch = coordinator.openBatch ∧
      (coordinator.noteIdentity identity).inflight = coordinator.inflight := by
  cases identity <;> exact ⟨rfl, rfl, rfl⟩

/-- Remove the identities of several members. -/
def forgetAll (coordinator : CommitCoordinator) (applies : List ApplyData) : CommitCoordinator :=
  applies.foldl (fun coordinator apply ↦ coordinator.forgetIdentity apply.identity) coordinator

theorem forgetAll_kept (applies : List ApplyData) :
    (coordinator.forgetAll applies).queue = coordinator.queue ∧
      (coordinator.forgetAll applies).openBatch = coordinator.openBatch ∧
      (coordinator.forgetAll applies).inflight = coordinator.inflight := by
  induction applies generalizing coordinator with
  | nil => exact ⟨rfl, rfl, rfl⟩
  | cons apply rest ih =>
    rw [forgetAll, List.foldl_cons]
    cases apply.identity <;> exact ih _

end CommitCoordinator

namespace Worker

/-! ### What preparing a request can do -/

variable (worker : Worker)

/-- The batch that is being prepared. -/
def staging : OpenBatch := worker.coordinator.openBatch.getD .empty

/-- What the open batch has staged on a tablet. -/
def overlayOf (tablet : TabletId) : TabletOverlay :=
  (worker.staging.overlays[tablet]?).getD .empty

/-- The open batch with another overlay of one tablet. -/
def stage (tablet : TabletId) (overlay : TabletOverlay) : OpenBatch :=
  { worker.staging with overlays := worker.staging.overlays.insert tablet overlay }

/-- The open batch with another overlay, and with the position to return to. -/
def stageAt (live : LiveTablet) (overlay : TabletOverlay) : OpenBatch :=
  { worker.stage live.id overlay with
    commitBase := worker.staging.commitBase.insertIfNew live.id live.nextCommit }

/-- A member joins the open batch. -/
def join (live : LiveTablet) (overlay : TabletOverlay) (apply : ApplyData) : Worker :=
  let batch := worker.stageAt live overlay
  let joined := (worker.setOpen { batch with applies := batch.applies ++ [apply] }).setTablet
    { live with nextCommit := apply.commit }
  { joined with coordinator := joined.coordinator.noteIdentity apply.identity }

/-- All that preparing a request can do. -/
inductive Prepares (worker : Worker) (entry : PendingEntry) : Worker → Prop
  | halted : Prepares worker entry worker.halt
  | refused (error : WorkerRequestError) :
      Prepares worker entry (worker.reply entry.respond (.error error))
  | failed (live : LiveTablet) (error : TabletError) (overlay : TabletOverlay)
      (hget : worker.tablets[entry.tablet]? = some live)
      (hprepare : (worker.overlayOf live.id).prepareEntry live.store entry.op entry.now =
        (.err error, overlay)) :
      Prepares worker entry
        ((worker.setOpen (worker.stage live.id overlay)).reply entry.respond
          (.error (.tablet error)))
  | exhausted (live : LiveTablet) (prepared : StorePrepared) (overlay : TabletOverlay)
      (error : TabletError) (hget : worker.tablets[entry.tablet]? = some live)
      (hprepare : (worker.overlayOf live.id).prepareEntry live.store entry.op entry.now =
        (.ok prepared, overlay))
      (hnext : nextPosition live.nextCommit = none) :
      Prepares worker entry
        ((worker.setOpen (worker.stageAt live overlay)).reply entry.respond
          (.error (.tablet error)))
  | joined (live : LiveTablet) (prepared : StorePrepared) (overlay : TabletOverlay)
      (commit : CommitPosition) (kind : PreparedKind)
      (hget : worker.tablets[entry.tablet]? = some live)
      (hprepare : (worker.overlayOf live.id).prepareEntry live.store entry.op entry.now =
        (.ok prepared, overlay))
      (hnext : nextPosition live.nextCommit = some commit)
      (hkind : preparedKind entry.op prepared = some kind) :
      Prepares worker entry (worker.join live overlay
        ⟨live.id, commit, kind, entry.identity, entry.now, entry.respond⟩)

variable {worker : Worker} {entry : PendingEntry} {live : LiveTablet}

/-- Preparing into the open batch is one of the ways to prepare. -/
theorem prepares_prepareIntoOpen (hget : worker.tablets[entry.tablet]? = some live) :
    Prepares worker entry (worker.prepareIntoOpen live entry) := by
  rcases hprepare : (worker.overlayOf live.id).prepareEntry live.store entry.op entry.now with
    ⟨prepared | error | _, overlay⟩
  · have hstaged := hprepare
    simp only [overlayOf, staging] at hstaged
    cases hnext : nextPosition live.nextCommit with
    | none =>
      have hassign : live.assignCommit = (.error (.commitExhausted live.id), live) := by
        simp [LiveTablet.assignCommit, hnext]
      simp only [prepareIntoOpen, hstaged, hassign]
      exact .exhausted live prepared overlay _ hget hprepare hnext
    | some commit =>
      have hassign : live.assignCommit = (.ok commit, { live with nextCommit := commit }) := by
        simp [LiveTablet.assignCommit, hnext]
      cases hkind : preparedKind entry.op prepared with
      | none =>
        simp only [prepareIntoOpen, hstaged, hassign, hkind]
        exact .halted
      | some kind =>
        simp only [prepareIntoOpen, hstaged, hassign, hkind]
        exact .joined live prepared overlay commit kind hget hprepare hnext hkind
  · have hstaged := hprepare
    simp only [overlayOf, staging] at hstaged
    simp only [prepareIntoOpen, hstaged]
    exact .failed live error overlay hget hprepare
  · simp only [overlayOf, staging] at hprepare
    simp only [prepareIntoOpen, hprepare]
    exact .halted

theorem prepares_prepareQueued (worker : Worker) (entry : PendingEntry) :
    Prepares worker entry (worker.prepareQueued entry) := by
  unfold prepareQueued
  cases hget : worker.tablets[entry.tablet]? with
  | none => exact .halted
  | some live =>
    dsimp only
    split_ifs
    · exact .refused _
    · cases worker.fenceHolds live entry with
      | none => exact .halted
      | some holds =>
        cases holds with
        | false => exact .refused _
        | true => exact prepares_prepareIntoOpen hget

variable {after : Worker}

/-- Preparing puts nothing in flight. -/
theorem Prepares.inflight_eq_none (h : Prepares worker entry after)
    (hinflight : worker.coordinator.inflight = none) :
    after.coordinator.inflight = none := by
  cases h with
  | joined live prepared overlay commit kind hget hprepare hnext hkind =>
    exact (noteIdentity_kept _ _).2.2.trans hinflight
  | _ => exact hinflight

/-! ### Rules for a poll -/

section

variable {P : List PendingEntry → Worker → Prop} (full : Nat → Bool)
  (hhalted : ∀ rest worker, P rest worker → P [] worker)
  (hrequeue : ∀ front rest worker, P (front ++ rest) worker → P rest (worker.requeue front))
  (hprepare : ∀ entry rest worker after, worker.coordinator.inflight = none →
    worker.coordinator.isHeld entry.tablet entry.identity = false → P (entry :: rest) worker →
      Prepares worker entry after → P rest after)
include hhalted hrequeue hprepare

/-- What holds of the requests still to come and of the worker survives the preparation when
dropping them at a halt, putting them back and preparing one of them keep it. -/
theorem prepareMutations_invariant (index : Nat) (rest : List PendingEntry) (worker : Worker)
    (hinflight : worker.coordinator.inflight = none) (h : P rest worker) :
    P [] (prepareMutations full index rest worker) ∧
      (prepareMutations full index rest worker).coordinator.inflight = none := by
  induction rest generalizing index worker with
  | nil => exact ⟨h, hinflight⟩
  | cons entry rest ih =>
    unfold prepareMutations
    split_ifs with _ _ hheld
    · exact ⟨hhalted _ _ h, hinflight⟩
    · exact ⟨hrequeue (entry :: rest) [] worker (by rwa [List.append_nil]), hinflight⟩
    · exact ih _ _ hinflight (hrequeue [entry] rest worker h)
    · have hstep := prepares_prepareQueued worker entry
      refine ih _ _ (hstep.inflight_eq_none hinflight) ?_
      exact hprepare entry rest worker _ hinflight (by simpa using hheld) h hstep

theorem poll_invariant {Q : Worker → Prop} (due : Bool) (hanswered : Q worker.answerFastPaths)
    (hstart : P worker.answerFastPaths.coordinator.queue
      { worker.answerFastPaths with
        coordinator := { worker.answerFastPaths.coordinator with queue := [] } })
    (hopen : ∀ worker, P [] worker → Q worker)
    (hseal : ∀ worker, worker.coordinator.inflight = none → P [] worker → Q worker.sealOpen) :
    Q (worker.poll full due) := by
  unfold poll
  dsimp only
  split_ifs with hinflight
  · exact hanswered
  all_goals
    obtain ⟨hprepared, hnone⟩ := prepareMutations_invariant full hhalted hrequeue hprepare 0 _ _
      (by simpa [answerFastPaths] using hinflight) hstart
  · exact hseal _ hnone hprepared
  · exact hopen _ hprepared

end

/-! ### The invariant -/

/-- How an overlay stands to the writes of its batch. Once positions are exhausted a request may
have been staged that did not join. -/
structure Staged (live : LiveTablet) (writes : List PreparedWrite) (overlay : TabletOverlay) :
    Prop where
  keys : ∀ write ∈ writes, ∀ key ∈ write.mutation.keys, key ∈ overlay.pending
  tracks : nextPosition live.nextCommit = none ∨ Tracks live.store writes overlay

/-- Every member's tablet has a noted position, and it is the applied one. -/
structure Based (tablets : ExtTreeMap TabletId LiveTablet) (applies : List ApplyData)
    (commitBase : ExtTreeMap TabletId CommitPosition) : Prop where
  noted : ∀ apply ∈ applies, apply.tablet ∈ commitBase
  applied : ∀ {tablet : TabletId} {base : CommitPosition}, commitBase[tablet]? = some base →
    ∀ {live : LiveTablet}, tablets[tablet]? = some live → base = live.appliedCommit

/-- The invariant of a worker's batches. -/
structure Sound (worker : Worker) : Prop where
  balanced : Balanced worker.tablets worker.log worker.coordinator.pending
  single : worker.coordinator.openBatch = none ∨ worker.coordinator.inflight = none
  staged : ∀ {tablet : TabletId} {live : LiveTablet}, worker.tablets[tablet]? = some live →
    Staged live (writesOn tablet worker.staging.applies) (worker.overlayOf tablet)
  openBased : Based worker.tablets worker.staging.applies worker.staging.commitBase
  inflightBased : ∀ batch, worker.coordinator.inflight = some batch →
    Based worker.tablets batch.applies batch.commitBase

theorem openApplies_eq (worker : Worker) :
    worker.coordinator.openApplies = worker.staging.applies := by
  unfold openApplies staging
  cases worker.coordinator.openBatch <;> rfl

/-- While nothing is in flight the pending members are those of the open batch. -/
theorem pending_eq_of_inflight {worker : Worker} (h : worker.coordinator.inflight = none) :
    worker.coordinator.pending = worker.staging.applies := by
  rw [CommitCoordinator.pending, openApplies_eq, inflightApplies, h]
  exact List.append_nil _

@[simp] theorem staging_setOpen (worker : Worker) (batch : OpenBatch) :
    (worker.setOpen batch).staging = batch := rfl

theorem pending_setOpen (h : worker.coordinator.inflight = none) {batch : OpenBatch}
    (happlies : batch.applies = worker.staging.applies) :
    (worker.setOpen batch).coordinator.pending = worker.coordinator.pending := by
  rw [pending_eq_of_inflight h, @pending_eq_of_inflight (worker.setOpen batch) h,
    staging_setOpen, happlies]

theorem pending_join (h : worker.coordinator.inflight = none) (live : LiveTablet)
    (overlay : TabletOverlay) (apply : ApplyData) :
    (worker.join live overlay apply).coordinator.pending =
      worker.coordinator.pending ++ [apply] := by
  have hnone : (worker.join live overlay apply).coordinator.inflight = none :=
    (noteIdentity_kept _ _).2.2.trans h
  have hopen : (worker.join live overlay apply).coordinator.openBatch =
      some { worker.stageAt live overlay with applies := worker.staging.applies ++ [apply] } :=
    (noteIdentity_kept _ _).2.1
  rw [pending_eq_of_inflight hnone, pending_eq_of_inflight h, staging, hopen]
  rfl

namespace Sound

variable {worker after : Worker}

/-- Queue, replies and addresses play no part. -/
theorem congr (h : Sound worker) (htablets : after.tablets = worker.tablets)
    (hlog : after.log = worker.log)
    (hopen : after.coordinator.openBatch = worker.coordinator.openBatch)
    (hinflight : after.coordinator.inflight = worker.coordinator.inflight) : Sound after := by
  have hstaging : after.staging = worker.staging := by rw [staging, staging, hopen]
  have hpending : after.coordinator.pending = worker.coordinator.pending := by
    rw [CommitCoordinator.pending, CommitCoordinator.pending, openApplies_eq, openApplies_eq,
      hstaging, inflightApplies, inflightApplies, hinflight]
  have hoverlay (tablet : TabletId) : after.overlayOf tablet = worker.overlayOf tablet := by
    rw [overlayOf, overlayOf, hstaging]
  constructor
  · rw [htablets, hlog, hpending]
    exact h.balanced
  · rw [hopen, hinflight]
    exact h.single
  · intro tablet live hget
    rw [hstaging, hoverlay]
    exact h.staged (htablets ▸ hget)
  · rw [htablets, hstaging]
    exact h.openBased
  · rw [htablets, hinflight]
    exact h.inflightBased

end Sound

/-! ### Preparing keeps the invariant -/

theorem overlay_stage (worker : Worker) (tablet other : TabletId) (overlay : TabletOverlay) :
    ((worker.stage tablet overlay).overlays[other]?).getD .empty =
      if other = tablet then overlay else worker.overlayOf other := by
  simp only [stage, ExtTreeMap.getElem?_insert, Std.compare_eq_iff_eq, @eq_comm _ tablet]
  by_cases hsame : other = tablet
  · simp [hsame]
  · simp [hsame, overlayOf]

/-- The open batch is replaced by one with the same members. -/
theorem Sound.restage (h : Sound worker) (hinflight : worker.coordinator.inflight = none)
    {batch : OpenBatch} (happlies : batch.applies = worker.staging.applies)
    (hbased : Based worker.tablets batch.applies batch.commitBase)
    (hstaged : ∀ {tablet : TabletId} {live : LiveTablet}, worker.tablets[tablet]? = some live →
      Staged live (writesOn tablet worker.staging.applies)
        ((batch.overlays[tablet]?).getD .empty)) :
    Sound (worker.setOpen batch) where
  balanced := by
    rw [pending_setOpen hinflight happlies]
    exact h.balanced
  single := Or.inr hinflight
  staged hget := by
    rw [staging_setOpen, happlies]
    exact hstaged hget
  openBased := hbased
  inflightBased other hother := absurd (hinflight.symm.trans hother) nofun

/-- The position noted for a tablet whose first member is prepared is the applied one. -/
theorem Sound.based_stageAt (h : Sound worker) (hinflight : worker.coordinator.inflight = none)
    (hget : worker.tablets[live.id]? = some live) :
    Based worker.tablets worker.staging.applies
      (worker.staging.commitBase.insertIfNew live.id live.nextCommit) := by
  constructor
  · intro apply hmem
    exact ExtTreeMap.mem_insertIfNew.mpr (Or.inr (h.openBased.noted apply hmem))
  · intro tablet base hbase other hother
    rw [ExtTreeMap.getElem?_insertIfNew] at hbase
    split_ifs at hbase with hnew
    · obtain ⟨hsame, hfresh⟩ := hnew
      cases Std.compare_eq_iff_eq.mp hsame
      cases hget.symm.trans hother
      cases hbase
      have hnone : onTablet live.id worker.coordinator.pending = [] := by
        rw [pending_eq_of_inflight hinflight]
        exact onTablet_eq_nil fun apply hmem heq ↦ hfresh (heq ▸ h.openBased.noted apply hmem)
      have hledger := h.balanced.ledger hget
      rw [← UInt64.toNat_inj, hledger.assigned, hledger.applied, hnone, List.append_nil]
    · exact h.openBased.applied hbase hother

variable {apply : ApplyData}

section

variable (h : Sound worker) (hinflight : worker.coordinator.inflight = none)
include h hinflight

/-- A request joins the open batch at the next position of its tablet, its answer predicted behind
those before it. -/
theorem Sound.join (hget : worker.tablets[apply.tablet]? = some live) {op : Operation}
    {prepared : StorePrepared} {overlay : TabletOverlay}
    (hprepare : (worker.overlayOf live.id).prepareEntry live.store op apply.now =
      (.ok prepared, overlay)) (hnext : nextPosition live.nextCommit = some apply.commit)
    (hkind : preparedKind op prepared = some apply.kind) :
    Sound (worker.join live overlay apply) := by
  have hid := h.balanced.ids hget
  have hbased := h.based_stageAt hinflight (hid ▸ hget)
  have hwrites : writesOn live.id (worker.staging.applies ++ [apply]) =
      writesOn live.id worker.staging.applies ++ apply.write.toList := by
    rw [writesOn_append, writesOn_singleton, if_pos hid.symm]
  -- The next position exists, so the overlay follows the batch.
  have htracks : Tracks live.store (writesOn live.id (worker.staging.applies ++ [apply]))
      overlay := by
    rw [hwrites]
    rw [hid] at hprepare ⊢
    rcases (h.staged hget).tracks with hnone | htracks
    · cases hnone.symm.trans hnext
    rcases htracks.prepareEntry (h.balanced.ledger hget).reachable op apply.now with
      ⟨hnone, hsame⟩ | ⟨mutation, expected, hwrite, hfollows⟩
    · rw [hprepare] at hnone hsame
      cases hsame
      have hterminal : apply.write = none := by
        cases prepared with
        | read result => cases hkind
        | write mutation expected => exact absurd rfl (hnone mutation expected)
        | terminal outcome => rw [ApplyData.write, ← Option.some.inj hkind]
      rw [hterminal, Option.toList_none, List.append_nil]
      exact htracks
    · rw [hprepare] at hwrite hfollows
      cases hwrite
      have hkept : apply.write = some ⟨mutation, expected, op.isPersistExpiry, apply.now⟩ := by
        rw [ApplyData.write, ← Option.some.inj hkind]
      rw [hkept]
      exact hfollows
  let batch : OpenBatch :=
    { worker.stageAt live overlay with applies := worker.staging.applies ++ [apply] }
  let assigned : LiveTablet := { live with nextCommit := apply.commit }
  have hjoined : Sound ((worker.setOpen batch).setTablet assigned) := by
    constructor
    · rw [@pending_eq_of_inflight ((worker.setOpen batch).setTablet assigned) hinflight]
      have hbalanced := h.balanced
      rw [pending_eq_of_inflight hinflight] at hbalanced
      have hagrees := htracks.agrees
      rw [hid] at hagrees
      have hassigned := hbalanced.assign hget hnext hagrees
      exact hassigned
    · exact Or.inr hinflight
    · intro tablet other hother
      change (worker.tablets.insert live.id assigned)[tablet]? = some other at hother
      change Staged other (writesOn tablet (worker.staging.applies ++ [apply]))
        (((worker.stage live.id overlay).overlays[tablet]?).getD .empty)
      rw [overlay_stage]
      rw [ExtTreeMap.getElem?_insert] at hother
      by_cases hsame : tablet = live.id
      · subst hsame
        rw [if_pos Std.ReflCmp.compare_self] at hother
        cases hother
        rw [if_pos rfl]
        exact ⟨fun write hwrite key hkey ↦ (htracks.pending key).mpr ⟨write, hwrite, hkey⟩,
          Or.inr htracks⟩
      · rw [if_neg fun heq ↦ hsame (Std.compare_eq_iff_eq.mp heq).symm] at hother
        rw [if_neg hsame, writesOn_append, writesOn_singleton,
          if_neg fun heq ↦ hsame (hid ▸ heq.symm), List.append_nil]
        exact h.staged hother
    · constructor
      · intro other hmem
        rcases List.mem_append.mp hmem with hold | hnew
        · exact hbased.noted other hold
        · rw [List.mem_singleton.mp hnew, ← hid]
          exact ExtTreeMap.mem_insertIfNew_self
      · intro tablet base hbase other hother
        change (worker.tablets.insert live.id assigned)[tablet]? = some other at hother
        rw [ExtTreeMap.getElem?_insert] at hother
        split_ifs at hother with hsame
        · cases hother
          cases Std.compare_eq_iff_eq.mp hsame
          exact (hbased.applied hbase (hid ▸ hget) : base = live.appliedCommit)
        · exact hbased.applied hbase hother
    · exact fun other hother ↦ absurd (hinflight.symm.trans hother) (Option.some_ne_none _).symm
  obtain ⟨-, hopen, hnone⟩ := noteIdentity_kept
    ((worker.setOpen batch).setTablet assigned).coordinator apply.identity
  exact hjoined.congr rfl rfl hopen hnone

/-- Preparing a request keeps the invariant. -/
theorem Sound.prepares (hstep : Prepares worker entry after) : Sound after := by
  cases hstep with
  | halted | refused => exact h.congr rfl rfl rfl rfl
  | failed live error overlay hget hprepare =>
    have hsame : overlay = worker.overlayOf live.id := by
      rcases (worker.overlayOf live.id).prepareEntry_keeps live.store entry.op entry.now with
        ⟨-, hkept⟩ | ⟨⟨mutation, expected, hwrite⟩, -⟩
      · rwa [hprepare] at hkept
      · rw [hprepare] at hwrite
        cases hwrite
    have hstaged : Sound (worker.setOpen (worker.stage live.id overlay)) := by
      refine h.restage hinflight rfl h.openBased fun {tablet other} hother ↦ ?_
      rw [overlay_stage, hsame]
      split_ifs with htablet
      · rw [← htablet]
        exact h.staged hother
      · exact h.staged hother
    exact hstaged.congr rfl rfl rfl rfl
  | exhausted live prepared overlay error hget hprepare hnext =>
    have hid := h.balanced.ids hget
    have hstaged : Sound (worker.setOpen (worker.stageAt live overlay)) := by
      refine h.restage hinflight rfl (h.based_stageAt hinflight (hid ▸ hget))
        fun {tablet other} hother ↦ ?_
      change Staged other _ (((worker.stage live.id overlay).overlays[tablet]?).getD .empty)
      rw [overlay_stage]
      split_ifs with htablet
      · -- The position is exhausted, so only the keys matter.
        rw [htablet, hid] at hother
        cases hget.symm.trans hother
        refine ⟨fun write hwrite key hkey ↦ ?_, Or.inl hnext⟩
        have hold := (h.staged hget).keys write (by rwa [htablet, hid] at hwrite) key hkey
        rw [← hid] at hold
        rcases (worker.overlayOf live.id).prepareEntry_keeps live.store entry.op entry.now with
          ⟨-, hkept⟩ | ⟨-, hkept⟩
        · rw [hprepare] at hkept
          cases hkept
          exact hold
        · have hnew := hkept key hold
          rwa [hprepare] at hnew
      · exact h.staged hother
    exact hstaged.congr rfl rfl rfl rfl
  | joined live prepared overlay commit kind hget hprepare hnext hkind =>
    have hid := h.balanced.ids hget
    exact h.join hinflight (hid ▸ hget) hprepare hnext hkind

theorem Sound.sealOpen : Sound worker.sealOpen := by
  unfold Worker.sealOpen
  split
  · exact h
  next batch hopen =>
    split_ifs
    · exact h
    have hstaging : worker.staging = batch := by rw [staging, hopen]; rfl
    have hbalanced := h.balanced
    have hbased := h.openBased
    rw [pending_eq_of_inflight hinflight, hstaging] at hbalanced
    rw [hstaging] at hbased
    constructor
    · exact hbalanced
    · exact Or.inl rfl
    · intro tablet live hget
      exact ⟨fun _ hwrite ↦ absurd hwrite List.not_mem_nil, Or.inr (Tracks.empty live.store)⟩
    · exact ⟨List.forall_mem_nil _, fun hbase ↦ by simp [staging, OpenBatch.empty] at hbase⟩
    · intro other hother
      cases hother
      exact hbased

end

theorem Sound.poll (h : Sound worker) (full : Nat → Bool) (due : Bool) :
    Sound (worker.poll full due) :=
  poll_invariant (P := fun _ ↦ Sound) full (fun _ _ hworker ↦ hworker)
    (fun _ _ _ hworker ↦ hworker.congr rfl rfl rfl rfl)
    (fun _ _ _ _ hinflight _ hworker hstep ↦ hworker.prepares hinflight hstep) due
    (h.congr rfl rfl rfl rfl) (h.congr rfl rfl rfl rfl) (fun _ hworker ↦ hworker)
    (fun _ hinflight hworker ↦ hworker.sealOpen hinflight)

/-! ### Completions, sweeps and crashes keep it -/

/-- The worker once its batch is durable, before it is applied. -/
def landed (worker : Worker) (batch : InflightBatch) : Worker :=
  { worker with
    coordinator := { worker.coordinator with inflight := none }
    log := worker.log ++ batch.applies }

/-- The worker once its batch failed, before it is rewound. -/
def dropped (worker : Worker) (batch : InflightBatch) : Worker :=
  { worker with
    coordinator := { worker.coordinator with inflight := none }
    failed := worker.failed ++ batch.applies }

theorem applyCompletion_of_none (h : worker.coordinator.inflight = none) (durable : Bool) :
    worker.applyCompletion durable = worker := by
  simp only [applyCompletion, h]

variable {batch : InflightBatch}

theorem applyCompletion_true (h : worker.coordinator.inflight = some batch) :
    worker.applyCompletion true = applyBatch batch.applies (worker.landed batch) := by
  simp only [applyCompletion, h]
  rfl

theorem applyCompletion_false (h : worker.coordinator.inflight = some batch) :
    worker.applyCompletion false =
      rewindBatch batch.commitBase batch.applies (worker.dropped batch) := by
  simp only [applyCompletion, h]
  rfl

/-- With no batch at all only the ledgers matter. -/
theorem sound_of_balanced (hopen : worker.coordinator.openBatch = none)
    (hinflight : worker.coordinator.inflight = none) (h : Balanced worker.tablets worker.log []) :
    Sound worker := by
  have hstaging : worker.staging = .empty := by rw [staging, hopen]; rfl
  constructor
  · rw [pending_eq_of_inflight hinflight, hstaging]
    exact h
  · exact Or.inl hopen
  · intro tablet live hget
    rw [overlayOf, hstaging]
    exact ⟨fun _ hwrite ↦ absurd hwrite List.not_mem_nil, Or.inr (Tracks.empty live.store)⟩
  · rw [hstaging]
    exact ⟨List.forall_mem_nil _, fun hbase ↦ by
      simp [OpenBatch.empty] at hbase⟩
  · exact fun batch hbatch ↦ absurd (hinflight.symm.trans hbatch) nofun

/-- A durable batch is applied to its end, and every member is answered from its record. -/
theorem applyBatch_balanced {applies done : List ApplyData} {worker : Worker}
    (h : Balanced worker.tablets done applies) :
    Balanced (applyBatch applies worker).tablets (done ++ applies) [] ∧
      applyBatch applies worker =
        { worker with
          tablets := (applyBatch applies worker).tablets
          coordinator := worker.coordinator.forgetAll applies
          replies := worker.replies ++ applies.map fun apply ↦
            (apply.respond, mapTerminal apply.entry.outcome) } := by
  induction applies generalizing done worker with
  | nil =>
    rw [List.append_nil]
    exact ⟨h, by simp [applyBatch, forgetAll]⟩
  | cons apply rest ih =>
    obtain ⟨live, hget, hitem, hnext⟩ := h.advance
    have hbind : worker.tablets[apply.tablet]?.bind (applyItem · apply) =
        some (live.advance apply, mapTerminal apply.entry.outcome) := by
      rw [hget]
      exact hitem
    rw [applyBatch, hbind]
    dsimp only
    obtain ⟨hbalanced, heq⟩ := @ih (done ++ [apply])
      ((({ worker with coordinator := worker.coordinator.forgetIdentity apply.identity }).setTablet
        (live.advance apply)).reply apply.respond (mapTerminal apply.entry.outcome)) hnext
    rw [← List.append_cons] at hbalanced
    refine ⟨hbalanced, heq.trans ?_⟩
    simp [reply, setTablet, forgetAll]

/-- Only the tablets change beside the account of the member itself. -/
theorem rewindOne_eq (commitBase : ExtTreeMap TabletId CommitPosition) (worker : Worker)
    (apply : ApplyData) :
    rewindOne commitBase worker apply =
      { worker with
        tablets := (rewindOne commitBase worker apply).tablets
        coordinator := worker.coordinator.forgetIdentity apply.identity
        replies := worker.replies ++ [(apply.respond, .error .storage)] } := by
  unfold rewindOne
  dsimp only
  split <;> rfl

/-- The position a tablet is rewound to is its applied one. -/
def Rewinds (commitBase : ExtTreeMap TabletId CommitPosition) (worker : Worker)
    (applies : List ApplyData) : Prop :=
  (∀ apply ∈ applies, apply.tablet ∈ commitBase) ∧
    ∀ (tablet : TabletId) (live : LiveTablet), worker.tablets[tablet]? = some live →
      live.id = tablet ∧
      (∀ base, commitBase[tablet]? = some base → base = live.appliedCommit) ∧
      (live.settled = live ∨ ∃ apply ∈ applies, apply.tablet = tablet)

variable {commitBase : ExtTreeMap TabletId CommitPosition}

/-- Taking back a member settles its tablet and leaves the others. -/
theorem rewindOne_tablets {rest : List ApplyData} (h : Rewinds commitBase worker (apply :: rest))
    (tablet : TabletId) :
    (rewindOne commitBase worker apply).tablets[tablet]? =
      if tablet = apply.tablet then (worker.tablets[tablet]?).map LiveTablet.settled
      else worker.tablets[tablet]? := by
  obtain ⟨base, hbase⟩ := Option.isSome_iff_exists.mp
    (ExtTreeMap.mem_iff_isSome_getElem?.mp (h.1 apply List.mem_cons_self))
  unfold rewindOne
  cases hget : worker.tablets[apply.tablet]? with
  | none =>
    simp only [hbase]
    change worker.tablets[tablet]? = _
    split_ifs with hsame
    · rw [hsame, hget]
      rfl
    · rfl
  | some live =>
    obtain ⟨hid, happlied, -⟩ := h.2 apply.tablet live hget
    simp only [hbase]
    change (worker.tablets.insert live.id (live.rewindCommit base))[tablet]? = _
    rw [ExtTreeMap.getElem?_insert, hid]
    by_cases hsame : tablet = apply.tablet
    · rw [if_pos (Std.compare_eq_iff_eq.mpr hsame.symm), if_pos hsame, hsame, hget,
        happlied base hbase]
      rfl
    · rw [if_neg fun heq ↦ hsame (Std.compare_eq_iff_eq.mp heq).symm, if_neg hsame]

/-- A failed batch leaves every tablet settled. -/
theorem rewindBatch_tablets {commitBase : ExtTreeMap TabletId CommitPosition}
    {applies : List ApplyData} {worker : Worker} (h : Rewinds commitBase worker applies)
    (tablet : TabletId) :
    (rewindBatch commitBase applies worker).tablets[tablet]? =
      (worker.tablets[tablet]?).map LiveTablet.settled := by
  induction applies generalizing worker with
  | nil =>
    change worker.tablets[tablet]? = _
    cases hget : worker.tablets[tablet]? with
    | none => rfl
    | some live =>
      rcases (h.2 tablet live hget).2.2 with hsettled | ⟨apply, hmem, -⟩
      · rw [Option.map_some, hsettled]
      · exact absurd hmem List.not_mem_nil
  | cons apply rest ih =>
    have hafter := rewindOne_tablets h
    have hrest : Rewinds commitBase (rewindOne commitBase worker apply) rest := by
      refine ⟨fun other hmem ↦ h.1 other (List.mem_cons_of_mem _ hmem), fun tablet live hget ↦ ?_⟩
      rw [hafter] at hget
      split_ifs at hget with hsame
      · obtain ⟨old, hold, rfl⟩ := Option.map_eq_some_iff.mp hget
        obtain ⟨hid, happlied, -⟩ := h.2 tablet old hold
        exact ⟨hid, happlied, Or.inl rfl⟩
      · obtain ⟨hid, happlied, hsettled⟩ := h.2 tablet live hget
        refine ⟨hid, happlied, hsettled.imp_right ?_⟩
        rintro ⟨member, hmem, hown⟩
        rcases List.mem_cons.mp hmem with rfl | hrest
        · exact absurd hown.symm hsame
        · exact ⟨member, hrest, hown⟩
    refine (ih hrest).trans ?_
    rw [hafter]
    split_ifs
    · cases worker.tablets[tablet]? <;> rfl
    · rfl

theorem rewindBatch_eq (commitBase : ExtTreeMap TabletId CommitPosition)
    (applies : List ApplyData) (worker : Worker) :
    rewindBatch commitBase applies worker =
      { worker with
        tablets := (rewindBatch commitBase applies worker).tablets
        coordinator := worker.coordinator.forgetAll applies
        replies := worker.replies ++ applies.map fun apply ↦
          (apply.respond, .error .storage) } := by
  induction applies generalizing worker with
  | nil => simp [rewindBatch, forgetAll]
  | cons apply rest ih =>
    rw [rewindBatch, ih]
    simp only [Worker.mk.injEq, true_and]
    rw [rewindOne_eq]
    simp [forgetAll]

section

variable (h : Sound worker) (hinflight : worker.coordinator.inflight = some batch)
include h hinflight

theorem Sound.openBatch_eq_none : worker.coordinator.openBatch = none := by
  rcases h.single with hopen | hnone
  · exact hopen
  · cases hnone.symm.trans hinflight

/-- While a batch is in flight the pending members are its own. -/
theorem Sound.pending_eq_inflight : worker.coordinator.pending = batch.applies := by
  simp [CommitCoordinator.pending, openApplies,
    inflightApplies, h.openBatch_eq_none hinflight, hinflight]

/-- Nothing is pending once the batch in flight is taken. -/
theorem Sound.pending_taken :
    ({ worker.coordinator with inflight := none }.forgetAll batch.applies).pending = [] := by
  obtain ⟨-, hopen, hnone⟩ := forgetAll_kept
    { worker.coordinator with inflight := none } batch.applies
  rw [CommitCoordinator.pending, openApplies,
    inflightApplies, hopen.trans (h.openBatch_eq_none hinflight), hnone]
  rfl

/-- The batch in flight rewinds to the applied positions. -/
theorem Sound.rewinds :
    Balanced worker.tablets worker.log batch.applies ∧
      Rewinds batch.commitBase worker batch.applies := by
  have hbalanced := h.balanced
  rw [h.pending_eq_inflight hinflight] at hbalanced
  have hbased := h.inflightBased batch hinflight
  refine ⟨hbalanced, hbased.noted, fun tablet live hget ↦ ?_⟩
  refine ⟨hbalanced.ids hget, fun base hbase ↦ hbased.applied hbase hget, ?_⟩
  by_cases hmember : ∃ apply ∈ batch.applies, apply.tablet = tablet
  · exact Or.inr hmember
  · have hledger := hbalanced.ledger hget
    rw [onTablet_eq_nil fun apply hmem hown ↦ hmember ⟨apply, hmem, hown⟩] at hledger
    exact Or.inl hledger.settled_eq

end

section

variable (h : Sound worker)
include h

/-- A durable completion applies the whole batch and does not end the worker. -/
theorem Sound.completeDurable :
    Sound (worker.applyCompletion true) ∧
      (worker.applyCompletion true).halted = worker.halted := by
  cases hinflight : worker.coordinator.inflight with
  | none =>
    rw [applyCompletion_of_none hinflight]
    exact ⟨h, rfl⟩
  | some batch =>
    obtain ⟨hbalanced, heq⟩ :=
      @applyBatch_balanced _ _ (worker.landed batch) (h.rewinds hinflight).1
    obtain ⟨-, hopen, hnone⟩ := (worker.landed batch).coordinator.forgetAll_kept batch.applies
    rw [applyCompletion_true hinflight, heq]
    refine ⟨sound_of_balanced (hopen.trans (h.openBatch_eq_none hinflight)) hnone ?_, rfl⟩
    exact hbalanced

theorem Sound.complete (durable : Bool) : Sound (worker.applyCompletion durable) := by
  cases durable with
  | false =>
    cases hinflight : worker.coordinator.inflight with
    | none =>
      rw [applyCompletion_of_none hinflight]
      exact h
    | some batch =>
      obtain ⟨hbalanced, hrewinds⟩ := h.rewinds hinflight
      obtain ⟨-, hopen, hnone⟩ := (worker.dropped batch).coordinator.forgetAll_kept batch.applies
      rw [applyCompletion_false hinflight, rewindBatch_eq]
      refine sound_of_balanced (hopen.trans (h.openBatch_eq_none hinflight)) hnone ?_
      exact hbalanced.settled (rewindBatch_tablets hrewinds)
  | true => exact h.completeDurable.1

/-- The keys of pending writes are among those a sweep passes over. -/
theorem Sound.mem_touchedKeys {keys : List Key} (hkeys : touchedKeys worker.coordinator = some keys)
    {tablet : TabletId} (hget : worker.tablets[tablet]? = some live) :
    (∀ key ∈ (worker.overlayOf tablet).pending, key ∈ keys) ∧
      ∀ write ∈ writesOn tablet worker.coordinator.pending, ∀ key ∈ write.mutation.keys,
        key ∈ keys := by
  obtain ⟨queued, -, hall⟩ := Option.map_eq_some_iff.mp hkeys
  have hpending : ∀ key ∈ (worker.overlayOf tablet).pending, key ∈ keys := by
    intro key hkey
    rw [← hall]
    refine List.mem_append_left _ (List.mem_append_right _ ?_)
    unfold overlayOf staging at hkey
    cases hopen : worker.coordinator.openBatch with
    | none =>
      rw [hopen] at hkey
      simp [OpenBatch.empty, TabletOverlay.empty] at hkey
    | some batch =>
      rw [hopen, Option.getD_some] at hkey
      cases hoverlay : batch.overlays[tablet]? with
      | none =>
        rw [hoverlay] at hkey
        simp [TabletOverlay.empty] at hkey
      | some overlay =>
        rw [hoverlay, Option.getD_some] at hkey
        exact List.mem_flatMap.mpr ⟨(tablet, overlay),
          ExtTreeMap.mem_toList_iff_getElem?_eq_some.mpr hoverlay,
          ExtTreeMap.mem_keys.mpr hkey⟩
  refine ⟨hpending, fun write hwrite key hkey ↦ ?_⟩
  rw [CommitCoordinator.pending, writesOn_append, openApplies_eq] at hwrite
  rcases List.mem_append.mp hwrite with hopen | hflying
  · exact hpending key ((h.staged hget).keys write hopen key hkey)
  · rw [← hall]
    refine List.mem_append_right _ ?_
    obtain ⟨apply, hmem, happly⟩ := List.mem_filterMap.mp hflying
    have hmember := (mem_onTablet.mp hmem).1
    unfold inflightApplies at hmember
    cases hinflight : worker.coordinator.inflight with
    | none =>
      rw [hinflight] at hmember
      exact absurd hmember List.not_mem_nil
    | some batch =>
      rw [hinflight] at hmember
      refine List.mem_flatMap.mpr ⟨apply, hmember, ?_⟩
      unfold ApplyData.write at happly
      cases hkind : apply.kind with
      | mutation mutation expected flag =>
        rw [hkind] at happly
        cases happly
        exact hkey
      | terminal outcome opcode =>
        rw [hkind] at happly
        cases happly

/-- A sweep runs between batches, on what is committed. -/
theorem Sound.sweep (now : WallTimestamp) (limit : Nat) : Sound (worker.sweep now limit) := by
  cases hkeys : touchedKeys worker.coordinator with
  | none =>
    rw [Worker.sweep, hkeys]
    exact h.congr rfl rfl rfl rfl
  | some keys =>
    rw [Worker.sweep, hkeys]
    dsimp only
    have hkept {key : Key} (hkey : key ∈ keys) (live : LiveTablet) :
        (live.store.sweepExpired now limit (.ofList keys)).2.cell key = live.store.cell key := by
      refine ObjectStore.sweepExpired_cell_of_skip ?_
      rwa [Std.ExtTreeSet.mem_ofList, List.contains_iff_mem]
    have hget {tablet : TabletId} {live : LiveTablet}
        (hswept : (worker.tablets.map fun _ live ↦
          live.sweepExpired now limit (.ofList keys))[tablet]? = some live) :
        ∃ old : LiveTablet, worker.tablets[tablet]? = some old ∧
          old.sweepExpired now limit (.ofList keys) = live := by
      rw [ExtTreeMap.getElem?_map] at hswept
      exact Option.map_eq_some_iff.mp hswept
    constructor
    · refine h.balanced.withStores (fun live hreach ↦ ?_) fun hold write hwrite key hkey ↦ ?_
      · exact hreach.run [.sweepExpired now limit (.ofList keys)]
      · exact hkept ((h.mem_touchedKeys hkeys hold).2 write hwrite key hkey) _
    · exact h.single
    · intro tablet live hswept
      obtain ⟨old, hold, rfl⟩ := hget hswept
      have hstaged := h.staged hold
      refine ⟨hstaged.keys, hstaged.tracks.imp_right fun htracks ↦ htracks.sweep fun key hkey ↦ ?_⟩
      exact hkept ((h.mem_touchedKeys hkeys hold).1 key hkey) old
    · refine ⟨h.openBased.noted, fun {_ _} hbase {live} hswept ↦ ?_⟩
      obtain ⟨old, hold, rfl⟩ := hget hswept
      exact (h.openBased.applied hbase hold : _ = old.appliedCommit)
    · intro batch hbatch
      have hbased := h.inflightBased batch hbatch
      refine ⟨hbased.noted, fun {_ _} hbase {live} hswept ↦ ?_⟩
      obtain ⟨old, hold, rfl⟩ := hget hswept
      exact (hbased.applied hbase hold : _ = old.appliedCommit)

end

/-- The log a crash leaves. -/
def crashLog (worker : Worker) (persisted : Bool) : List ApplyData :=
  if persisted then worker.log ++ worker.coordinator.inflightApplies else worker.log

theorem Sound.numbered_crashLog (h : Sound worker) (persisted : Bool) (tablet : TabletId) :
    Numbered (onTablet tablet (worker.crashLog persisted)) := by
  -- The log stays numbered when the batch in flight joins it.
  have hall : Numbered (onTablet tablet (worker.log ++ worker.coordinator.inflightApplies)) := by
    have hall := h.balanced.numbered tablet
    rcases h.single with hopen | hinflight
    · have hpending : worker.coordinator.pending = worker.coordinator.inflightApplies := by
        rw [CommitCoordinator.pending, openApplies, hopen]
        rfl
      rwa [hpending] at hall
    · rw [inflightApplies, hinflight]
      rw [onTablet_append] at hall
      simpa using hall.front
  unfold crashLog
  split_ifs
  · exact hall
  · rw [onTablet_append] at hall
    exact hall.front

theorem crash_eq (worker : Worker) (persisted : Bool) :
    worker.crash persisted =
      match recover worker.ids (worker.crashLog persisted) with
      | some tablets =>
        { worker with
          coordinator := .new
          log := worker.crashLog persisted
          tablets := .ofList tablets
          halted := false }
      | none =>
        { worker with
          coordinator := .new
          log := worker.crashLog persisted
          tablets := ∅
          halted := true } := rfl

theorem Sound.crash (h : Sound worker) (persisted : Bool) : Sound (worker.crash persisted) := by
  have hnumbered := h.numbered_crashLog persisted
  cases hrecover : recover worker.ids (worker.crashLog persisted) with
  | none =>
    rw [crash_eq, hrecover]
    refine sound_of_balanced rfl rfl ⟨fun hget ↦ ?_, List.forall_mem_nil _, ?_, fun hget ↦ ?_⟩
    · simp at hget
    · simpa using hnumbered
    · simp at hget
  | some tablets =>
    rw [crash_eq, hrecover]
    exact sound_of_balanced rfl rfl (recover_balanced hrecover hnumbered)

theorem sound_new (ids : List TabletId) : Sound (.new ids) := by
  have hget {tablet : TabletId} {live : LiveTablet}
      (h : (Worker.new ids).tablets[tablet]? = some live) : live = .new tablet := by
    obtain ⟨id, -, hid⟩ := List.mem_map.mp (LastWins.mem_of_getElem?_ofList h)
    cases hid
    rfl
  refine sound_of_balanced rfl rfl ?_
  constructor
  · intro tablet live h
    rw [hget h]
    rfl
  · exact List.forall_mem_nil _
  · exact fun _ ↦ numbered_nil
  · intro tablet live h
    rw [hget h]
    exact ledger_new tablet

theorem Sound.step (h : Sound worker) (event : Event) : Sound (worker.step event) := by
  unfold Worker.step
  split
  · exact h.crash _
  · exact h
  · exact h.congr rfl rfl rfl rfl
  · exact h.poll _ _
  · exact h.complete _
  · exact h.sweep _ _

end Worker

end Kivi.Engine
