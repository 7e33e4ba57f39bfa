import Kivi.Engine.Batches

/-!
# Group commit

Every admitted request has one address. It waits in the queue, stands in a batch or has been
answered, and in no two of these places at once (`Answered`), so a member of a failed batch gets
no other answer than the failure. With the invariant of the batches this gives the contract of
group commit: durable members carry the positions 1, 2, … of their tablet and are applied in that
order, and a batch that fails leaves the tablets as they were before its first member was
prepared.
-/

namespace Kivi.Engine

open Library.Runs State
open Consensus (MutationIdentity)

namespace Worker

/-! ### Addresses -/

/-- In how many places an address is: in the queue, in a batch, among the replies. -/
def places (worker : Worker) (address : Nat) : Nat :=
  (worker.coordinator.queue.map PendingEntry.respond).count address +
    (worker.coordinator.pending.map ApplyData.respond).count address +
    (worker.replies.map Prod.fst).count address

theorem places_reply (worker : Worker) (respond : Nat) (response : WorkerResponse)
    (address : Nat) :
    (worker.reply respond response).places address =
      worker.places address + [respond].count address := by
  simp only [places, reply, List.map_append, List.count_append, List.map_cons, List.map_nil]
  omega

theorem places_requeue (worker : Worker) (entries : List PendingEntry) (address : Nat) :
    (worker.requeue entries).places address =
      worker.places address + (entries.map PendingEntry.respond).count address := by
  have hpending : (worker.requeue entries).coordinator.pending = worker.coordinator.pending := rfl
  simp only [places, hpending]
  simp only [requeue, List.map_append, List.count_append]
  omega

theorem places_join {worker : Worker} (hinflight : worker.coordinator.inflight = none)
    (live : LiveTablet) (overlay : TabletOverlay) (apply : ApplyData) (address : Nat) :
    (worker.join live overlay apply).places address =
      worker.places address + [apply.respond].count address := by
  have hqueue : (worker.join live overlay apply).coordinator.queue = worker.coordinator.queue :=
    (CommitCoordinator.noteIdentity_kept _ _).1
  have hreplies : (worker.join live overlay apply).replies = worker.replies := rfl
  simp only [places, hqueue, hreplies, pending_join hinflight, List.map_append,
    List.count_append, List.map_cons, List.map_nil]
  omega

/-- A batch with the same members. -/
theorem places_setOpen {worker : Worker} (hinflight : worker.coordinator.inflight = none)
    {batch : OpenBatch} (happlies : batch.applies = worker.staging.applies) (address : Nat) :
    (worker.setOpen batch).places address = worker.places address := by
  rw [places, places, pending_setOpen hinflight happlies]
  rfl

/-- Fast answers leave every address in as many places as before. -/
theorem places_answerFastPaths (worker : Worker) (address : Nat) :
    worker.answerFastPaths.places address = worker.places address := by
  have hsplit (queue : List PendingEntry) :
      ((queue.filter fun entry ↦ (fastAnswer worker.tablets entry).isNone).map
          PendingEntry.respond).count address +
        ((queue.filterMap fun entry ↦ (fastAnswer worker.tablets entry).map fun response ↦
          (entry.respond, response)).map Prod.fst).count address =
      (queue.map PendingEntry.respond).count address := by
    induction queue with
    | nil => rfl
    | cons entry rest ih =>
      cases hanswer : fastAnswer worker.tablets entry with
      | none =>
        rw [List.filter_cons_of_pos (by simp [hanswer]),
          List.filterMap_cons_none (by simp [hanswer]), List.map_cons, List.map_cons,
          List.count_cons, List.count_cons]
        omega
      | some response =>
        rw [List.filter_cons_of_neg (by simp [hanswer]),
          List.filterMap_cons_some (by rw [hanswer]; rfl), List.map_cons, List.map_cons,
          List.count_cons, List.count_cons, ← ih]
        dsimp only
        omega
  have hpending : worker.answerFastPaths.coordinator.pending = worker.coordinator.pending := rfl
  have hall := hsplit worker.coordinator.queue
  simp only [places, hpending]
  simp only [answerFastPaths, List.map_append, List.count_append]
  omega

/-- Every address is in one place at most, those of requests being handled included, and members
of failed batches were told so. -/
structure Answered (worker : Worker) (handled : List Nat) : Prop where
  once : ∀ address, worker.places address + handled.count address ≤
    if address < worker.nextRequest then 1 else 0
  reported : ∀ apply ∈ worker.failed, (apply.respond, .error .storage) ∈ worker.replies

namespace Answered

variable {worker after : Worker} {handled handled' : List Nat}

/-- Addresses are moved or dropped and replies are added. -/
theorem move (h : Answered worker handled) (hnext : after.nextRequest = worker.nextRequest)
    (hfailed : after.failed = worker.failed) (hreplies : worker.replies ⊆ after.replies)
    (hplaces : ∀ address, after.places address + handled'.count address ≤
      worker.places address + handled.count address) : Answered after handled' := by
  constructor
  · intro address
    rw [hnext]
    exact (hplaces address).trans (h.once address)
  · intro apply hmem
    exact hreplies (h.reported apply (hfailed ▸ hmem))

theorem admitEntry (h : Answered worker []) (tablet : TabletId) (op : Operation)
    (now : WallTimestamp) (identity : Option MutationIdentity)
    (rangeFence : Option (RangeRootFence ChunkedRef)) :
    Answered (worker.admitEntry tablet op now identity rangeFence) [] := by
  refine ⟨fun address ↦ ?_, h.reported⟩
  have hold := h.once address
  have hplaces : (worker.admitEntry tablet op now identity rangeFence).places address =
      worker.places address + [worker.nextRequest].count address :=
    places_requeue worker [⟨tablet, op, now, identity, rangeFence, worker.nextRequest⟩] address
  have hnext : (worker.admitEntry tablet op now identity rangeFence).nextRequest =
      worker.nextRequest + 1 := rfl
  rw [hplaces, hnext, List.count_singleton, List.count_nil]
  simp only [beq_iff_eq]
  split_ifs at hold ⊢ <;> simp only [List.count_nil] at hold <;> omega

/-- A request that is prepared is answered, joins the batch, or is dropped. -/
theorem prepares {entry : PendingEntry} (hinflight : worker.coordinator.inflight = none)
    (h : Answered worker (entry.respond :: handled)) (hstep : Prepares worker entry after) :
    Answered after handled := by
  have hcons (address : Nat) : (entry.respond :: handled).count address =
      [entry.respond].count address + handled.count address := by
    rw [← List.singleton_append, List.count_append]
  cases hstep with
  | halted =>
    refine h.move rfl rfl (List.Subset.refl _) fun address ↦ ?_
    rw [hcons]
    exact Nat.add_le_add (Nat.le_refl _) (Nat.le_add_left _ _)
  | refused error =>
    refine h.move rfl rfl (List.subset_append_left _ _) fun address ↦ ?_
    rw [hcons, places_reply]
    omega
  | failed live error overlay hget hprepare =>
    refine h.move rfl rfl (List.subset_append_left _ _) fun address ↦ ?_
    have happlies : (worker.stage live.id overlay).applies = worker.staging.applies := rfl
    rw [hcons, places_reply, places_setOpen hinflight happlies]
    omega
  | exhausted live prepared overlay error hget hprepare hnext =>
    refine h.move rfl rfl (List.subset_append_left _ _) fun address ↦ ?_
    have happlies : (worker.stageAt live overlay).applies = worker.staging.applies := rfl
    rw [hcons, places_reply, places_setOpen hinflight happlies]
    omega
  | joined live prepared overlay commit kind hget hprepare hnext hkind =>
    refine h.move rfl rfl (List.Subset.refl _) fun address ↦ ?_
    rw [hcons, places_join hinflight, Nat.add_assoc]

theorem sealOpen (hinflight : worker.coordinator.inflight = none) (h : Answered worker handled) :
    Answered worker.sealOpen handled := by
  unfold Worker.sealOpen
  split
  · exact h
  next batch hopen =>
    split_ifs
    · exact h
    refine h.move rfl rfl (List.Subset.refl _) fun address ↦ Nat.le_of_eq ?_
    have hpending : worker.coordinator.pending = batch.applies := by
      rw [pending_eq_of_inflight hinflight, staging, hopen]
      rfl
    rw [places, places, hpending]
    rfl

section

variable (h : Answered worker [])

include h

theorem poll (full : Nat → Bool) (due : Bool) : Answered (worker.poll full due) [] := by
  have hanswered : Answered worker.answerFastPaths [] :=
    h.move rfl rfl (List.subset_append_left _ _) fun address ↦ by rw [places_answerFastPaths]
  refine poll_invariant (P := fun rest worker ↦ Answered worker (rest.map PendingEntry.respond))
    (Q := fun worker ↦ Answered worker []) full ?_ ?_ ?_ due hanswered ?_ ?_ ?_
  · intro rest worker hworker
    refine hworker.move rfl rfl (List.Subset.refl _) fun address ↦ ?_
    simp
  · intro front rest worker hworker
    refine hworker.move rfl rfl (List.Subset.refl _) fun address ↦ ?_
    rw [places_requeue, List.map_append, List.count_append]
    omega
  · exact fun _ _ _ _ hinflight _ hworker hstep ↦ prepares hinflight hworker hstep
  · refine hanswered.move rfl rfl (List.Subset.refl _) fun address ↦ ?_
    -- The whole queue is taken out, and nothing else moves.
    have hpending : worker.answerFastPaths.coordinator.pending = worker.coordinator.pending := rfl
    simp only [places, hpending, List.map_nil, List.count_nil]
    change 0 + (worker.coordinator.pending.map ApplyData.respond).count address + _ + _ ≤ _
    omega
  · exact fun _ hworker ↦ hworker
  · exact fun _ hinflight hworker ↦ sealOpen hinflight hworker

/-- The members of the batch in flight are answered all at once. -/
theorem answerBatch (hsound : Sound worker) {batch : InflightBatch}
    (hinflight : worker.coordinator.inflight = some batch)
    (hnext : after.nextRequest = worker.nextRequest) {answer : ApplyData → WorkerResponse}
    (hreplies : after.replies =
      worker.replies ++ batch.applies.map fun apply ↦ (apply.respond, answer apply))
    (hcoordinator : after.coordinator =
      { worker.coordinator with inflight := none }.forgetAll batch.applies)
    (hfailed : ∀ apply ∈ after.failed, (apply.respond, .error .storage) ∈ after.replies) :
    Answered after [] := by
  refine ⟨fun address ↦ ?_, hfailed⟩
  have hold := h.once address
  obtain ⟨hqueue, -, -⟩ := CommitCoordinator.forgetAll_kept
    { worker.coordinator with inflight := none } batch.applies
  have hpending := hsound.pending_eq_inflight hinflight
  have hleft := hsound.pending_taken hinflight
  rw [← hcoordinator] at hqueue hleft
  have hsame : after.places address = worker.places address := by
    simp only [places, hqueue, hleft, hpending, hreplies, List.map_append, List.count_append,
      List.map_map, List.map_nil, List.count_nil]
    change _ + 0 + (_ + (batch.applies.map ApplyData.respond).count address) = _
    omega
  rw [hsame, hnext]
  exact hold

theorem complete (hsound : Sound worker) (durable : Bool) :
    Answered (worker.applyCompletion durable) [] := by
  cases hinflight : worker.coordinator.inflight with
  | none =>
    rw [applyCompletion_of_none hinflight]
    exact h
  | some batch =>
    cases durable with
    | false =>
      rw [applyCompletion_false hinflight, rewindBatch_eq]
      refine h.answerBatch hsound hinflight rfl rfl rfl fun apply hmem ↦ ?_
      rcases List.mem_append.mp hmem with hold | hnew
      · exact List.mem_append_left _ (h.reported apply hold)
      · exact List.mem_append_right _ (List.mem_map.mpr ⟨apply, hnew, rfl⟩)
    | true =>
      obtain ⟨-, heq⟩ := @applyBatch_balanced _ _ (worker.landed batch)
        (hsound.rewinds hinflight).1
      rw [applyCompletion_true hinflight, heq]
      refine h.answerBatch hsound hinflight rfl rfl rfl fun apply hmem ↦ ?_
      exact List.mem_append_left _ (h.reported apply hmem)

theorem crash (persisted : Bool) : Answered (worker.crash persisted) [] := by
  have hdropped {tablets : Std.ExtTreeMap TabletId LiveTablet} {log : List ApplyData}
      {halted : Bool} :
      Answered { worker with coordinator := .new, log, tablets, halted } [] := by
    refine h.move rfl rfl (List.Subset.refl _) fun address ↦ ?_
    simp only [places]
    change 0 + 0 + _ + _ ≤ _
    omega
  rw [crash_eq]
  cases recover worker.ids (worker.crashLog persisted) with
  | none => exact hdropped
  | some tablets => exact hdropped

theorem sweep (now : WallTimestamp) (limit : Nat) : Answered (worker.sweep now limit) [] := by
  unfold Worker.sweep
  split
  · exact ⟨h.once, h.reported⟩
  · exact ⟨h.once, h.reported⟩

theorem step (hsound : Sound worker) (event : Event) : Answered (worker.step event) [] := by
  unfold Worker.step
  split
  · exact h.crash _
  · exact h
  · exact h.admitEntry _ _ _ _ _
  · exact h.poll _ _
  · exact h.complete hsound _
  · exact h.sweep _ _

end

end Answered

theorem answered_new (ids : List TabletId) : Answered (.new ids) [] where
  once _ := Nat.zero_le _
  reported _ hmem := absurd hmem List.not_mem_nil

/-- The workers that some run reaches. -/
def ReachableWorker (ids : List TabletId) (worker : Worker) : Prop :=
  Reachable step (.new ids) worker

theorem ReachableWorker.sound {ids : List TabletId} {worker : Worker}
    (h : ReachableWorker ids worker) : Sound worker ∧ Answered worker [] :=
  h.invariant (P := fun worker ↦ Sound worker ∧ Answered worker [])
    ⟨sound_new ids, answered_new ids⟩
    fun _ event hworker ↦ ⟨hworker.1.step event, hworker.2.step hworker.1 event⟩

/-! ### A failed batch -/

/-- Preparing only assigns positions. -/
theorem Prepares.settled {worker after : Worker} {entry : PendingEntry} (hsound : Sound worker)
    (h : Prepares worker entry after) (tablet : TabletId) :
    (after.tablets[tablet]?).map LiveTablet.settled =
      (worker.tablets[tablet]?).map LiveTablet.settled := by
  cases h with
  | joined live prepared overlay commit kind hget hprepare hnext hkind =>
    have hid := hsound.balanced.ids hget
    change ((worker.tablets.insert live.id { live with nextCommit := commit })[tablet]?).map _ = _
    have hown : worker.tablets[live.id]? = some live := by rw [hid, hget]
    rw [Std.ExtTreeMap.getElem?_insert]
    split_ifs with hsame
    · rw [← Std.compare_eq_iff_eq.mp hsame, hown]
      rfl
    · rfl
  | _ => rfl

/-- Events that only admit and prepare. -/
def Event.isPreparing : Event → Bool
  | .admitEntry _ _ _ _ _ | .poll _ _ => true
  | .complete _ | .sweep _ _ | .crash _ => false

/-- Up to assigned positions the tablets are those of `before`. -/
def SettlesTo (before worker : Worker) : Prop :=
  ∀ tablet : TabletId, (worker.tablets[tablet]?).map LiveTablet.settled =
    (before.tablets[tablet]?).map LiveTablet.settled

section

variable {before worker : Worker} (hsound : Sound worker) (h : SettlesTo before worker)

include hsound h

theorem SettlesTo.poll (full : Nat → Bool) (due : Bool) :
    SettlesTo before (worker.poll full due) := by
  refine poll_invariant (P := fun _ worker ↦ SettlesTo before worker ∧ Sound worker)
    (Q := SettlesTo before) full ?_ ?_ ?_ due h ⟨h, hsound.congr rfl rfl rfl rfl⟩ ?_ ?_
  · exact fun _ _ hworker ↦ hworker
  · exact fun _ _ _ hworker ↦ ⟨hworker.1, hworker.2.congr rfl rfl rfl rfl⟩
  · rintro entry rest worker after hinflight - ⟨hsettles, hsound⟩ hstep
    exact ⟨fun tablet ↦ (hstep.settled hsound tablet).trans (hsettles tablet),
      hsound.prepares hinflight hstep⟩
  · exact fun _ hworker ↦ hworker.1
  · intro worker _ hworker
    unfold sealOpen
    split
    · exact hworker.1
    · split_ifs
      · exact hworker.1
      · exact hworker.1

theorem SettlesTo.step {event : Event} (hevent : event.isPreparing = true) :
    SettlesTo before (worker.step event) := by
  cases hhalted : worker.halted with
  | true =>
    have hsame : worker.step event = worker := by
      cases event with
      | crash persisted => cases hevent
      | _ => simp only [Worker.step, hhalted]
    rwa [hsame]
  | false =>
    cases event with
    | admitEntry tablet op now identity rangeFence =>
      simp only [Worker.step, hhalted]
      exact h
    | poll full due =>
      simp only [Worker.step, hhalted]
      exact h.poll hsound full due
    | complete | sweep | crash => cases hevent

/-- A failed completion takes the worker back to where its batch began. -/
theorem SettlesTo.complete (hinflight : worker.coordinator.inflight.isSome) (hbefore : Sound before)
    (hidle : before.coordinator.pending = []) :
    (worker.applyCompletion false).tablets = before.tablets := by
  obtain ⟨batch, hbatch⟩ := Option.isSome_iff_exists.mp hinflight
  have hbalanced := hbefore.balanced
  rw [hidle] at hbalanced
  refine Std.ExtTreeMap.ext_getElem? fun tablet ↦ ?_
  have hrewound : (rewindBatch batch.commitBase batch.applies
      (worker.dropped batch)).tablets[tablet]? = (worker.tablets[tablet]?).map LiveTablet.settled :=
    @rewindBatch_tablets _ _ (worker.dropped batch) (hsound.rewinds hbatch).2 tablet
  rw [applyCompletion_false hbatch, hrewound, h tablet]
  cases hget : before.tablets[tablet]? with
  | none => rfl
  | some live => rw [Option.map_some, hbalanced.settled_eq hget]

end

/-- In every state that admissions, polls, completions, sweeps and crashes lead to: the durable
members of a tablet carry the positions 1, 2, … in the order of the log, and all of them are
applied; a durable completion ends no worker; a member of a failed batch gets no answer but the
failure. If nothing is pending, then whatever is admitted and prepared next, a batch of it that
fails gives the tablets back unchanged. -/
theorem group_commit_contract {ids : List TabletId} {worker : Worker}
    (h : ReachableWorker ids worker) :
    (∀ tablet, Numbered (onTablet tablet worker.log)) ∧
      (∀ (tablet : TabletId) (live : LiveTablet), worker.tablets[tablet]? = some live →
        live.appliedCommit.toNat = (onTablet tablet worker.log).length) ∧
      (worker.applyCompletion true).halted = worker.halted ∧
      (∀ apply ∈ worker.failed, ∀ response, (apply.respond, response) ∈ worker.replies →
        response = .error .storage) ∧
      (worker.coordinator.pending = [] → ∀ events : List Event,
        (∀ event ∈ events, event.isPreparing = true) →
        (run step worker events).coordinator.inflight.isSome = true →
          ((run step worker events).applyCompletion false).tablets = worker.tablets) := by
  obtain ⟨hsound, hanswered⟩ := h.sound
  refine ⟨fun tablet ↦ ?_, fun tablet live hget ↦ (hsound.balanced.ledger hget).applied,
    hsound.completeDurable.2, fun apply hfailed response hreply ↦ ?_,
    fun hidle events hall hsome ↦ ?_⟩
  · have hnumbered := hsound.balanced.numbered tablet
    rw [onTablet_append] at hnumbered
    exact hnumbered.front
  · have honce : (worker.replies.map Prod.fst).Nodup := by
      refine List.nodup_iff_count_le_one.mpr fun address ↦ ?_
      have hplaces := hanswered.once address
      simp only [places] at hplaces
      split_ifs at hplaces <;> omega
    have hreported := hanswered.reported apply hfailed
    exact congrArg Prod.snd (List.inj_on_of_nodup_map honce hreply hreported rfl)
  · have hrun : Sound (run step worker events) ∧ SettlesTo worker (run step worker events) :=
      run_invariant_along (P := fun other ↦ Sound other ∧ SettlesTo worker other)
        (fun _ event hevent hother ↦ ⟨hother.1.step event, hother.2.step hother.1 hevent⟩)
        ⟨hsound, fun _ ↦ rfl⟩ (along_of_forall worker hall)
    exact hrun.2.complete hrun.1 hsome hsound hidle

/-- One batch is durable, the next one fails. -/
theorem group_commit_second_fails :
    let first : List Event := [.admitEntry ⟨1⟩ (.counterAdd [1] 5) 1 none none,
      .poll (fun _ ↦ false) true, .complete true]
    let second : List Event := [.admitEntry ⟨1⟩ (.counterAdd [1] 7) 2 none none,
      .poll (fun _ ↦ false) true]
    let worker := run step (.new [⟨1⟩]) first
    let prepared := run step worker second
    ReachableWorker [⟨1⟩] worker ∧
      worker.log.map ApplyData.commit = [1] ∧
      (prepared.tablets[(⟨1⟩ : TabletId)]?).map LiveTablet.nextCommit = some 2 ∧
      (prepared.applyCompletion false).tablets = worker.tablets := by
  intro first second worker prepared
  have hreach : ReachableWorker [⟨1⟩] worker := ⟨first, rfl⟩
  refine ⟨hreach, by decide, by decide, ?_⟩
  refine (group_commit_contract hreach).2.2.2.2 (by decide) second ?_ (by decide)
  simp [second, Event.isPreparing]

/-! ### Answers -/

/-- The address that the event hands out to a mutation. -/
def mutationAddress (worker : Worker) : Event → Option Nat
  | .admitEntry _ op _ _ _ =>
    if op.isMutating && !worker.halted then some worker.nextRequest else none
  | _ => none

/-- In every run, no mutation is answered twice, and none that is answered still waits in the queue
or stands in a batch: in these places together, the address of a mutation occurs once at most. -/
theorem mutations_answered_at_most_once (ids : List TabletId) (events : List Event) :
    let worker := run step (.new ids) events
    let mutations := collect step mutationAddress (.new ids) events
    let addresses := worker.coordinator.queue.map PendingEntry.respond ++
      worker.coordinator.pending.map ApplyData.respond ++ worker.replies.map Prod.fst
    (addresses.filter (· ∈ mutations)).Nodup ∧ addresses ⊆ List.range worker.nextRequest := by
  intro worker mutations addresses
  have hreach : ReachableWorker ids worker := ⟨events, rfl⟩
  have honce (address : Nat) :
      addresses.count address ≤ if address < worker.nextRequest then 1 else 0 := by
    rw [List.count_append, List.count_append]
    exact hreach.sound.2.once address
  constructor
  · refine .filter _ (List.nodup_iff_count_le_one.mpr fun address ↦ (honce address).trans ?_)
    split_ifs <;> omega
  · intro address hmem
    have hpos := (List.count_pos_iff.mpr hmem).trans_le (honce address)
    split_ifs at hpos with hissued
    · exact List.mem_range.mpr hissued
    · omega

/-! ### Checkpoints -/

/-- A session is restored from its own floor and answers. -/
theorem restoreSession_self (state : SessionDedup) :
    LiveTablet.restoreSession state.floor state.outcomes.toList = state := by
  have hempty : SessionDedup.empty.advanceFloor state.floor = ⟨state.floor, ∅⟩ := by
    rw [SessionDedup.advanceFloor]
    split_ifs with hfloor
    · rfl
    · rw [UInt64.le_antisymm (UInt64.not_lt.mp hfloor) UInt64.zero_le]
      rfl
  rw [LiveTablet.restoreSession, hempty]
  refine (List.foldl_hom (SessionDedup.mk state.floor) fun _ _ ↦ rfl).trans ?_
  rw [Library.LastWins.foldl_insert_toList]

/-- In every run, a tablet is restored from its own checkpoint, apart from the positions that are
only assigned and the index of the keys. -/
theorem checkpoint_restores (ids : List TabletId) (events : List Event) (tablet : TabletId) :
    let found := (run step (.new ids) events).tablets[tablet]?
    found.map (fun live ↦ (LiveTablet.new live.id).restoreCheckpoint live.captureView) =
      found.map fun live ↦
        { live.settled with store := live.store.setOrderedIndexing false } := by
  refine Option.map_congr fun live hget ↦ ?_
  have hreach : ReachableWorker ids (run step (.new ids) events) := ⟨events, rfl⟩
  have hplain : ReachableStore (live.store.setOrderedIndexing false) :=
    (hreach.sound.1.balanced.ledger hget).reachable.run [.setOrderedIndexing false]
  have hstore := ObjectStore.installDecoded_self (ReachableStore.mirrors hplain)
    (ObjectStore.intentsFiled_of_reachable hplain)
  have hdedup : live.captureView.sessions.foldl (fun dedup item ↦
      dedup.insert item.1 (LiveTablet.restoreSession item.2.1 item.2.2)) ∅ = live.dedup := by
    simp only [LiveTablet.captureView, List.foldl_map, restoreSession_self,
      Library.LastWins.foldl_insert_toList]
  exact congrArg₂ (fun store dedup ↦
    LiveTablet.mk live.id store live.appliedCommit live.appliedCommit dedup) hstore hdedup

end Worker

end Kivi.Engine
