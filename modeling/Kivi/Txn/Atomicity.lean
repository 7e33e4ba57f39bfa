import Kivi.Txn.Ground

/-!
# Atomicity of two-phase commit

What a driver or a resolver does next is justified by what lasts: a driver decides to commit when
every prepare was answered, and whoever finalizes has seen the decision it follows (`DriverSound`,
`ResolverSound`). So every request is sound, and along a run whose finalizes are safe, a finished
transaction has applied all of its writes or none.
-/

namespace Kivi.Txn

open Library Library.Runs State

/-! ### What processes know -/

section Processes

variable (setting : Setting) (ground : Ground)

/-- What a driver has learnt in its phase. -/
def DriverSound (driver : Driver) : Prop :=
  setting.plans driver.txn = some driver.plan ∧
  match driver.phase with
  | .preparing count =>
    ∀ entry ∈ driver.plan.writes.take count, ground.Prepared driver.plan driver.txn entry
  | .deciding true _ | .confirming true _ =>
    ∀ entry ∈ driver.plan.writes, ground.Prepared driver.plan driver.txn entry
  | .committing => ground.decision driver.plan.coordinator driver.txn = some .committed
  | .aborting _ => ground.decision driver.plan.coordinator driver.txn = some .aborted
  | _ => True

/-- What a resolver has learnt in its phase. No record is ever undecided, so a resolver never
guards by a version. -/
def ResolverSound (resolver : Resolver) : Prop :=
  IntentSound setting ground resolver.tablet resolver.intent ∧
  match resolver.phase with
  | .versioning _ | .deciding (some _) | .confirming (some _) => False
  | .finalizing commit => ground.decision resolver.intent.coordinator resolver.intent.id =
      some (if commit then .committed else .aborted)
  | _ => True

end Processes

variable {setting : Setting} {ground : Ground} {plan : Plan} {txn : TxnId}

theorem Ground.applied_iff {entry : TabletId × TxnWrite} :
    ground.Applied plan txn entry ↔ ground.answers.any (fun given ↦
      decide (given.1.request = (entry.1, plan.finalize txn true entry.2)) &&
        isApplied given.2) = true := by
  rw [List.any_eq_true]
  refine ⟨fun ⟨sender, answer, hmem, happlied⟩ ↦ ⟨_, hmem, by simp [happlied]⟩, ?_⟩
  rintro ⟨⟨⟨sender, request⟩, answer⟩, hmem, hgood⟩
  obtain ⟨hrequest, happlied⟩ := Bool.and_eq_true_iff.mp hgood
  obtain rfl : request = _ := of_decide_eq_true hrequest
  exact ⟨sender, answer, hmem, happlied⟩

instance (plan : Plan) (txn : TxnId) (entry : TabletId × TxnWrite) :
    Decidable (ground.Applied plan txn entry) :=
  decidable_of_iff _ Ground.applied_iff.symm

variable {driver : Driver}

theorem DriverSound.mono {before after : Ground} (hext : before.Extends after)
    (h : DriverSound setting before driver) : DriverSound setting after driver := by
  refine ⟨h.1, ?_⟩
  have hphase := h.2
  split at hphase
  · exact fun entry hmem ↦ (hphase entry hmem).mono hext
  · exact fun entry hmem ↦ (hphase entry hmem).mono hext
  · exact fun entry hmem ↦ (hphase entry hmem).mono hext
  · exact hext.decision _ _ _ hphase
  · exact hext.decision _ _ _ hphase
  · trivial

variable {resolver : Resolver}

theorem ResolverSound.mono {before after : Ground} (hext : before.Extends after)
    (h : ResolverSound setting before resolver) :
    ResolverSound setting after resolver := by
  refine ⟨h.1.mono hext, ?_⟩
  have hphase := h.2
  split at hphase
  · exact hphase
  · exact hphase
  · exact hphase
  · exact hext.decision _ _ _ hphase
  · trivial

/-! ### Requests -/

/-- A decide transaction guarded by absence makes sound requests on a sound record. -/
theorem requestSound_decider {decider : Decider} {tablet : TabletId}
    (hexpect : decider.expect = .absent)
    (hdecision : DecisionSound setting ground tablet txn decider.record) :
    RequestSound setting ground (tablet, decider.prepare (txnRecordKey tablet txn)) ∧
      RequestSound setting ground (tablet, decider.finalize (txnRecordKey tablet txn)) :=
  ⟨Or.inr ⟨txn, decider.record, rfl, rfl, hexpect, hdecision⟩,
    Or.inr ⟨txn, rfl, fun _ ↦ ⟨_, decider.record, decider.expect, rfl, hdecision⟩⟩⟩

theorem DriverSound.decision (hplan : setting.plans driver.txn = some driver.plan) (commit : Bool)
    (hprepared : commit = true →
      ∀ entry ∈ driver.plan.writes, ground.Prepared driver.plan driver.txn entry) :
    DecisionSound setting ground driver.plan.coordinator driver.txn
      (driver.decider setting commit).record := by
  cases commit with
  | false => exact Or.inl rfl
  | true => exact Or.inr ⟨rfl, driver.plan, hplan, rfl, rfl, hprepared rfl⟩

/-- What a sound driver sends is what its phase allows it to ask for. -/
theorem DriverSound.requests (h : DriverSound setting ground driver) :
    ∀ request ∈ driver.requests setting, RequestSound setting ground request := by
  obtain ⟨hplan, hphase⟩ := h
  intro request hmem
  unfold Driver.requests at hmem
  cases hcase : driver.phase with
  | preparing count =>
    simp only [hcase] at hmem
    obtain ⟨entry, hentry, rfl⟩ := List.mem_map.mp hmem
    have hwrites := List.mem_of_getElem? (Option.mem_toList.mp hentry)
    exact Or.inl ⟨driver.plan, hplan, rfl, rfl, hwrites⟩
  | deciding commit count =>
    simp only [hcase, List.mem_singleton] at hmem hphase
    rw [hmem]
    refine (requestSound_decider rfl (DriverSound.decision hplan commit ?_)).1
    rintro rfl
    exact hphase
  | confirming commit count =>
    simp only [hcase, List.mem_singleton] at hmem hphase
    rw [hmem]
    refine (requestSound_decider rfl (DriverSound.decision hplan commit ?_)).2
    rintro rfl
    exact hphase
  | committing =>
    simp only [hcase] at hmem hphase
    obtain ⟨entry, hentry, rfl⟩ := List.mem_map.mp hmem
    exact Or.inl ⟨driver.plan, hplan, rfl, rfl, hentry, hphase⟩
  | aborting count =>
    simp only [hcase] at hmem hphase
    obtain ⟨entry, hentry, rfl⟩ := List.mem_map.mp hmem
    exact Or.inl ⟨driver.plan, hplan, rfl, rfl, List.mem_of_mem_take hentry, hphase⟩
  | recovering | rereading | verifying | done =>
    simp only [hcase, List.not_mem_nil] at hmem

/-- A sound resolver finalizes only by the decision it read. -/
theorem ResolverSound.requests (h : ResolverSound setting ground resolver) :
    ∀ request ∈ resolver.requests setting, RequestSound setting ground request := by
  obtain ⟨⟨hkey, hintent⟩, hphase⟩ := h
  have habort : DecisionSound setting ground resolver.intent.coordinator resolver.intent.id
      (resolver.decider setting none).record := Or.inl rfl
  intro request hmem
  unfold Resolver.requests at hmem
  cases hcase : resolver.phase with
  | deciding guarded =>
    cases guarded with
    | none =>
      simp only [hcase, List.mem_singleton] at hmem
      rw [hmem]
      exact (requestSound_decider rfl habort).1
    | some found => simp only [hcase] at hphase
  | confirming guarded =>
    cases guarded with
    | none =>
      simp only [hcase, List.mem_singleton] at hmem
      rw [hmem]
      exact (requestSound_decider rfl habort).2
    | some found => simp only [hcase] at hphase
  | finalizing commit =>
    simp only [hcase, List.mem_singleton] at hmem hphase
    rw [hmem]
    have hwrite : (⟨resolver.intent.key, resolver.intent.write.kind, resolver.intent.write.expect⟩ :
        TxnWrite) = resolver.intent.write := by
      rw [← hkey]
    rcases hintent with ⟨plan, hplan, hcoordinator, hdigest, hwrites⟩ |
      ⟨decided, record, hrecordKey, hkind, -, hdecision⟩
    · rw [hcoordinator] at hphase
      exact Or.inl ⟨plan, hplan, hdigest, hkey.symm, hwrite ▸ hwrites, hphase⟩
    · rw [hkind] at hwrite
      exact Or.inr ⟨decided, hrecordKey, fun _ ↦ ⟨_, record, _, hwrite.symm, hdecision⟩⟩
  | looking | versioning | done => simp only [hcase, List.not_mem_nil] at hmem

/-! ### Phases -/

variable {tablets : Tablets} {coordinator : TabletId}

theorem decisionIn_of_readRecord {now : WallTimestamp} {record : TxnRecord}
    (h : readRecord (storeOf tablets coordinator) (txnRecordKey coordinator txn) now =
      .found record) : decisionIn tablets coordinator txn = some record.state := by
  unfold decisionIn storedState
  unfold readRecord at h
  split at h
  · cases h
  next object hobject =>
    have hentry := (liveObject_eq_some_iff.mp hobject).1
    split at h
    next found hfound =>
      rw [hentry, hfound, RecordRead.found.inj h]
      rfl
    next => cases h

theorem Ground.exists_of_answered {sender : Sender} {request : Request} {good : Answer → Bool}
    (h : ground.answered sender request good = true) :
    ∃ answer, (⟨sender, request⟩, answer) ∈ ground.answers ∧ good answer = true := by
  obtain ⟨⟨message, answer⟩, hmem, hgood⟩ := List.any_eq_true.mp h
  obtain ⟨hmessage, hgood⟩ := Bool.and_eq_true_iff.mp hgood
  obtain rfl : message = ⟨sender, request⟩ := of_decide_eq_true hmessage
  exact ⟨answer, hmem, hgood⟩

/-- The decision of a decide transaction stands once its commit was applied. -/
theorem GroundSound.decision_of_applied (h : GroundSound setting ground) {sender : Sender}
    {decider : Decider} {tablet : TabletId} {answer : Answer}
    (hbound : decider.record.participants.length ≤ maxTxnParticipants + 1)
    (hmem : (⟨sender, tablet, decider.finalize (txnRecordKey tablet txn)⟩, answer) ∈
      ground.answers) (happlied : isApplied answer = true) :
    ground.decision tablet txn = some decider.record.state := by
  refine h.written _ hmem happlied tablet txn decider.id _ decider.record.encode decider.expect
    (.zero _) decider.record rfl ?_
  simp [recordOfBytes, TxnRecord.decode_encode decider.record hbound]

/-- A driver that does not follow a commit starts to prepare, decides to abort or stops. -/
theorem Driver.afterOther_cases (driver : Driver) (read : RecordRead) :
    driver.afterOther read = .done ∨ driver.afterOther read = .preparing 0 ∨
      ∃ count, driver.afterOther read = .deciding false count := by
  unfold Driver.afterOther
  split
  · exact Or.inl rfl
  · exact Or.inr (Or.inl rfl)
  · split
    · exact Or.inr (Or.inl rfl)
    · exact Or.inl rfl
  · exact Or.inr (Or.inr ⟨_, rfl⟩)
  · split
    · exact Or.inl rfl
    · exact Or.inr (Or.inr ⟨_, rfl⟩)
  · exact Or.inr (Or.inr ⟨_, rfl⟩)
  · exact Or.inl rfl

section

variable (h : DriverSound setting ground driver)

include h

theorem DriverSound.afterOther (read : RecordRead) :
    DriverSound setting ground { driver with phase := driver.afterOther read } := by
  refine ⟨h.1, ?_⟩
  rcases driver.afterOther_cases read with hphase | hphase | ⟨count, hphase⟩
  · rw [hphase]
    trivial
  · rw [hphase]
    exact List.forall_mem_nil _
  · rw [hphase]
    trivial

theorem DriverSound.afterRead (now : WallTimestamp) :
    DriverSound setting ground { driver with phase := driver.afterRead (readRecord
      (ground.store driver.plan.coordinator) (driver.plan.recordKey driver.txn) now) } := by
  unfold Driver.afterRead
  split
  next record hread =>
    split_ifs with hcommitted
    · refine ⟨h.1, ?_⟩
      change ground.decision _ _ = _
      rw [← hcommitted.1]
      exact decisionIn_of_readRecord hread
    · exact h.afterOther _
  next => exact h.afterOther _

theorem DriverSound.afterFailure :
    DriverSound setting ground { driver with phase := driver.afterFailure } := by
  refine ⟨h.1, ?_⟩
  unfold Driver.afterFailure
  cases driver.phase <;> trivial

/-- An answer moves the driver to a phase that what it has seen allows. -/
theorem DriverSound.nextPhase (hground : GroundSound setting ground) (index : Nat)
    (now : WallTimestamp) :
    DriverSound setting ground
      { driver with phase := ground.nextDriverPhase setting index driver now } := by
  have hplan := h.1
  have hphase := h.2
  unfold Ground.nextDriverPhase
  cases hcase : driver.phase with
  | recovering | rereading | verifying => exact h.afterRead now
  | preparing count =>
    simp only [hcase] at hphase ⊢
    split
    next hnone =>
      -- Every write has been prepared.
      rw [List.take_of_length_le (List.getElem?_eq_none_iff.mp hnone)] at hphase
      exact ⟨hplan, hphase⟩
    next entry hentry =>
      split_ifs with hanswered
      · refine ⟨hplan, fun other hmem ↦ ?_⟩
        change other ∈ driver.plan.writes.take (count + 1) at hmem
        rw [List.take_add_one, List.mem_append, hentry] at hmem
        rcases hmem with hold | hnew
        · exact hphase other hold
        · obtain rfl := List.mem_singleton.mp hnew
          obtain ⟨answer, hmem, hgood⟩ := Ground.exists_of_answered hanswered
          exact ⟨_, of_decide_eq_true hgood ▸ hmem⟩
      · exact ⟨hplan, hphase⟩
  | deciding commit count =>
    simp only [hcase] at hphase ⊢
    split_ifs
    · cases commit
      · exact ⟨hplan, trivial⟩
      · exact ⟨hplan, hphase⟩
    · exact ⟨hplan, hphase⟩
  | confirming commit count =>
    simp only [hcase] at hphase ⊢
    split_ifs with hanswered hcommit
    · exact ⟨hplan, trivial⟩
    · obtain rfl : commit = false := Bool.not_eq_true _ ▸ hcommit
      obtain ⟨answer, hmem, happlied⟩ := Ground.exists_of_answered hanswered
      exact ⟨hplan, hground.decision_of_applied (Nat.zero_le _) hmem happlied⟩
    · exact ⟨hplan, hphase⟩
  | committing | aborting | done =>
    simp only [hcase] at hphase ⊢
    exact ⟨hplan, hphase⟩

end

/-- The record behind a decision, which is sound. -/
theorem GroundSound.exists_record (h : GroundSound setting ground) {state : TxnState}
    (hstate : ground.decision coordinator txn = some state) :
    ∃ record, storedRecord (ground.store coordinator).objects[txnRecordKey coordinator txn]? =
      some record ∧ record.state = state ∧
        DecisionSound setting ground coordinator txn record := by
  obtain ⟨record, hrecord, hstate⟩ := Option.map_eq_some_iff.mp hstate
  exact ⟨record, hrecord, hstate, (h.records coordinator txn).storedRecord hrecord⟩

section

variable (hground : GroundSound setting ground) (h : ResolverSound setting ground resolver)
  (now : WallTimestamp)

include hground h now

/-- A resolver that read the record, an old copy included, stays sound. -/
theorem ResolverSound.afterRead (hseen : tablets ∈ ground.tablets :: ground.history) :
    ResolverSound setting ground { resolver with phase := resolver.afterRead (readRecord
      (storeOf tablets resolver.intent.coordinator) resolver.recordKey now) now } := by
  refine ⟨h.1, ?_⟩
  unfold Resolver.afterRead
  cases hread : readRecord (storeOf tablets resolver.intent.coordinator) resolver.recordKey now with
  | unreadable => trivial
  | absent =>
    dsimp only
    split_ifs <;> trivial
  | found record =>
    have hdecision : ground.decision resolver.intent.coordinator resolver.intent.id =
        some record.state := by
      rcases List.mem_cons.mp hseen with rfl | hpast
      · exact decisionIn_of_readRecord hread
      · exact hground.history tablets hpast _ _ _ (decisionIn_of_readRecord hread)
    dsimp only
    cases hstate : record.state with
    | begun =>
      rw [hstate] at hdecision
      obtain ⟨other, -, hbegun, haborted | ⟨hcommitted, -⟩⟩ := hground.exists_record hdecision
      · cases hbegun.symm.trans haborted
      · cases hbegun.symm.trans hcommitted
    | committed | aborted =>
      dsimp only
      split_ifs
      · trivial
      · exact hstate ▸ hdecision

theorem ResolverSound.nextPhase (index : Nat) :
    ResolverSound setting ground
      { resolver with phase := ground.nextResolverPhase setting index resolver now } := by
  have hintent := h.1
  have hphase := h.2
  unfold Ground.nextResolverPhase
  cases hcase : resolver.phase with
  | versioning record => simp only [hcase] at hphase
  | deciding guarded =>
    cases guarded with
    | none =>
      dsimp only
      split_ifs <;> exact ⟨hintent, trivial⟩
    | some found => simp only [hcase] at hphase
  | confirming guarded =>
    cases guarded with
    | none =>
      dsimp only
      split_ifs with hanswered hguarded
      · obtain ⟨answer, hmem, happlied⟩ := Ground.exists_of_answered hanswered
        exact ⟨hintent, hground.decision_of_applied (Nat.zero_le _) hmem happlied⟩
      · exact absurd rfl hguarded
      · exact ⟨hintent, trivial⟩
    | some found => simp only [hcase] at hphase
  | looking | finalizing | done =>
    simp only [hcase] at hphase ⊢
    exact ⟨hintent, hphase⟩

end

/-! ### Runs -/

namespace Cluster

/-- The invariant of a cluster. -/
structure Sound (setting : Setting) (cluster : Cluster) : Prop where
  ground : GroundSound setting cluster.toGround
  drivers : ∀ driver ∈ cluster.drivers, DriverSound setting cluster.toGround driver
  resolvers : ∀ resolver ∈ cluster.resolvers, ResolverSound setting cluster.toGround resolver
  network : ∀ message ∈ cluster.network, RequestSound setting cluster.toGround message.request

/-- What is asked of each step: a finalize is delivered only where it is safe, and what else a
tablet does is no step of a transaction and names no decision record, which no server refuses. -/
def DeliversSafely (cluster : Cluster) : ClusterEvent → Prop
  | .deliver position now =>
    ∀ message, cluster.network[position]? = some message →
      FinalizesSafely cluster.toGround message.request now
  | .act _ event => isOrdinary event = true
  | _ => True

instance (cluster : Cluster) (event : ClusterEvent) : Decidable (cluster.DeliversSafely event) :=
  match event with
  | .deliver position now =>
    match h : cluster.network[position]? with
    | none => isTrue fun _ hmessage ↦ nomatch h.symm.trans hmessage
    | some message =>
      decidable_of_iff (FinalizesSafely cluster.toGround message.request now)
        ⟨fun hsafe _ hmessage ↦ Option.some.inj (h.symm.trans hmessage) ▸ hsafe,
          fun hall ↦ hall message h⟩
  | .start _ | .resolve _ _ | .advance _ _ | .look _ _ _ | .fail _ | .crash _ | .send _ _
  | .lose _ => isTrue trivial
  | .act _ event => inferInstanceAs (Decidable (isOrdinary event = true))

variable {cluster : Cluster}

theorem Sound.setGround (h : Sound setting cluster)
    (hcarries : Carries setting cluster.toGround ground) :
    Sound setting { cluster with toGround := ground } where
  ground := h.ground.carry hcarries
  drivers driver hmem := (h.drivers driver hmem).mono hcarries.toExtends
  resolvers resolver hmem := (h.resolvers resolver hmem).mono hcarries.toExtends
  network message hmem := (h.network message hmem).mono hcarries.toExtends

theorem Sound.setDriver (h : Sound setting cluster) (index : Nat) {phase : DriverPhase}
    (hdriver : DriverSound setting cluster.toGround { driver with phase }) :
    Sound setting (cluster.setDriver index driver phase) where
  ground := h.ground
  drivers other hmem := by
    rcases List.mem_or_eq_of_mem_set hmem with hold | rfl
    · exact h.drivers other hold
    · exact hdriver
  resolvers := h.resolvers
  network := h.network

theorem Sound.setResolver (h : Sound setting cluster) (index : Nat) {phase : ResolverPhase}
    (hresolver : ResolverSound setting cluster.toGround { resolver with phase }) :
    Sound setting (cluster.setResolver index resolver phase) where
  ground := h.ground
  drivers := h.drivers
  resolvers other hmem := by
    rcases List.mem_or_eq_of_mem_set hmem with hold | rfl
    · exact h.resolvers other hold
    · exact hresolver
  network := h.network

theorem Sound.new (hplain : setting.Plain) : Sound setting .new where
  ground :=
    { plain := hplain
      intents := fun tablet key intent hintent ↦ by
        simp [Ground.cell, Ground.store, storeOf, Cluster.new, ObjectStore.cell, ObjectStore.new]
          at hintent
      records := fun coordinator txn ↦ by
        have hcell : Ground.cell Cluster.new.toGround coordinator (txnRecordKey coordinator txn) =
            ⟨none, none⟩ := by
          simp [Ground.cell, Ground.store, storeOf, Cluster.new, ObjectStore.cell, ObjectStore.new]
        rw [hcell]
        exact ⟨by simp, by simp⟩
      history := List.forall_mem_nil _
      kept := fun _ _ _ _ _ _ ⟨_, hmem⟩ ↦ absurd hmem List.not_mem_nil
      applied := fun _ _ _ _ _ ⟨_, _, hmem, _⟩ ↦ absurd hmem List.not_mem_nil
      written := List.forall_mem_nil _ }
  drivers _ hmem := absurd hmem List.not_mem_nil
  resolvers _ hmem := absurd hmem List.not_mem_nil
  network _ hmem := absurd hmem List.not_mem_nil

/-- A sound sender asks only for what its transaction allows. -/
theorem Sound.requestsOf (h : Sound setting cluster) (sender : Sender) :
    ∀ request ∈ cluster.requestsOf setting sender,
      RequestSound setting cluster.toGround request := by
  intro request hmem
  cases sender with
  | driver index =>
    simp only [Cluster.requestsOf] at hmem
    cases hdriver : cluster.drivers[index]? with
    | none =>
      rw [hdriver] at hmem
      exact absurd hmem List.not_mem_nil
    | some driver =>
      rw [hdriver] at hmem
      exact (h.drivers driver (List.mem_of_getElem? hdriver)).requests request hmem
  | resolver index =>
    simp only [Cluster.requestsOf] at hmem
    cases hresolver : cluster.resolvers[index]? with
    | none =>
      rw [hresolver] at hmem
      exact absurd hmem List.not_mem_nil
    | some resolver =>
      rw [hresolver] at hmem
      exact (h.resolvers resolver (List.mem_of_getElem? hresolver)).requests request hmem

/-- A delivery and an event of a tablet move the ground within the frame; nothing else moves it. -/
theorem Sound.step_ground (h : Sound setting cluster) {event : ClusterEvent}
    (hsafe : cluster.DeliversSafely event) :
    (cluster.step setting event).toGround = cluster.toGround ∨
      Carries setting cluster.toGround (cluster.step setting event).toGround := by
  cases event with
  | deliver position now =>
    simp only [Cluster.step]
    split
    · exact Or.inl rfl
    next message hmessage =>
      exact Or.inr (h.ground.deliver (h.network message (List.mem_of_getElem? hmessage))
        (hsafe message hmessage))
  | act tablet event => exact Or.inr (carries_ordinary h.ground hsafe)
  | start | resolve | send =>
    simp only [Cluster.step]
    split <;> exact Or.inl rfl
  | advance sender | fail sender | crash sender =>
    cases sender <;> simp only [Cluster.step] <;> split <;> exact Or.inl rfl
  | look index moment now =>
    simp only [Cluster.step]
    split
    · split_ifs <;> exact Or.inl rfl
    · exact Or.inl rfl
  | lose position => exact Or.inl rfl

/-- Every step whose deliveries are safe keeps the invariant. -/
theorem Sound.step (h : Sound setting cluster) {event : ClusterEvent}
    (hsafe : cluster.DeliversSafely event) : Sound setting (cluster.step setting event) := by
  cases event with
  | start txn =>
    simp only [Cluster.step]
    split
    · exact h
    next plan hplan =>
      refine ⟨h.ground, fun driver hmem ↦ ?_, h.resolvers, h.network⟩
      rcases List.mem_append.mp hmem with hold | hnew
      · exact h.drivers driver hold
      · obtain rfl := List.mem_singleton.mp hnew
        exact ⟨hplan, trivial⟩
  | resolve tablet key =>
    simp only [Cluster.step]
    split
    · exact h
    next intent hintent =>
      refine ⟨h.ground, h.drivers, fun resolver hmem ↦ ?_, h.network⟩
      rcases List.mem_append.mp hmem with hold | hnew
      · exact h.resolvers resolver hold
      · obtain rfl := List.mem_singleton.mp hnew
        exact ⟨(h.ground.intents tablet key intent hintent).2, trivial⟩
  | advance sender now =>
    cases sender <;> simp only [Cluster.step]
    · split
      · exact h
      next driver hdriver =>
        exact h.setDriver _ ((h.drivers driver (List.mem_of_getElem? hdriver)).nextPhase h.ground
          _ now)
    · split
      · exact h
      next resolver hresolver =>
        exact h.setResolver _
          ((h.resolvers resolver (List.mem_of_getElem? hresolver)).nextPhase h.ground now _)
  | look index moment now =>
    simp only [Cluster.step]
    split
    next resolver tablets hresolver htablets =>
      split_ifs
      · exact h.setResolver _ ((h.resolvers resolver (List.mem_of_getElem? hresolver)).afterRead
          h.ground now (List.mem_of_getElem? htablets))
      · exact h
    next => exact h
  | fail sender =>
    cases sender <;> simp only [Cluster.step]
    · split
      · exact h
      next driver hdriver =>
        exact h.setDriver _ (h.drivers driver (List.mem_of_getElem? hdriver)).afterFailure
    · split
      · exact h
      next resolver hresolver =>
        exact h.setResolver _ ⟨(h.resolvers resolver (List.mem_of_getElem? hresolver)).1, trivial⟩
  | crash sender =>
    cases sender <;> simp only [Cluster.step]
    · split
      · exact h
      next driver hdriver =>
        exact h.setDriver _ ⟨(h.drivers driver (List.mem_of_getElem? hdriver)).1, trivial⟩
    · split
      · exact h
      next resolver hresolver =>
        exact h.setResolver _ ⟨(h.resolvers resolver (List.mem_of_getElem? hresolver)).1, trivial⟩
  | send sender position =>
    simp only [Cluster.step]
    split
    · exact h
    next request hrequest =>
      refine ⟨h.ground, h.drivers, h.resolvers, fun message hmem ↦ ?_⟩
      rcases List.mem_append.mp hmem with hold | hnew
      · exact h.network message hold
      · obtain rfl := List.mem_singleton.mp hnew
        exact h.requestsOf sender request (List.mem_of_getElem? hrequest)
  | deliver position now =>
    simp only [Cluster.step]
    split
    · exact h
    next message hmessage =>
      exact h.setGround (h.ground.deliver (h.network message (List.mem_of_getElem? hmessage))
        (hsafe message hmessage))
  | lose position =>
    exact ⟨h.ground, h.drivers, h.resolvers,
      fun message hmem ↦ h.network message (List.mem_of_mem_eraseIdx hmem)⟩
  | act tablet event => exact h.setGround (carries_ordinary h.ground hsafe)

theorem Sound.run (hplain : setting.Plain) {events : List ClusterEvent}
    (hsafe : Along (Cluster.step setting) DeliversSafely .new events) :
    Sound setting (Runs.run (Cluster.step setting) .new events) :=
  run_invariant_along (P := Sound setting) (fun _ _ hsafe h ↦ h.step hsafe) (Sound.new hplain)
    hsafe

/-! ### Atomicity -/

/-- Whether a request is a step of the transaction or of a decision about it. -/
def concerns (txn : TxnId) (recordKey : Key) : Request → Bool
  | (_, .txnPrepare id _ key _ _ _) | (_, .txnFinalize id key _ _ _) =>
    decide (id = txn ∨ key = recordKey)
  | _ => false

/-- No step of the transaction is pending: none is under way, no process works on it and no
tablet holds a reservation of it or of its record. -/
structure Quiescent (cluster : Cluster) (plan : Plan) (txn : TxnId) : Prop where
  network : ∀ message ∈ cluster.network, concerns txn (plan.recordKey txn) message.request = false
  drivers : ∀ driver ∈ cluster.drivers, driver.txn = txn → driver.phase = .done
  resolvers : ∀ resolver ∈ cluster.resolvers,
    resolver.intent.id = txn ∨ resolver.intent.key = plan.recordKey txn → resolver.phase = .done
  intents : ∀ tablet key intent, (cluster.cell tablet key).intent = some intent →
    intent.id ≠ txn ∧ key ≠ plan.recordKey txn

/-- The coordinator stores a commit record of this write set. -/
def CommitRecorded (cluster : Cluster) (plan : Plan) (txn : TxnId) : Prop :=
  ∃ record, storedRecord (cluster.store plan.coordinator).objects[plan.recordKey txn]? =
    some record ∧ record.state = .committed ∧ record.digest = plan.digest

section

variable (h : Sound setting cluster) (hplan : setting.plans txn = some plan)
  (hdecision : cluster.decision plan.coordinator txn = some .committed)
include h hplan hdecision

theorem Sound.commitRecorded :
    cluster.CommitRecorded plan txn ∧
      ∀ entry ∈ plan.writes, cluster.Prepared plan txn entry := by
  obtain ⟨record, hrecord, hstate, haborted | ⟨-, plan', hplan', -, hdigest, hprepared⟩⟩ :=
    h.ground.exists_record hdecision
  · cases hstate.symm.trans haborted
  · obtain rfl : plan' = plan := Option.some.inj (hplan'.symm.trans hplan)
    exact ⟨⟨record, hrecord, hstate, hdigest⟩, hprepared⟩

/-- Every write of a committed transaction that holds no reservation has been applied. -/
theorem Sound.applied_of_committed (hquiescent : cluster.Quiescent plan txn) :
    ∀ entry ∈ plan.writes, cluster.Applied plan txn entry := by
  intro entry hmem
  have hprepared := (h.commitRecorded hplan hdecision).2 entry hmem
  have hnot : cluster.decision plan.coordinator txn ≠ some .aborted := by
    rw [hdecision]
    nofun
  rcases h.ground.kept txn plan hplan hnot entry hmem hprepared with
    ⟨held, hheld, hid, -⟩ | happlied
  · exact absurd hid (hquiescent.intents _ _ held hheld).1
  · exact happlied

end

/-- An idle cluster without reservations has no pending step. -/
theorem quiescent_of_idle (hnetwork : cluster.network = [])
    (hdrivers : cluster.drivers.all fun driver ↦ decide (driver.phase = .done))
    (hresolvers : cluster.resolvers.all fun resolver ↦ decide (resolver.phase = .done))
    (hintents : cluster.tablets.toList.all fun entry ↦ entry.2.intents.toList.isEmpty) :
    cluster.Quiescent plan txn where
  network message hmem := by
    rw [hnetwork] at hmem
    exact absurd hmem List.not_mem_nil
  drivers driver hmem _ := of_decide_eq_true (List.all_eq_true.mp hdrivers driver hmem)
  resolvers resolver hmem _ := of_decide_eq_true (List.all_eq_true.mp hresolvers resolver hmem)
  intents tablet key intent hintent := by
    refine absurd hintent ?_
    change (storeOf cluster.tablets tablet).intents[key]? ≠ some intent
    rw [storeOf, Std.ExtTreeMap.getD_eq_getD_getElem?]
    cases hstore : cluster.tablets[tablet]? with
    | none => simp [ObjectStore.new]
    | some store =>
      have hempty := List.all_eq_true.mp hintents (tablet, store)
        (Std.ExtTreeMap.mem_toList_iff_getElem?_eq_some.mpr hstore)
      intro hheld
      have hmem : (key, intent) ∈ store.intents.toList :=
        Std.ExtTreeMap.mem_toList_iff_getElem?_eq_some.mpr hheld
      rw [List.isEmpty_iff.mp hempty] at hmem
      exact absurd hmem List.not_mem_nil

/-- If no write set names a key twice or a decision record, then along every run whose finalizes
are delivered safely and whose other operations leave the records alone, a transaction with no
pending step has applied all of its writes or none. An applied write has a durable commit record of
its write set, which was there before the step that applied it. -/
theorem two_phase_commit_atomic {setting : Setting} (hplain : setting.Plain)
    {events : List ClusterEvent}
    (hsafe : Along (Cluster.step setting) DeliversSafely .new events) {txn : TxnId} {plan : Plan}
    (hplan : setting.plans txn = some plan) :
    let cluster := Runs.run (Cluster.step setting) .new events
    (cluster.Quiescent plan txn →
      (∀ entry ∈ plan.writes, cluster.Applied plan txn entry) ∨
        ∀ entry ∈ plan.writes, ¬ cluster.Applied plan txn entry) ∧
    ∀ entry ∈ plan.writes,
      (cluster.Applied plan txn entry → cluster.CommitRecorded plan txn) ∧
      ∀ event, cluster.DeliversSafely event →
        (cluster.step setting event).Applied plan txn entry →
          cluster.Applied plan txn entry ∨ cluster.CommitRecorded plan txn := by
  intro cluster
  have hsound : Sound setting cluster := Sound.run hplain hsafe
  refine ⟨fun hquiescent ↦ ?_, fun entry hmem ↦ ⟨fun happlied ↦ ?_, fun event hsafe hafter ↦ ?_⟩⟩
  · by_cases hdecision : cluster.decision plan.coordinator txn = some .committed
    · exact Or.inl (hsound.applied_of_committed hplan hdecision hquiescent)
    · exact Or.inr fun entry hmem happlied ↦
        hdecision (hsound.ground.applied txn plan hplan entry hmem happlied)
  · exact (hsound.commitRecorded hplan
      (hsound.ground.applied txn plan hplan entry hmem happlied)).1
  · rcases hsound.step_ground hsafe with hsame | hcarries
    · rw [hsame] at hafter
      exact Or.inl hafter
    · refine (hcarries.applied txn plan hplan entry hmem hafter).imp_right fun hdecision ↦ ?_
      exact (hsound.commitRecorded hplan hdecision).1

/-- A transaction that puts one key on each of two tablets. -/
def twoPuts : Plan :=
  ⟨1, [(1, ⟨[1], .put [1], .any⟩), (2, ⟨[2], .put [2], .any⟩)], .zero _, 0⟩

/-- A cluster that runs `twoPuts` and nothing else. -/
def twoPutsOnly : Setting :=
  ⟨fun txn ↦ if txn = .zero _ then some twoPuts else none,
    fun txn salt ↦ ⟨UInt8.ofNat (salt.toNat + 1) :: txn.bytes.take 15, by simp [txn.length_eq]⟩⟩

theorem twoPutsOnly_plain : twoPutsOnly.Plain := by
  intro txn plan hplan
  obtain ⟨-, hplan⟩ := Option.ite_none_right_eq_some.mp hplan
  obtain rfl := Option.some.inj hplan
  exact ⟨by decide, by decide⟩

/-- The driver prepares both writes and sends the commit of its record. -/
def twoPutsPrepared : List ClusterEvent :=
  [.start (.zero _), .advance (.driver 0) 0,
    .send (.driver 0) 0, .deliver 0 0, .advance (.driver 0) 0,
    .send (.driver 0) 0, .deliver 1 0, .advance (.driver 0) 0, .advance (.driver 0) 0,
    .send (.driver 0) 0, .deliver 2 0, .advance (.driver 0) 0, .send (.driver 0) 0]

/-- The commit of the record arrives and the driver finalizes both writes. -/
def twoPutsFinalized : List ClusterEvent :=
  [.deliver 3 0, .advance (.driver 0) 0, .advance (.driver 0) 0,
    .send (.driver 0) 0, .deliver 4 0, .send (.driver 0) 1, .deliver 5 0, .crash (.driver 0),
    .lose 0, .lose 0, .lose 0, .lose 0, .lose 0, .lose 0]

/-- The run that goes through: both writes are applied. -/
theorem two_puts_both_applied :
    let cluster := Runs.run (Cluster.step twoPutsOnly) .new (twoPutsPrepared ++ twoPutsFinalized)
    cluster.Quiescent twoPuts (.zero _) ∧
      ∀ entry ∈ twoPuts.writes, cluster.Applied twoPuts (.zero _) entry := by
  have hquiescent : (Runs.run (Cluster.step twoPutsOnly) .new
      (twoPutsPrepared ++ twoPutsFinalized)).Quiescent twoPuts (.zero _) :=
    quiescent_of_idle (by decide +kernel) (by decide +kernel) (by decide +kernel)
      (by decide +kernel)
  have hatomic :=
    (two_phase_commit_atomic twoPutsOnly_plain (by decide +kernel) rfl).1 hquiescent
  refine ⟨hquiescent, hatomic.resolve_right fun hnone ↦ ?_⟩
  exact hnone (1, ⟨[1], .put [1], .any⟩) (by decide) (by decide +kernel)

/-- Long after, resolvers find all reservations expired: one gives up that of the record, one
decides to abort and gives up its write, one gives up the other write. The commit of the record
then arrives and replaces the abort, and the driver follows it on one tablet. -/
def twoPutsSplit : List ClusterEvent :=
  [.resolve 1 (txnRecordKey 1 (.zero _)), .look 0 none 60000001,
    .send (.resolver 0) 0, .deliver 4 60000001, .advance (.resolver 0) 60000001,
    .send (.resolver 0) 0, .deliver 5 60000001, .advance (.resolver 0) 60000001,
    .send (.resolver 0) 0, .deliver 6 60000001, .crash (.resolver 0),
    .resolve 1 [1], .resolve 2 [2], .look 1 none 60000001,
    .send (.resolver 1) 0, .deliver 7 60000001, .advance (.resolver 1) 60000001,
    .send (.resolver 1) 0, .deliver 8 60000001, .advance (.resolver 1) 60000001,
    .send (.resolver 1) 0, .deliver 9 60000001, .crash (.resolver 1),
    .look 2 none 60000001, .send (.resolver 2) 0, .deliver 10 60000001, .crash (.resolver 2),
    .deliver 3 60000001, .advance (.driver 0) 60000001, .advance (.driver 0) 60000001,
    .send (.driver 0) 0, .deliver 11 60000001, .crash (.driver 0),
    .lose 0, .lose 0, .lose 0, .lose 0, .lose 0, .lose 0, .lose 0, .lose 0, .lose 0, .lose 0,
    .lose 0, .lose 0]

/-- The run that is split: nothing is pending, and one write has been applied. -/
theorem two_puts_one_applied :
    let cluster := Runs.run (Cluster.step twoPutsOnly) .new (twoPutsPrepared ++ twoPutsSplit)
    cluster.Quiescent twoPuts (.zero _) ∧
      cluster.Applied twoPuts (.zero _) (1, ⟨[1], .put [1], .any⟩) ∧
      ¬ cluster.Applied twoPuts (.zero _) (2, ⟨[2], .put [2], .any⟩) :=
  ⟨quiescent_of_idle (by decide +kernel) (by decide +kernel) (by decide +kernel)
    (by decide +kernel), by decide +kernel, by decide +kernel⟩

end Cluster

end Kivi.Txn
