import Kivi.State.Frames
import Kivi.State.PrepareDurable
import Kivi.State.TypedInvariants

/-!
# Predictions agree with application

Whatever `prepareDurable` predicts for a write, applying its mutation to the same store at the
same time produces. For an ordinary operation this is a statement about one entry
(`Predicted`), proved for each prediction in turn; a finalize is compared with the write it
carries, and a local commit with its run on the staged keys. The one operation that disagrees is
an acquisition of zero units under a permit that is already held.
-/

namespace Kivi.State

open Library Library.CheckedArith Library.Runs

/-- The step of the mutation on this entry succeeds and is answered as expected. -/
def Predicted (stored : Option StoredObject) (mutation : Mutation) (now : WallTimestamp)
    (expected : OperationResult) : Prop :=
  ∃ outcome after, objectStep stored mutation now = .ok (outcome, after) ∧
    outcomeFor mutation outcome (isPersistExpiry mutation) = some expected

namespace ObjectStore

variable {store : ObjectStore} {key : Key} {now : WallTimestamp} {mutation written : Mutation}
  {expected : OperationResult}

/-! ### Writes that take the next version -/

variable {version : ObjectVersion}

theorem predictVersion_eq_ok_iff :
    store.predictVersion key now = .ok version ↔
      entryNextVersion store.objects[key]? now = some version := by
  unfold predictVersion
  rw [nextVersion_eq]
  cases entryNextVersion store.objects[key]? now <;> simp

theorem predictWrite_eq_write {answer : ObjectVersion → OperationResult}
    (h : store.predictWrite key now mutation answer = .write written expected) :
    ∃ version, entryNextVersion store.objects[key]? now = some version ∧ written = mutation ∧
      expected = answer version := by
  unfold predictWrite at h
  cases hversion : store.predictVersion key now with
  | error outcome => simp [hversion] at h
  | ok version =>
    simp only [hversion, StorePrepared.write.injEq] at h
    exact ⟨version, predictVersion_eq_ok_iff.mp hversion, h.1.symm, h.2.symm⟩

/-- A predicted write that the entry's step makes, and answers as expected. -/
theorem predicted_of_predictWrite {shape : Mutation} {reply : ObjectVersion → OperationResult}
    (h : store.predictWrite key now shape reply = .write mutation expected)
    (hwrites : ∀ version, ∃ outcome value expiry,
      Writes (liveObject store.objects[key]? now) now version shape outcome value expiry ∧
        outcomeFor shape outcome (isPersistExpiry shape) = some (reply version)) :
    mutation = shape ∧ Predicted store.objects[key]? mutation now expected := by
  obtain ⟨version, hversion, rfl, rfl⟩ := predictWrite_eq_write h
  obtain ⟨outcome, value, expiry, hstep, hanswer⟩ := hwrites version
  exact ⟨rfl, outcome, _, objectStep_of_writes hversion hstep, hanswer⟩

/-- The same where nothing is live, so that the version is the first. -/
theorem predicted_of_create {outcome : ApplyOutcome} {value : LogicalValue} {expiry : Expiry}
    (hlive : liveObject store.objects[key]? now = none)
    (hwrites : Writes (liveObject store.objects[key]? now) now .first mutation outcome value expiry)
    (hanswer : outcomeFor mutation outcome (isPersistExpiry mutation) = some expected) :
    Predicted store.objects[key]? mutation now expected :=
  ⟨outcome, _, objectStep_of_writes (entryNextVersion_of_absent hlive) hwrites, hanswer⟩

/-! ### One lemma for each prediction -/

variable {delta : Int64}

variable {offset : UInt64} {patch : Bytes}

/-- A predicted range write comes true if it can be addressed. -/
theorem predictSetRange_predicted (hfits : offset.toNat + patch.length ≤ maxAllocation)
    (h : store.predictSetRange key now offset patch = .ok (.write mutation expected)) :
    mutation = .spliceBytes key offset patch ∧
      Predicted store.objects[key]? mutation now expected := by
  -- Within the largest allocation the splice itself cannot fail.
  have hsplice (base : Bytes) : ∃ spliced, spliceInline base offset patch = .ok spliced := by
    have hword : ¬ 2 ^ 64 ≤ offset.toNat + patch.length := by
      have : maxAllocation = 2 ^ 63 - 1 := rfl
      omega
    simp only [spliceInline, if_neg hword, if_neg (Nat.not_lt.mpr hfits)]
    exact ⟨_, rfl⟩
  have hwrite {base : Bytes} {expiry : Expiry}
      (hbase : Splices (liveObject store.objects[key]? now) base expiry)
      (hprediction : store.predictWrite key now (.spliceBytes key offset patch) .stored =
        .write mutation expected) :
      mutation = .spliceBytes key offset patch ∧
        Predicted store.objects[key]? mutation now expected := by
    obtain ⟨spliced, hspliced⟩ := hsplice base
    exact predicted_of_predictWrite hprediction fun _ ↦
      ⟨_, _, _, .spliceBytes hbase hspliced, rfl⟩
  simp only [predictSetRange, get_eq] at h
  split at h
  next hlive => exact hwrite (.first hlive) (Result.ok.inj h)
  next current hlive =>
  split at h
  next value hvalue => exact hwrite (.onto hlive hvalue) (Result.ok.inj h)
  all_goals cases h

theorem predictExpiry_predicted {expiresAt : Option WallTimestamp}
    (h : store.predictExpiry key now expiresAt = .write mutation expected) :
    mutation = .setExpiry key ⟨expiresAt⟩ ∧
      Predicted store.objects[key]? mutation now expected := by
  simp only [predictExpiry, get_eq] at h
  cases hlive : liveObject store.objects[key]? now with
  | none => simp [hlive] at h
  | some current =>
  simp only [hlive] at h
  split_ifs at h
  refine predicted_of_predictWrite h fun _ ↦ ⟨_, _, _, .setExpiry hlive, ?_⟩
  cases expiresAt <;> rfl

theorem predictBoundedCreate_predicted {capacity : UInt64} {holder : TabletId}
    (h : store.predictBoundedCreate key now capacity holder = .write mutation expected) :
    mutation = .boundedCreate key capacity holder ∧
      Predicted store.objects[key]? mutation now expected := by
  simp only [predictBoundedCreate, get_eq] at h
  split at h
  · cases h
  next hlive =>
  split_ifs at h with hlarge
  · cases h
  cases h
  have hcap : i64OfU64 capacity = some (Int64.ofInt capacity.toNat) := by
    rw [i64OfU64, if_pos (by omega)]
  exact ⟨rfl, predicted_of_create hlive (.boundedCreate hlive hcap) rfl⟩

variable {permit : PermitId} {owner qty : UInt64}

/-- The prediction of an acquisition ignores the permit when the quantity is zero. -/
theorem predictSemaphoreAcquire_cases
    (h : store.predictSemaphoreAcquire key now permit owner qty = .write mutation expected) :
    ∃ current state, liveObject store.objects[key]? now = some current ∧
      current.value = .semaphore state ∧
      mutation = .semaphoreAcquire key permit owner qty ∧ expected = .semaphoreAcquired ∧
      (∃ version, entryNextVersion store.objects[key]? now = some version) ∧
      (qty = 0 ∨ ∃ state', acquirePermit state permit owner qty = .ok state') := by
  simp only [predictSemaphoreAcquire, get_eq] at h
  split at h
  · cases h
  next current hlive =>
  split at h
  swap
  · cases h
  next state hvalue =>
  refine ⟨current, state, hlive, hvalue, ?_⟩
  split at h
  next hzero =>
    obtain ⟨version, hversion, rfl, rfl⟩ := predictWrite_eq_write h
    exact ⟨rfl, rfl, ⟨version, hversion⟩, Or.inl hzero⟩
  next hzero =>
  have hpos : 0 < qty := UInt64.pos_iff_ne_zero.mpr hzero
  cases hheld : state.permits[permit]? with
  | some held =>
    simp only [hheld] at h
    split_ifs at h with hsame
    · obtain ⟨version, hversion, rfl, rfl⟩ := predictWrite_eq_write h
      refine ⟨rfl, rfl, ⟨version, hversion⟩, Or.inr ⟨state, ?_⟩⟩
      simp only [acquirePermit, hheld, if_pos hsame]
    · cases h
  | none =>
    simp only [hheld] at h
    split_ifs at h with hfull
    · cases h
    · obtain ⟨hsize, hcapacity⟩ := not_or.mp hfull
      obtain ⟨version, hversion, rfl, rfl⟩ := predictWrite_eq_write h
      refine ⟨rfl, rfl, ⟨version, hversion⟩,
        Or.inr ⟨{ state with permits := state.permits.insert permit ⟨owner, qty⟩ }, ?_⟩⟩
      simp only [acquirePermit, hheld, if_pos hpos, if_neg hsize, if_neg hcapacity]

/-- Zero units under a permit that is already held. -/
def EmptyReacquire (store : ObjectStore) (op : Operation) (now : WallTimestamp) : Prop :=
  match op with
  | .semaphoreAcquire key permit _ qty =>
    qty = 0 ∧ ∃ object state, store.get key now = some object ∧ object.value = .semaphore state ∧
      state.permits[permit]? ≠ none
  | _ => False

/-- An acquisition is applied as predicted, except for zero units under a held permit: no held
permit is empty, so the request differs from what is held. -/
theorem predictSemaphoreAcquire_predicted_iff (hsound : EntrySound False store.objects[key]?)
    (h : store.predictSemaphoreAcquire key now permit owner qty = .write mutation expected) :
    mutation = .semaphoreAcquire key permit owner qty ∧
      (Predicted store.objects[key]? mutation now expected ↔
        ¬ EmptyReacquire store (.semaphoreAcquire key permit owner qty) now) := by
  obtain ⟨current, state, hlive, hvalue, rfl, rfl, ⟨version, hversion⟩, hcases⟩ :=
    predictSemaphoreAcquire_cases h
  refine ⟨rfl, ?_⟩
  -- Where the permit can be acquired, the step rewrites the semaphore.
  have hgranted (state' : SemaphoreState)
      (hacquire : acquirePermit state permit owner qty = .ok state') :
      Predicted store.objects[key]? (.semaphoreAcquire key permit owner qty) now
        .semaphoreAcquired :=
    ⟨_, _, objectStep_of_writes hversion (.semaphoreAcquire hlive hvalue hacquire), rfl⟩
  have hpermits : state.Sound False := by
    have := hsound.of_live hlive
    rwa [hvalue] at this
  cases hheld : state.permits[permit]? with
  | none =>
    have hfree : ¬ EmptyReacquire store (.semaphoreAcquire key permit owner qty) now := by
      rintro ⟨-, object, state', hobject, hvalue', hne⟩
      cases hlive.symm.trans hobject
      cases hvalue.symm.trans hvalue'
      exact hne hheld
    refine iff_of_true ?_ hfree
    rcases hcases with rfl | ⟨state', hacquire⟩
    · exact hgranted state (by simp [acquirePermit, hheld])
    · exact hgranted state' hacquire
  | some held =>
    have hpos := hpermits.pos permit held hheld
    rcases hcases with rfl | ⟨state', hacquire⟩
    · refine iff_of_false ?_ (not_not_intro ⟨rfl, current, state, hlive, hvalue, by simp [hheld]⟩)
      have hne : ¬ (held.owner = owner ∧ held.qty = 0) := fun hsame ↦
        UInt64.pos_iff_ne_zero.mp hpos hsame.2
      rintro ⟨outcome, after, hstep, -⟩
      simp [objectStep, onLive, hlive, acquireEntry, hvalue, acquirePermit, hheld, hne] at hstep
    · refine iff_of_true (hgranted state' hacquire) ?_
      rintro ⟨rfl, -⟩
      have hne : ¬ (held.owner = owner ∧ held.qty = 0) := fun hsame ↦
        UInt64.pos_iff_ne_zero.mp hpos hsame.2
      simp [acquirePermit, hheld, hne] at hacquire

variable {ttlMicros : UInt64}

/-- A predicted grant takes the token on offer, which has a successor. -/
theorem predictGrant_eq_write {nextFencing : FencingToken} {live : Option LeaseHolder}
    {fresh : Bool}
    (h : store.predictGrant key now owner ttlMicros nextFencing live fresh =
      .write mutation expected)
    (hfresh : fresh = true → (entryNextVersion store.objects[key]? now).isSome = true) :
    live = none ∧ mutation = .leaseAcquire key owner nextFencing (leaseExpiresAt now ttlMicros) ∧
      expected = .leaseAcquired nextFencing (leaseExpiresAt now ttlMicros) ∧
      (∃ advanced, nextFencing.next = some advanced) ∧
      (entryNextVersion store.objects[key]? now).isSome = true := by
  unfold predictGrant at h
  split_ifs at h with hheld hnew
  · cases h
  all_goals
    have hfree : live = none := by simpa using hheld
    refine ⟨hfree, ?_⟩
  · cases hadvanced : nextFencing.next with
    | none =>
      simp only [hadvanced] at h
      cases h
    | some advanced =>
      simp only [hadvanced, StorePrepared.write.injEq] at h
      exact ⟨h.1.symm, h.2.symm, ⟨advanced, rfl⟩, hfresh hnew⟩
  · cases hversion : store.predictVersion key now with
    | error outcome =>
      simp only [hversion] at h
      cases h
    | ok version =>
      have hnext := predictVersion_eq_ok_iff.mp hversion
      cases hadvanced : nextFencing.next with
      | none =>
        simp only [hversion, hadvanced] at h
        cases h
      | some advanced =>
        simp only [hversion, hadvanced, StorePrepared.write.injEq] at h
        exact ⟨h.1.symm, h.2.symm, ⟨advanced, rfl⟩, by rw [hnext]; rfl⟩

theorem predictLeaseAcquire_predicted
    (h : store.predictLeaseAcquire key now owner ttlMicros = .write mutation expected) :
    (∃ fencing expiresAt, mutation = .leaseAcquire key owner fencing expiresAt) ∧
      Predicted store.objects[key]? mutation now expected := by
  simp only [predictLeaseAcquire, get_eq] at h
  split at h
  next hlive =>
    obtain ⟨-, rfl, rfl, ⟨advanced, hadvanced⟩, -⟩ :=
      predictGrant_eq_write h fun _ ↦ by rw [entryNextVersion_of_absent hlive]; rfl
    exact ⟨⟨_, _, rfl⟩, predicted_of_create hlive (.leaseAcquire (.first hlive) hadvanced) rfl⟩
  next current hlive =>
  split at h
  swap
  · cases h
  next state hvalue =>
  obtain ⟨hfree, rfl, rfl, ⟨advanced, hadvanced⟩, hversion⟩ := predictGrant_eq_write h (by simp)
  obtain ⟨version, hversion⟩ := Option.isSome_iff_exists.mp hversion
  exact ⟨⟨_, _, rfl⟩, _, _,
    objectStep_of_writes hversion (.leaseAcquire (.next hlive hvalue hfree) hadvanced), rfl⟩

/-- In a shard with growing offsets, the entries up to an offset are the ones a trim drops. -/
theorem length_filter_eq_trimmed (entries : List StreamEntry) (through : UInt64)
    (hsorted : entries.Pairwise fun first second ↦ first.offset < second.offset) :
    (entries.filter fun entry ↦ decide (entry.offset ≤ through)).length =
      entries.length - (trimmed entries through).length := by
  induction entries with
  | nil => rfl
  | cons entry rest ih =>
    obtain ⟨hfirst, hrest⟩ := List.pairwise_cons.mp hsorted
    have hlength : (trimmed rest through).length ≤ rest.length :=
      (List.dropWhile_sublist _).length_le
    by_cases hle : entry.offset ≤ through
    · have htrim : trimmed (entry :: rest) through = trimmed rest through := by
        simp [trimmed, hle]
      rw [htrim, List.filter_cons_of_pos (by simpa using hle), List.length_cons, List.length_cons,
        ih hrest]
      omega
    · have htrim : trimmed (entry :: rest) through = entry :: rest := by
        simp [trimmed, hle]
      have hnone : (entry :: rest).filter (fun entry ↦ decide (entry.offset ≤ through)) = [] := by
        rw [List.filter_eq_nil_iff]
        intro other hother
        rw [decide_eq_true_eq]
        rcases List.mem_cons.mp hother with rfl | hother
        · exact hle
        · exact fun h ↦ hle (UInt64.le_trans (UInt64.le_of_lt (hfirst other hother)) h)
      rw [htrim, hnone, List.length_nil, Nat.sub_self]

theorem predictStreamTrim_predicted {through : UInt64}
    (hsound : EntrySound False store.objects[key]?)
    (h : store.predictStreamTrim key now through = .write mutation expected) :
    mutation = .streamTrim key through ∧ Predicted store.objects[key]? mutation now expected := by
  simp only [predictStreamTrim, get_eq] at h
  split at h
  · cases h
  next current hlive =>
  split at h
  swap
  · cases h
  next shard hvalue =>
  have hshard : shard.Sound current.version := by
    have := hsound.of_live hlive
    rwa [hvalue] at this
  rw [length_filter_eq_trimmed _ _ hshard.sorted] at h
  exact predicted_of_predictWrite h fun _ ↦ ⟨_, _, _, .streamTrim hlive hvalue, rfl⟩

/-! ### Ordinary operations -/

/-- A range write that ends past the largest allocation. -/
def ExceedsAddressable : Operation → Prop
  | .setRange _ offset patch => maxAllocation < offset.toNat + patch.length
  | _ => False

/-- The mutation is on the operation's key, and clears an expiry only if the operation does. -/
def PreparedAs (op : Operation) (key : Key) (mutation : Mutation) : Prop :=
  mutation.ordinaryKey = some key ∧ isPersistExpiry mutation = op.isPersistExpiry

variable {op : Operation}

/-- A prediction that holds of an operation other than an acquisition. -/
theorem predicted_iff_of_not_acquire {op : Operation} {shape : Mutation}
    (hop : ¬ EmptyReacquire store op now) (hshape : PreparedAs op key shape)
    (h : mutation = shape ∧ Predicted store.objects[key]? mutation now expected) :
    PreparedAs op key mutation ∧
      (Predicted store.objects[key]? mutation now expected ↔ ¬ EmptyReacquire store op now) :=
  ⟨h.1 ▸ hshape, iff_of_true h.2 hop⟩

/-- A predicted ordinary write comes true, but for a permit acquired again with nothing. -/
theorem predictOrdinary_predicted_iff (hkey : op.key = some key)
    (hsound : EntrySound False store.objects[key]?) (hfits : ¬ ExceedsAddressable op)
    (h : store.predictOrdinary now op = .ok (.write mutation expected)) :
    PreparedAs op key mutation ∧
      (Predicted store.objects[key]? mutation now expected ↔ ¬ EmptyReacquire store op now) := by
  cases op with
  | set own value | setChunked own manifest logicalLen
  | setFabric own fabricId logicalLen version =>
    cases hkey
    exact predicted_iff_of_not_acquire id ⟨rfl, rfl⟩
      (predicted_of_predictWrite (Result.ok.inj h) fun _ ↦ ⟨_, _, _, by constructor, rfl⟩)
  | setRange own offset patch =>
    cases hkey
    exact predicted_iff_of_not_acquire id ⟨rfl, rfl⟩
      (predictSetRange_predicted (Nat.not_lt.mp hfits) h)
  | delete own =>
    cases hkey
    simp only [predictOrdinary, Result.ok.injEq, StorePrepared.write.injEq] at h
    obtain ⟨rfl, rfl⟩ := h
    exact predicted_iff_of_not_acquire id ⟨rfl, rfl⟩ ⟨rfl, _, _, rfl, rfl⟩
  | boundedCounterCreate own capacity holder =>
    cases hkey
    exact predicted_iff_of_not_acquire id ⟨rfl, rfl⟩
      (predictBoundedCreate_predicted (Result.ok.inj h))
  | counterAdd | commutativeAdd | boundedCounterAdd | escrowTransfer | semaphoreCreate
  | semaphoreRelease | leaseRenew | leaseRelease | streamCreate | streamAppend =>
    cases hkey
    simp only [predictOrdinary, predictCounterAdd, predictCommutativeAdd, predictBoundedAdd,
      predictEscrowMove, predictSemaphoreCreate, predictSemaphoreRelease, predictLeaseRenew,
      predictLeaseRelease, predictStreamCreate, predictStreamAppend, get_eq, Result.ok.injEq] at h
    repeat' split at h
    all_goals
      try casesm* _ ∧ _
      subst_vars
    all_goals first
      | exact predicted_iff_of_not_acquire id ⟨rfl, rfl⟩ (predicted_of_predictWrite h fun _ ↦
          ⟨_, _, _, by constructor <;> first | assumption | simp_all, rfl⟩)
      | exact predicted_iff_of_not_acquire id ⟨rfl, rfl⟩ (predicted_of_predictWrite h fun _ ↦
          ⟨_, _, _, by constructor <;> assumption, by simp_all [outcomeFor, outcomeForSemantic]⟩)
      | exact predicted_iff_of_not_acquire id ⟨rfl, rfl⟩ (predicted_of_predictWrite h fun _ ↦
          ⟨_, _, _, by
            constructor
            refine .more (by assumption) ?_ (by assumption)
            simp only [counterValue, *], rfl⟩)
      | cases h
    -- What is left creates an object where nothing is live.
    all_goals
      exact predicted_iff_of_not_acquire id ⟨rfl, rfl⟩ ⟨rfl, predicted_of_create (by assumption)
        (by constructor; first | assumption | exact .first (by assumption)) rfl⟩
  | semaphoreAcquire own permit owner qty =>
    cases hkey
    obtain ⟨rfl, hiff⟩ := predictSemaphoreAcquire_predicted_iff hsound (Result.ok.inj h)
    exact ⟨⟨rfl, rfl⟩, hiff⟩
  | leaseAcquire own owner ttlMicros =>
    cases hkey
    obtain ⟨⟨fencing, expiresAt, rfl⟩, hpredicted⟩ :=
      predictLeaseAcquire_predicted (Result.ok.inj h)
    exact predicted_iff_of_not_acquire id ⟨rfl, rfl⟩ ⟨rfl, hpredicted⟩
  | streamTrim own throughOffset =>
    cases hkey
    exact predicted_iff_of_not_acquire id ⟨rfl, rfl⟩
      (predictStreamTrim_predicted hsound (Result.ok.inj h))
  | expireAt own expiresAt | persistExpiry own =>
    cases hkey
    exact predicted_iff_of_not_acquire id ⟨rfl, rfl⟩ (predictExpiry_predicted (Result.ok.inj h))
  | setConditional | setConditionalChunked | setConditionalFabric =>
    cases hkey
    have hwrite : store.predictConditional _ _ _ _ _ = _ := Result.ok.inj h
    simp only [predictConditional] at hwrite
    split_ifs at hwrite
    obtain ⟨rfl, hpredicted⟩ := predicted_of_predictWrite hwrite fun _ ↦
      ⟨_, _, _, by constructor, rfl⟩
    exact predicted_iff_of_not_acquire id ⟨rfl, rfl⟩ ⟨rfl, hpredicted⟩
  | _ => cases h

/-! ### Reservations and finalizes -/

variable {txn : TxnId} {write : TxnWrite} {digest : Digest}

theorem prepareTxnReserve_eq_ok {coordinator : TabletId}
    (h : store.prepareTxnReserve now txn coordinator write digest = .ok mutation) :
    mutation = .txnPrepare txn coordinator write.key write.expect write.kind digest ∧
      OwnedBy txn digest store.intents[write.key]? ∧
      checkTxnExpectation write.expect (store.get write.key now) = .ok () ∧
      checkTxnWritable write.kind (store.get write.key now) = .ok () := by
  unfold prepareTxnReserve at h
  split_ifs at h with hforeign
  split at h
  · cases h
  next hexpect =>
  split at h
  · cases h
  next hwritable =>
  cases h
  exact ⟨rfl, foreignReservation_eq_false_iff.mp (by simpa using hforeign), hexpect, hwritable⟩

variable {kind : TxnWriteKind}

/-- A predicted write that takes the next version is ready and is answered with that version. -/
theorem ready_of_finalizedApplied (hkind : kind ≠ .delete)
    (hwritable : checkTxnWritable kind (liveObject store.objects[key]? now) = .ok ())
    (h : store.finalizedApplied key now mutation = .write written expected) :
    written = mutation ∧ WriteReady kind store.objects[key]? now ∧
      expected = .txnFinalized true (writtenVersion kind store.objects[key]? now) := by
  obtain ⟨version, hversion, rfl, rfl⟩ := predictWrite_eq_write h
  refine ⟨rfl, ⟨hwritable, Or.inr (by rw [hversion]; rfl)⟩, ?_⟩
  rw [writtenVersion, if_neg hkind, hversion]

theorem predictCountedFinalize_eq_write {type : ObjectType} (hkind : kind ≠ .delete)
    (hcheck : checkTxnWritable kind (liveObject store.objects[key]? now) = .ok () ↔
      previewCounterAdd (liveObject store.objects[key]? now) delta type = .ok ())
    (h : store.predictCountedFinalize key now mutation delta type = .write written expected) :
    written = mutation ∧ WriteReady kind store.objects[key]? now ∧
      expected = .txnFinalized true (writtenVersion kind store.objects[key]? now) := by
  simp only [predictCountedFinalize, get_eq] at h
  cases hlive : liveObject store.objects[key]? now with
  | none =>
    have hnext := entryNextVersion_of_absent hlive
    simp only [hlive, Option.isNone_none, if_true, finalizedCreated, StorePrepared.write.injEq] at h
    refine ⟨h.1.symm, ⟨hcheck.mpr (by rw [hlive]; rfl), Or.inr (by rw [hnext]; rfl)⟩, ?_⟩
    rw [← h.2, writtenVersion, if_neg hkind, hnext]
  | some current =>
    simp only [hlive, Option.isNone_some, Bool.false_eq_true, if_false] at h
    split at h
    next hpreview =>
      exact ready_of_finalizedApplied hkind (hcheck.mpr (by rw [hlive]; exact hpreview)) h
    · cases h
    · cases h
    · cases h

/-- The prediction of a commit is the answer of its ready write. -/
theorem predictFinalizeWrite_eq_write
    (h : store.predictFinalizeWrite key now mutation kind = .write written expected) :
    written = mutation ∧ WriteReady kind store.objects[key]? now ∧
      expected = .txnFinalized true (writtenVersion kind store.objects[key]? now) := by
  cases kind with
  | delete =>
    simp only [predictFinalizeWrite, StorePrepared.write.injEq] at h
    exact ⟨h.1.symm, ⟨rfl, Or.inl rfl⟩, h.2.symm⟩
  | put | putChunked | putFabric => exact ready_of_finalizedApplied (by simp) rfl h
  | counterAdd delta =>
    exact predictCountedFinalize_eq_write (by simp) (checkTxnWritable_add _ delta).1 h
  | commutativeAdd delta =>
    exact predictCountedFinalize_eq_write (by simp) (checkTxnWritable_add _ delta).2 h
  | boundedAdd delta =>
    simp only [predictFinalizeWrite, get_eq] at h
    cases hlive : liveObject store.objects[key]? now with
    | none =>
      simp only [hlive] at h
      cases h
    | some current =>
      simp only [hlive] at h
      split at h
      next state hvalue =>
        split at h
        · cases h
        next hpreview =>
        exact ready_of_finalizedApplied (by simp)
          (by simp [checkTxnWritable, hlive, hvalue, hpreview]) h
      · cases h
  | escrowSetShare min max =>
    simp only [predictFinalizeWrite, get_eq] at h
    cases hlive : liveObject store.objects[key]? now with
    | none =>
      simp only [hlive] at h
      cases h
    | some current =>
      simp only [hlive] at h
      split at h
      next state hvalue =>
        split_ifs at h with hinvalid
        · cases h
        · have hvalid : escrowShareValid state.value state.capacity min max = true := by
            simpa using hinvalid
          exact ready_of_finalizedApplied (by simp)
            (by simp [checkTxnWritable, hlive, hvalue, hvalid]) h
      · cases h

theorem predictFinalize_agrees {commit : Bool} (howned : OwnedBy txn digest store.intents[key]?)
    (h : store.predictFinalize key now txn commit write digest = .write mutation expected) :
    ∃ outcome, (store.apply mutation now).1 = .ok outcome ∧
      outcomeFor mutation outcome (isPersistExpiry mutation) = some expected := by
  simp only [predictFinalize] at h
  cases commit with
  | false =>
    simp only [Bool.not_false, if_true, StorePrepared.write.injEq] at h
    obtain ⟨rfl, rfl⟩ := h
    refine ⟨.txnFinalized false none, ?_, rfl⟩
    exact congrArg Prod.fst (applyTxnFinalize_of_abort howned)
  | true =>
    simp only [Bool.not_true, Bool.false_eq_true, if_false] at h
    obtain ⟨rfl, hready, rfl⟩ := predictFinalizeWrite_eq_write h
    rcases applyTxnFinalize_commit_cases write now howned with
      ⟨-, outcome, entry, -, heq⟩ | ⟨hnot, -⟩
    · exact ⟨_, congrArg Prod.fst heq, rfl⟩
    · exact absurd hready hnot

/-! ### Local commits -/

/-- One touched key, staged with its reservation. -/
def stageKey (store scratch : ObjectStore) (key : Key) : ObjectStore :=
  let scratch := match store.objects[key]? with
    | some object => scratch.putStored key object
    | none => scratch
  match store.intents[key]? with
  | some intent => scratch.insertIntent intent
  | none => scratch

/-- Reservations are filed under the key they name. -/
def IntentsFiled (store : ObjectStore) : Prop :=
  ∀ (key : Key) (held : TxnIntent), store.intents[key]? = some held → held.key = key

theorem getElem?_stageKey_objects (scratch : ObjectStore) (key other : Key) :
    (store.stageKey scratch key).objects[other]? =
      if other = key then store.objects[key]?.or scratch.objects[key]?
      else scratch.objects[other]? := by
  unfold stageKey
  cases store.objects[key]? <;> cases store.intents[key]? <;>
    simp [putStored, noteStored, insertObject, Std.ExtTreeMap.getElem?_insert,
      @eq_comm _ other key]
  all_goals
    intro hsame
    rw [hsame]

theorem getElem?_stageKey_intents (hfiled : store.IntentsFiled) (scratch : ObjectStore)
    (key other : Key) :
    (store.stageKey scratch key).intents[other]? =
      if other = key then store.intents[key]?.or scratch.intents[key]?
      else scratch.intents[other]? := by
  unfold stageKey
  cases hintent : store.intents[key]? with
  | none =>
    cases store.objects[key]? <;> simp [putStored, noteStored, insertObject]
    all_goals
      intro hsame
      rw [hsame]
  | some intent =>
    have hkey := hfiled key intent hintent
    cases store.objects[key]? <;>
      simp [putStored, noteStored, insertObject, getElem?_insertIntent, hkey]

/-- Staging keys one after the other copies their entries and their reservations. -/
theorem foldl_stageKey_cell (hfiled : store.IntentsFiled) (keys : List Key)
    (scratch : ObjectStore) (other : Key) :
    (keys.foldl store.stageKey scratch).cell other =
      if other ∈ keys then
        ⟨store.objects[other]?.or scratch.objects[other]?,
          store.intents[other]?.or scratch.intents[other]?⟩
      else scratch.cell other := by
  induction keys generalizing scratch with
  | nil => simp
  | cons key rest ih =>
    rw [List.foldl_cons, ih, getElem?_stageKey_objects, getElem?_stageKey_intents hfiled, cell,
      getElem?_stageKey_objects, getElem?_stageKey_intents hfiled]
    by_cases hsame : other = key
    · subst hsame
      by_cases hmem : other ∈ rest <;>
        cases store.objects[other]? <;> cases store.intents[other]? <;> simp [hmem]
    · simp [hsame, cell]

variable {writes : List TxnWrite}

theorem stageTouched_sameOn (hfiled : store.IntentsFiled) (writes : List TxnWrite) :
    SameOn (store.stageTouched writes) store (writes.map TxnWrite.key).dedup := by
  intro key hkey
  obtain ⟨write, hmem, rfl⟩ := List.mem_map.mp (List.mem_dedup.mp hkey)
  have htouched : write.key ∈ (Std.ExtTreeSet.ofList (writes.map TxnWrite.key)).toList := by
    rw [Std.ExtTreeSet.mem_toList, Std.ExtTreeSet.mem_ofList, List.contains_iff_mem]
    exact List.mem_map_of_mem hmem
  have hstaged : store.stageTouched writes =
      (Std.ExtTreeSet.ofList (writes.map TxnWrite.key)).toList.foldl store.stageKey .new := rfl
  rw [hstaged, foldl_stageKey_cell hfiled, if_pos htouched]
  simp [cell, new]

/-! ### Every operation -/

/-- A finalize of a key that another transaction or write set has reserved. -/
def MeetsForeignReservation (store : ObjectStore) : Operation → Prop
  | .txnFinalize txn key _ _ digest => store.foreignReservation key txn digest = true
  | _ => False

theorem isMutating_of_prepareRead (h : store.prepareRead now op = none) : op.isMutating = true := by
  cases op <;> first | rfl | cases h

/-- A predicted write found its key free. -/
theorem prepareOrdinary_eq_write
    (h : store.prepareOrdinary now op = .ok (.write mutation expected)) :
    ∃ key, op.key = some key ∧ store.intents[key]? = none ∧
      store.predictOrdinary now op = .ok (.write mutation expected) := by
  unfold prepareOrdinary at h
  split at h
  · cases h
  next key hkey =>
  split_ifs at h with hreserved
  · cases h
  split at h
  · cases h
  · cases h
  next hread =>
  have hfree : store.intents.contains key = false := by
    rwa [isMutating_of_prepareRead hread, Bool.true_and, Bool.not_eq_true] at hreserved
  exact ⟨key, hkey, contains_intents_eq_false_iff.mp hfree, h⟩

/-- Transaction operations have predictions of their own; all others go through their key. -/
theorem prepareDurable_cases (store : ObjectStore) (now : WallTimestamp) (op : Operation) :
    (∃ txn coordinator write digest, op = .txnPrepare txn coordinator write digest) ∨
    (∃ txn key commit write digest, op = .txnFinalize txn key commit write digest) ∨
    (∃ txn writes, op = .txnCommitLocal txn writes) ∨
    store.prepareDurable now op = store.prepareOrdinary now op := by
  cases op with
  | txnPrepare txn coordinator write digest => exact Or.inl ⟨txn, coordinator, write, digest, rfl⟩
  | txnFinalize txn key commit write digest =>
    exact Or.inr (Or.inl ⟨txn, key, commit, write, digest, rfl⟩)
  | txnCommitLocal txn writes => exact Or.inr (Or.inr (Or.inl ⟨txn, writes, rfl⟩))
  | _ => exact Or.inr (Or.inr (Or.inr rfl))

theorem intentsFiled_of_reachable (h : ReachableStore store) : store.IntentsFiled :=
  fun key held hheld ↦ (ReachableStore.observes h key held hheld).1

/-- A write prepared on a sound entry, outside the two documented exceptions, is applied with the
predicted answer exactly when it is not an acquisition of zero units under a held permit. -/
theorem prepared_agrees_iff
    (hsound : ∀ key, op.key = some key → EntrySound False store.objects[key]?)
    (hfiled : store.IntentsFiled)
    (hprepare : store.prepareDurable now op = .ok (.write mutation expected))
    (hforeign : ¬ MeetsForeignReservation store op) (hfits : ¬ ExceedsAddressable op) :
    (∃ outcome, (store.apply mutation now).1 = .ok outcome ∧
      outcomeFor mutation outcome (isPersistExpiry mutation) = some expected) ↔
      ¬ EmptyReacquire store op now := by
  rcases prepareDurable_cases store now op with
    ⟨txn, coordinator, write, digest, rfl⟩ | ⟨txn, key, commit, write, digest, rfl⟩ |
    ⟨txn, writes, rfl⟩ | hordinary
  · refine iff_of_true ?_ id
    simp only [prepareDurable] at hprepare
    split at hprepare
    · next reserve hreserve =>
      cases hprepare
      obtain ⟨rfl, howned, hexpect, hwritable⟩ := prepareTxnReserve_eq_ok hreserve
      exact ⟨_, congrArg Prod.fst (applyTxnPrepare_of_ready howned hexpect hwritable), rfl⟩
    · cases hprepare
  · refine iff_of_true ?_ id
    have howned : OwnedBy txn digest store.intents[key]? :=
      foreignReservation_eq_false_iff.mp (Bool.eq_false_iff.mpr hforeign)
    exact predictFinalize_agrees howned (Result.ok.inj hprepare)
  · refine iff_of_true ?_ id
    change store.predictLocalCommit now txn writes = _ at hprepare
    unfold predictLocalCommit at hprepare
    split_ifs at hprepare
    · cases hprepare
    obtain ⟨hanswer, -⟩ : SameApplied ((store.stageTouched writes).applyLocalCommit writes now)
        (store.applyLocalCommit writes now) (writes.map TxnWrite.key).dedup :=
      applyLocalCommit_frame (stageTouched_sameOn hfiled writes)
    rcases commitLocal_cases (store.stageTouched writes) writes now with
      ⟨error, -, hcommit, -⟩ | ⟨-, results, scratch, hcommit, -⟩
    · rw [hcommit] at hprepare
      cases error <;> cases hprepare
    rw [hcommit] at hprepare
    simp only [Result.ok.injEq, StorePrepared.write.injEq] at hprepare
    obtain ⟨rfl, rfl⟩ := hprepare
    rw [applyLocalCommit, hcommit] at hanswer
    exact ⟨_, hanswer.symm, rfl⟩
  · rw [hordinary] at hprepare
    obtain ⟨key, hkey, hfree, hpredict⟩ := prepareOrdinary_eq_write hprepare
    obtain ⟨⟨hmutation, -⟩, hiff⟩ :=
      predictOrdinary_predicted_iff hkey (hsound key hkey) hfits hpredict
    rw [apply_of_ordinary hmutation, applyOrdinary_of_free hmutation hfree, ← hiff]
    unfold Predicted
    rcases objectStep store.objects[key]? _ now with ⟨outcome, entry⟩ | error | _ <;> simp

/-- On every reachable store, a prepared write is applied with the predicted answer, apart from
the finalize that meets a foreign reservation and the range write past the addressable length,
exactly when it is not an acquisition of zero units under a held permit. -/
theorem prepared_write_applies_iff (hreach : ReachableStore store) (op : Operation)
    (hprepare : store.prepareDurable now op = .ok (.write mutation expected))
    (hforeign : ¬ MeetsForeignReservation store op) (hfits : ¬ ExceedsAddressable op) :
    (∃ outcome, (store.apply mutation now).1 = .ok outcome ∧
      outcomeFor mutation outcome (isPersistExpiry mutation) = some expected) ↔
      ¬ EmptyReacquire store op now :=
  prepared_agrees_iff (fun key _ ↦ ReachableStore.sound hreach key)
    (intentsFiled_of_reachable hreach) hprepare hforeign hfits

/-- An increment of a fresh counter. -/
theorem prepared_increment_applies :
    let op := Operation.counterAdd [1] 5
    ObjectStore.new.prepareDurable 0 op =
        .ok (.write (.counterAdd [1] 5) (.counterUpdated 5 .first)) ∧
      ((∃ outcome, (ObjectStore.new.apply (.counterAdd [1] 5) 0).1 = .ok outcome ∧
        outcomeFor (.counterAdd [1] 5) outcome false = some (.counterUpdated 5 .first)) ↔
        ¬ EmptyReacquire .new op 0) :=
  ⟨by decide, prepared_write_applies_iff (Reachable.refl _) _ (by decide) id id⟩

/-- Zero units under a permit that already holds three: predicted as acquired, refused when
applied. -/
theorem empty_reacquire_diverges :
    let store := run StoreEvent.step .new
      [.apply (.semaphoreCreate [1] 5) 0, .apply (.semaphoreAcquire [1] (.zero _) 7 3) 1]
    let mutation := Mutation.semaphoreAcquire [1] (.zero _) 7 0
    ReachableStore store ∧
      store.prepareDurable 2 (.semaphoreAcquire [1] (.zero _) 7 0) =
        .ok (.write mutation .semaphoreAcquired) ∧
      (store.apply mutation 2).1 = .err .semaphoreExhausted :=
  ⟨⟨_, rfl⟩, by decide, by decide⟩

section Applied

variable {outcome : ApplyOutcome} {after : Option StoredObject}

/-! ### Writes that are applied -/

variable {stored : Option StoredObject}

theorem predictSetRange_mutation
    (h : store.predictSetRange key now offset patch = .ok (.write mutation expected)) :
    mutation = .spliceBytes key offset patch := by
  simp only [predictSetRange] at h
  split at h
  · obtain ⟨-, -, rfl, -⟩ := predictWrite_eq_write (Result.ok.inj h)
    rfl
  split at h
  · obtain ⟨-, -, rfl, -⟩ := predictWrite_eq_write (Result.ok.inj h)
    rfl
  all_goals cases h

/-- Where a prepared write of one key is applied, it is on the operation's key and is answered as
predicted. The predictions that fail are of writes whose application fails. -/
theorem prepared_applied_agrees {op : Operation}
    (hlocal : ∀ txn writes, op ≠ .txnCommitLocal txn writes) (hkey : op.key = some key)
    (hsound : EntrySound False store.objects[key]?)
    (hprepare : store.prepareDurable now op = .ok (.write mutation expected))
    (happly : (store.apply mutation now).1 = .ok outcome) :
    mutation.key = some key ∧ mutation.keys = [key] ∧
      outcomeFor mutation outcome op.isPersistExpiry = some expected := by
  rcases prepareDurable_cases store now op with
    ⟨txn, coordinator, write, digest, rfl⟩ | ⟨txn, own, commit, write, digest, rfl⟩ |
    ⟨txn, writes, rfl⟩ | hordinary
  · cases hkey
    simp only [prepareDurable] at hprepare
    split at hprepare
    swap
    · cases hprepare
    next reserve hreserve =>
    cases hprepare
    obtain ⟨rfl, howned, hexpect, hwritable⟩ := prepareTxnReserve_eq_ok hreserve
    have hdone : Result.ok outcome = .ok .txnPrepared :=
      happly.symm.trans
        (congrArg Prod.fst (applyTxnPrepare_of_ready howned hexpect hwritable))
    cases hdone
    exact ⟨rfl, rfl, rfl⟩
  · cases hkey
    have hpredict : store.predictFinalize key now txn commit write digest = _ :=
      Result.ok.inj hprepare
    obtain rfl : mutation = .txnFinalize txn key commit write digest := by
      simp only [predictFinalize] at hpredict
      split_ifs at hpredict
      · cases hpredict
        rfl
      · exact (predictFinalizeWrite_eq_write hpredict).1
    refine ⟨rfl, rfl, ?_⟩
    by_cases howned : OwnedBy txn digest store.intents[key]?
    · obtain ⟨outcome', happly', hagrees⟩ := predictFinalize_agrees howned hpredict
      rw [happly] at happly'
      cases happly'
      exact hagrees
    · change (store.applyTxnFinalize txn key commit write digest now).1 = _ at happly
      rw [applyTxnFinalize_of_foreign commit howned] at happly
      cases happly
  · exact absurd rfl (hlocal txn writes)
  · rw [hordinary] at hprepare
    obtain ⟨own, hown, hfree, hpredict⟩ := prepareOrdinary_eq_write hprepare
    cases hkey.symm.trans hown
    have hordinary : mutation.ordinaryKey = some key := by
      by_cases hfits : ExceedsAddressable op
      · cases op with
        | setRange own offset patch =>
          cases hkey
          obtain rfl := predictSetRange_mutation hpredict
          rfl
        | _ => exact hfits.elim
      · exact (predictOrdinary_predicted_iff hkey hsound hfits hpredict).1.1
    rw [apply_of_ordinary hordinary, applyOrdinary_of_free hordinary hfree] at happly
    split at happly
    next hstep =>
      cases happly
      have hfits : ¬ExceedsAddressable op := by
        cases op with
        | setRange own offset patch =>
          obtain rfl := predictSetRange_mutation hpredict
          cases entryStep_of_ok hstep with
          | written _ hwrites =>
            cases hwrites with
            | spliceBytes _ hspliced =>
              simp only [spliceInline] at hspliced
              split_ifs at hspliced with _ hfits
              exact hfits
        | _ => exact id
      obtain ⟨⟨-, hpersist⟩, hiff⟩ := predictOrdinary_predicted_iff hkey hsound hfits hpredict
      rw [← hpersist]
      refine ⟨Mutation.key_of_ordinaryKey hordinary, Mutation.keys_of_ordinaryKey hordinary, ?_⟩
      by_cases hempty : EmptyReacquire store op now
      · cases op with
        | semaphoreAcquire own permit owner qty =>
          obtain ⟨-, -, -, -, rfl, rfl, -⟩ := predictSemaphoreAcquire_cases (Result.ok.inj hpredict)
          cases entryStep_of_ok hstep with
          | written _ hwrites =>
            cases hwrites
            rfl
        | _ => exact hempty.elim
      · obtain ⟨outcome', after', hstep', hagrees⟩ := hiff.mpr hempty
        rw [hstep] at hstep'
        cases hstep'
        exact hagrees
    · cases happly
    · cases happly
end Applied

end ObjectStore

end Kivi.State
