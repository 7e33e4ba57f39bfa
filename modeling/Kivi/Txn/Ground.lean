import Kivi.Txn.Cluster

/-!
# What lasts through two-phase commit

The tablets and the answers they have given satisfy an invariant (`GroundSound`): whoever reserves
a decision record finds it absent, a commit record follows the successful prepare of every write,
a prepared write of a transaction that is not aborted is reserved or applied, and only committed
transactions have applied writes. Requests of processes are sound with respect to it
(`RequestSound`) and stay so, because decisions and answers are never taken back (`Extends`).
Delivering a sound request keeps the invariant (`GroundSound.deliver`), if a finalize meets no
other reservation than its own, finds its write ready, and does not overwrite another decision
(`FinalizesSafely`). So do the events of a tablet that are no steps of a transaction.
-/

namespace Kivi.Txn

open Library Library.Runs State
open ObjectStore

/-! ### What is known of a transaction -/

/-- The decision a record holds. -/
def decisionIn (tablets : Tablets) (coordinator : TabletId) (txn : TxnId) : Option TxnState :=
  storedState (storeOf tablets coordinator).objects[txnRecordKey coordinator txn]?

namespace Ground

variable (ground : Ground)

/-- The cell of a key on a tablet. -/
def cell (tablet : TabletId) (key : Key) : Cell :=
  (ground.store tablet).cell key

/-- The decision of a transaction, if any. -/
def decision (coordinator : TabletId) (txn : TxnId) : Option TxnState :=
  decisionIn ground.tablets coordinator txn

/-- A prepare of the write was answered with success. -/
def Prepared (plan : Plan) (txn : TxnId) (entry : TabletId × TxnWrite) : Prop :=
  ∃ sender, (⟨sender, (entry.1, plan.prepare txn entry.2)⟩, .ok .txnPrepared) ∈ ground.answers

/-- A commit of the write was answered as applied. -/
def Applied (plan : Plan) (txn : TxnId) (entry : TabletId × TxnWrite) : Prop :=
  ∃ sender answer, (⟨sender, (entry.1, plan.finalize txn true entry.2)⟩, answer) ∈ ground.answers ∧
    isApplied answer = true

/-- The transaction holds the key of the write. -/
def Reserved (plan : Plan) (txn : TxnId) (entry : TabletId × TxnWrite) : Prop :=
  ∃ held, (ground.cell entry.1 entry.2.key).intent = some held ∧ held.id = txn ∧
    held.digest = plan.digest

/-- Decisions and answers are never taken back. -/
structure Extends (before after : Ground) : Prop where
  decision : ∀ coordinator txn state, before.decision coordinator txn = some state →
    after.decision coordinator txn = some state
  answers : ∀ entry ∈ before.answers, entry ∈ after.answers

end Ground

section Soundness

variable (setting : Setting)

variable (ground : Ground)

/-- The record of an abort, or of a commit all of whose writes have been prepared. -/
def DecisionSound (coordinator : TabletId) (txn : TxnId) (record : TxnRecord) : Prop :=
  record.state = .aborted ∨ record.state = .committed ∧ ∃ plan, setting.plans txn = some plan ∧
    plan.coordinator = coordinator ∧ record.digest = plan.digest ∧
    ∀ entry ∈ plan.writes, ground.Prepared plan txn entry

/-- The requests that processes make. On keys of users, they are steps of a planned write, and
finalizes follow the decision; on records, they are steps of a decide transaction. -/
def RequestSound : Request → Prop
  | (tablet, .txnPrepare txn coordinator key expect kind digest) =>
    (∃ plan, setting.plans txn = some plan ∧ coordinator = plan.coordinator ∧
      digest = plan.digest ∧ (tablet, ⟨key, kind, expect⟩) ∈ plan.writes) ∨
    ∃ decided record, key = txnRecordKey tablet decided ∧ kind = .put record.encode ∧
      expect = .absent ∧ DecisionSound setting ground tablet decided record
  | (tablet, .txnFinalize txn key commit write digest) =>
    (∃ plan, setting.plans txn = some plan ∧ digest = plan.digest ∧ key = write.key ∧
      (tablet, write) ∈ plan.writes ∧ ground.decision plan.coordinator txn =
        some (if commit then .committed else .aborted)) ∨
    ∃ decided, key = txnRecordKey tablet decided ∧ (commit = true → ∃ own record expect,
      write = ⟨own, .put record.encode, expect⟩ ∧
        DecisionSound setting ground tablet decided record)
  | _ => False

/-- A reservation is what a sound prepare left on its key. -/
def IntentSound (tablet : TabletId) (intent : TxnIntent) : Prop :=
  intent.write.key = intent.key ∧ RequestSound setting ground (tablet, .txnPrepare intent.id
    intent.coordinator intent.key intent.write.expect intent.write.kind intent.digest)

/-- A record never expires, is a sound decision, and is absent while somebody reserves it. -/
structure RecordSound (coordinator : TabletId) (txn : TxnId) (cell : Cell) : Prop where
  entry : ∀ object, cell.entry = some object → object.expiry = .never ∧
    ∃ record, object.value = .bytes record.encode ∧
      DecisionSound setting ground coordinator txn record
  free : ∀ held, cell.intent = some held → cell.entry = none

/-- If the request commits a record, then the record's decision stands. -/
def Written (request : Request) : Prop :=
  ∀ tablet decided txn own bytes expect digest record, request = (tablet, .txnFinalize txn
    (txnRecordKey tablet decided) true ⟨own, .put bytes, expect⟩ digest) →
    recordOfBytes bytes = some record → ground.decision tablet decided = some record.state

/-- What holds of everything that lasts. -/
structure GroundSound : Prop where
  plain : setting.Plain
  intents : ∀ tablet key intent, (ground.cell tablet key).intent = some intent →
    intent.key = key ∧ IntentSound setting ground tablet intent
  records : ∀ coordinator txn, RecordSound setting ground coordinator txn
    (ground.cell coordinator (txnRecordKey coordinator txn))
  history : ∀ tablets ∈ ground.history, ∀ coordinator txn state,
    decisionIn tablets coordinator txn = some state → ground.decision coordinator txn = some state
  kept : ∀ txn plan, setting.plans txn = some plan →
    ground.decision plan.coordinator txn ≠ some .aborted →
      ∀ entry ∈ plan.writes, ground.Prepared plan txn entry →
        ground.Reserved plan txn entry ∨ ground.Applied plan txn entry
  applied : ∀ txn plan, setting.plans txn = some plan → ∀ entry ∈ plan.writes,
    ground.Applied plan txn entry → ground.decision plan.coordinator txn = some .committed
  written : ∀ answer ∈ ground.answers, isApplied answer.2 = true → Written ground answer.1.request

end Soundness

/-! ### Decisions and answers are never taken back -/

variable {plan : Plan} {txn : TxnId} {entry : TabletId × TxnWrite} {coordinator tablet : TabletId}
  {record : TxnRecord} {cell : Cell} {ground : Ground}

section Monotone

variable {setting : Setting} {before after : Ground}

section

variable (hext : before.Extends after)
include hext

theorem Ground.Prepared.mono (h : before.Prepared plan txn entry) : after.Prepared plan txn entry :=
  h.imp fun _ hmem ↦ hext.answers _ hmem

theorem DecisionSound.mono (h : DecisionSound setting before coordinator txn record) :
    DecisionSound setting after coordinator txn record := by
  refine h.imp_right ?_
  rintro ⟨hstate, plan, hplan, hcoordinator, hdigest, hall⟩
  exact ⟨hstate, plan, hplan, hcoordinator, hdigest,
    fun entry hmem ↦ (hall entry hmem).mono hext⟩

theorem RequestSound.mono {request : Request} (h : RequestSound setting before request) :
    RequestSound setting after request := by
  obtain ⟨tablet, mutation⟩ := request
  cases mutation with
  | txnPrepare txn coordinator key expect kind digest =>
    refine h.imp_right ?_
    rintro ⟨decided, record, hkey, hkind, hexpect, hdecision⟩
    exact ⟨decided, record, hkey, hkind, hexpect, hdecision.mono hext⟩
  | txnFinalize txn key commit write digest =>
    refine h.imp ?_ ?_
    · rintro ⟨plan, hplan, hdigest, hkey, hmem, hdecision⟩
      exact ⟨plan, hplan, hdigest, hkey, hmem, hext.decision _ _ _ hdecision⟩
    · rintro ⟨decided, hkey, hcommit⟩
      refine ⟨decided, hkey, fun htrue ↦ ?_⟩
      obtain ⟨own, record, expect, hwrite, hdecision⟩ := hcommit htrue
      exact ⟨own, record, expect, hwrite, hdecision.mono hext⟩
  | _ => exact h

theorem IntentSound.mono {intent : TxnIntent} (h : IntentSound setting before tablet intent) :
    IntentSound setting after tablet intent :=
  ⟨h.1, h.2.mono hext⟩

theorem RecordSound.mono (h : RecordSound setting before coordinator txn cell) :
    RecordSound setting after coordinator txn cell := by
  refine ⟨fun object hobject ↦ ?_, h.free⟩
  obtain ⟨hexpiry, record, hvalue, hdecision⟩ := h.entry object hobject
  exact ⟨hexpiry, record, hvalue, hdecision.mono hext⟩

end

/-- What the bytes under a record key decode to is a sound decision. -/
theorem RecordSound.storedRecord (h : RecordSound setting ground coordinator txn cell)
    (hrecord : storedRecord cell.entry = some record) :
    DecisionSound setting ground coordinator txn record := by
  cases hentry : cell.entry with
  | none =>
    rw [hentry] at hrecord
    cases hrecord
  | some object =>
    obtain ⟨-, written, hvalue, hdecision⟩ := h.entry object hentry
    obtain ⟨value, version, expiry⟩ := object
    obtain rfl : value = .bytes written.encode := hvalue
    rw [hentry] at hrecord
    change recordOfBytes written.encode = some record at hrecord
    unfold recordOfBytes at hrecord
    split at hrecord
    next found hfound =>
      rw [← Option.some.inj hrecord, TxnRecord.eq_of_decode_encode hfound]
      exact hdecision
    next => cases hrecord

end Monotone

/-! ### The frame of a step -/

section Frame

variable (setting : Setting)

/-- What a step may do to the ground, given that its facts are sound before: what is new is sound,
and what is given up was not needed. -/
structure Carries (before after : Ground) : Prop extends before.Extends after where
  history : ∀ tablets ∈ after.history, tablets ∈ before.history ∨ tablets = before.tablets
  intents : ∀ tablet key intent, (after.cell tablet key).intent = some intent →
    (before.cell tablet key).intent = some intent ∨
      intent.key = key ∧ IntentSound setting before tablet intent
  records : ∀ coordinator txn, let key := txnRecordKey coordinator txn
    after.cell coordinator key = before.cell coordinator key ∨
      RecordSound setting before coordinator txn (after.cell coordinator key)
  reserved : ∀ txn plan, setting.plans txn = some plan → ∀ entry ∈ plan.writes,
    before.Reserved plan txn entry → after.Reserved plan txn entry ∨
      after.Applied plan txn entry ∨ after.decision plan.coordinator txn = some .aborted
  prepared : ∀ txn plan entry, after.Prepared plan txn entry →
    before.Prepared plan txn entry ∨ after.Reserved plan txn entry
  applied : ∀ txn plan, setting.plans txn = some plan → ∀ entry ∈ plan.writes,
    after.Applied plan txn entry → before.Applied plan txn entry ∨
      before.decision plan.coordinator txn = some .committed
  written : ∀ answer ∈ after.answers, isApplied answer.2 = true →
    answer ∈ before.answers ∨ Written after answer.1.request

end Frame

variable {setting : Setting}

/-- A step within the frame keeps the invariant. -/
theorem GroundSound.carry {before after : Ground} (h : GroundSound setting before)
    (hstep : Carries setting before after) : GroundSound setting after where
  plain := h.plain
  intents tablet key intent hintent := by
    have hsound : intent.key = key ∧ IntentSound setting before tablet intent :=
      (hstep.intents tablet key intent hintent).elim (h.intents tablet key intent) id
    exact ⟨hsound.1, hsound.2.mono hstep.toExtends⟩
  records coordinator txn := by
    rcases hstep.records coordinator txn with hsame | hnew
    · rw [hsame]
      exact (h.records coordinator txn).mono hstep.toExtends
    · exact hnew.mono hstep.toExtends
  history tablets hmem coordinator txn state hstate := by
    apply hstep.decision
    rcases hstep.history tablets hmem with hold | rfl
    · exact h.history tablets hold coordinator txn state hstate
    · exact hstate
  kept txn plan hplan hdecision entry hmem hprepared := by
    rcases hstep.prepared txn plan entry hprepared with hold | hnew
    · have hbefore : before.decision plan.coordinator txn ≠ some .aborted :=
        fun haborted ↦ hdecision (hstep.decision _ _ _ haborted)
      rcases h.kept txn plan hplan hbefore entry hmem hold with hreserved | happlied
      · rcases hstep.reserved txn plan hplan entry hmem hreserved with h | h | h
        · exact Or.inl h
        · exact Or.inr h
        · exact absurd h hdecision
      · obtain ⟨sender, answer, hanswer, happlied⟩ := happlied
        exact Or.inr ⟨sender, answer, hstep.answers _ hanswer, happlied⟩
    · exact Or.inl hnew
  applied txn plan hplan entry hmem happlied := by
    apply hstep.decision
    rcases hstep.applied txn plan hplan entry hmem happlied with hold | hnew
    · exact h.applied txn plan hplan entry hmem hold
    · exact hnew
  written answer hmem happlied := by
    rcases hstep.written answer hmem happlied with hold | hnew
    · intro tablet decided txn own bytes expect digest record hrequest hrecord
      exact hstep.decision _ _ _ (h.written answer hold happlied tablet decided txn own bytes
        expect digest record hrequest hrecord)
    · exact hnew

/-! ### What a delivery changes -/

variable {key : Key}

namespace Ground

variable {ground : Ground} {sender : Sender} {tablet : TabletId} {mutation : Mutation}
  {now : WallTimestamp}

theorem cell_setStore (ground : Ground) (tablet other : TabletId) (store : ObjectStore)
    (key : Key) : (ground.setStore tablet store).cell other key =
      if other = tablet then store.cell key else ground.cell other key := by
  by_cases hother : other = tablet
  · subst hother
    simp [cell, Ground.store, setStore, storeOf]
  · have hcompare : compare tablet other ≠ .eq :=
      fun heq ↦ hother (Std.LawfulEqCmp.eq_of_compare heq).symm
    simp [cell, Ground.store, setStore, storeOf, Std.ExtTreeMap.getD_insert, hcompare, hother]

theorem cell_deliver_self (key : Key) :
    (ground.deliver ⟨sender, tablet, mutation⟩ now).cell tablet key =
      ((ground.store tablet).apply mutation now).2.cell key :=
  (ground.cell_setStore tablet tablet _ key).trans (if_pos rfl)

end Ground

variable {now : WallTimestamp}

/-- A delivery is within the frame if it is so on the one key of its mutation. -/
theorem carries_deliver {sender : Sender} {mutation : Mutation} (hkeys : mutation.keys = [key])
    (hdecision : ∀ decided state, key = txnRecordKey tablet decided →
      storedState (ground.cell tablet key).entry = some state →
      storedState (((ground.store tablet).apply mutation now).2.cell key).entry = some state)
    (hintent : ∀ intent, (((ground.store tablet).apply mutation now).2.cell key).intent =
      some intent → (ground.cell tablet key).intent = some intent ∨
        intent.key = key ∧ IntentSound setting ground tablet intent)
    (hrecord : ∀ decided, key = txnRecordKey tablet decided →
      RecordSound setting ground tablet decided
        (((ground.store tablet).apply mutation now).2.cell key))
    (hreserved : ∀ txn plan, setting.plans txn = some plan → ∀ write,
      (tablet, write) ∈ plan.writes → write.key = key →
        ground.Reserved plan txn (tablet, write) →
        let after := ground.deliver ⟨sender, tablet, mutation⟩ now
        after.Reserved plan txn (tablet, write) ∨ after.Applied plan txn (tablet, write) ∨
          ground.decision plan.coordinator txn = some .aborted)
    (hprepared : ∀ txn plan write, mutation = plan.prepare txn write →
      ((ground.store tablet).apply mutation now).1 = .ok .txnPrepared →
        (ground.deliver ⟨sender, tablet, mutation⟩ now).Reserved plan txn (tablet, write))
    (happlied : ∀ txn plan, setting.plans txn = some plan → ∀ write,
      (tablet, write) ∈ plan.writes → mutation = plan.finalize txn true write →
        ground.decision plan.coordinator txn = some .committed)
    (hwritten : isApplied ((ground.store tablet).apply mutation now).1 = true →
      Written (ground.deliver ⟨sender, tablet, mutation⟩ now) (tablet, mutation)) :
    Carries setting ground (ground.deliver ⟨sender, tablet, mutation⟩ now) := by
  have hself := @Ground.cell_deliver_self ground sender tablet mutation now key
  have hother {other : TabletId} {own : Key} (hne : ¬ (other = tablet ∧ own = key)) :
      (ground.deliver ⟨sender, tablet, mutation⟩ now).cell other own = ground.cell other own := by
    by_cases htablet : other = tablet
    · subst htablet
      rw [Ground.cell_deliver_self]
      refine (ground.store other).apply_cell_of_not_mem fun hown ↦ hne ⟨rfl, ?_⟩
      rw [hkeys] at hown
      exact List.mem_singleton.mp hown
    · exact (ground.cell_setStore tablet other _ own).trans (if_neg htablet)
  have hkeeps (coordinator : TabletId) (txn : TxnId) (state : TxnState)
      (hstate : ground.decision coordinator txn = some state) :
      (ground.deliver ⟨sender, tablet, mutation⟩ now).decision coordinator txn = some state := by
    change storedState (Ground.cell _ _ _).entry = _
    by_cases hown : coordinator = tablet ∧ txnRecordKey coordinator txn = key
    · obtain ⟨rfl, rfl⟩ := hown
      rw [hself]
      exact hdecision txn state rfl hstate
    · rw [hother hown]
      exact hstate
  refine ⟨⟨hkeeps, fun _ ↦ List.mem_append_left _⟩, fun tablets hmem ↦ ?_,
    fun other own intent hafter ↦ ?_, fun coordinator txn ↦ ?_,
    fun txn plan hplan entry hmem hbefore ↦ ?_,
    fun txn plan entry hafter ↦ ?_, fun txn plan hplan entry hmem hafter ↦ ?_,
    fun answer hmem hisApplied ↦ ?_⟩
  · exact (List.mem_append.mp hmem).imp_right List.mem_singleton.mp
  · by_cases hown : other = tablet ∧ own = key
    · obtain ⟨rfl, rfl⟩ := hown
      exact hintent intent (hself ▸ hafter)
    · exact Or.inl (hother hown ▸ hafter)
  · by_cases hown : coordinator = tablet ∧ txnRecordKey coordinator txn = key
    · obtain ⟨rfl, rfl⟩ := hown
      exact Or.inr (hself ▸ hrecord txn rfl)
    · exact Or.inl (hother hown)
  · obtain ⟨other, write⟩ := entry
    by_cases hown : other = tablet ∧ write.key = key
    · obtain ⟨rfl, hkey⟩ := hown
      exact (hreserved txn plan hplan write hmem hkey hbefore).imp_right
        (Or.imp_right (hkeeps _ _ _))
    · left
      unfold Ground.Reserved at hbefore ⊢
      rwa [hother hown]
  · obtain ⟨other, write⟩ := entry
    obtain ⟨by', hsent⟩ := hafter
    refine (List.mem_append.mp hsent).imp (⟨by', ·⟩) fun hnew ↦ ?_
    obtain ⟨hmessage, hanswer⟩ := Prod.mk.inj (List.mem_singleton.mp hnew)
    obtain ⟨rfl, hmutation⟩ := Prod.mk.inj (Message.mk.inj hmessage).2
    exact hprepared txn plan write hmutation.symm hanswer.symm
  · obtain ⟨other, write⟩ := entry
    obtain ⟨by', answer, hsent, hgood⟩ := hafter
    refine (List.mem_append.mp hsent).imp (⟨by', answer, ·, hgood⟩) fun hnew ↦ ?_
    obtain ⟨rfl, hmutation⟩ := Prod.mk.inj
      (Message.mk.inj (Prod.mk.inj (List.mem_singleton.mp hnew)).1).2
    exact happlied txn plan hplan write hmem hmutation.symm
  · refine (List.mem_append.mp hmem).imp_right fun hnew ↦ ?_
    obtain rfl := List.mem_singleton.mp hnew
    exact hwritten hisApplied

/-! ### Prepares -/

theorem Plan.Plain.key_ne_record (h : plan.Plain) (hmem : entry ∈ plan.writes)
    (coordinator : TabletId) (txn : TxnId) : entry.2.key ≠ txnRecordKey coordinator txn := by
  intro hkey
  have huser := h.keys_user entry hmem
  rw [hkey, parse_txnRecordKey] at huser
  cases huser

variable {write : TxnWrite}

/-- The guard of a decide transaction passes on an absent record only. -/
theorem RecordSound.entry_eq_none (h : RecordSound setting ground coordinator txn cell)
    (hexpect : checkTxnExpectation .absent (liveObject cell.entry now) = .ok ()) :
    cell.entry = none := by
  cases hentry : cell.entry with
  | none => rfl
  | some object =>
    rw [hentry, liveObject_of_lasting (h.entry object hentry).1] at hexpect
    cases hexpect

/-- A prepare is refused, or its guard held and its key is reserved. -/
theorem apply_prepare_cell (store : ObjectStore) (txn : TxnId) (coordinator : TabletId) (key : Key)
    (expect : TxnExpect) (kind : TxnWriteKind) (digest : Digest) (now : WallTimestamp) :
    let result := store.apply (.txnPrepare txn coordinator key expect kind digest) now
    result.1 ≠ .ok .txnPrepared ∧ result.2.cell key = store.cell key ∨
      checkTxnExpectation expect (liveObject (store.cell key).entry now) = .ok () ∧
        ∃ observed, result.2.cell key = ⟨(store.cell key).entry,
          some ⟨txn, coordinator, key, ⟨key, kind, expect⟩, digest, observed, now⟩⟩ := by
  have happly : store.apply (.txnPrepare txn coordinator key expect kind digest) now =
      store.applyTxnPrepare txn coordinator ⟨key, kind, expect⟩ digest now := rfl
  rw [happly]
  rcases applyTxnPrepare_cases store now txn coordinator ⟨key, kind, expect⟩ digest
    with ⟨answer, hanswer, -, heq⟩ | ⟨-, hexpect, -, heq⟩
  · rw [heq]
    exact Or.inl ⟨hanswer, rfl⟩
  · rw [heq]
    refine Or.inr ⟨hexpect, (store.get key now).map StoredObject.version, ?_⟩
    simp [ObjectStore.cell, getElem?_insertIntent]

/-- A commit of a put writes its bytes, or only gives the reservation up. -/
theorem apply_commit_put_cell {store : ObjectStore} {digest : Digest} (own : Key)
    (bytes : Bytes) (expect : TxnExpect) (now : WallTimestamp)
    (howned : OwnedBy txn digest store.intents[key]?) :
    let result := store.apply (.txnFinalize txn key true ⟨own, .put bytes, expect⟩ digest) now
    (∃ version, result.2.cell key = ⟨some ⟨.bytes bytes, version, .never⟩, none⟩) ∨
      isApplied result.1 = false ∧ result.2.cell key = ⟨(store.cell key).entry, none⟩ := by
  have happly : store.apply (.txnFinalize txn key true ⟨own, .put bytes, expect⟩ digest) now =
      store.applyTxnFinalize txn key true ⟨own, .put bytes, expect⟩ digest now := rfl
  rw [happly]
  rcases applyTxnFinalize_commit_cases ⟨own, .put bytes, expect⟩ now howned
    with ⟨-, outcome, entry, hstep, heq⟩ | ⟨-, error, heq⟩
  · obtain ⟨version, -, -, rfl⟩ := replaceEntry_eq_ok_iff.mp hstep
    rw [heq]
    exact Or.inl ⟨version, finalized_cell_self ..⟩
  · rw [heq]
    refine Or.inr ⟨rfl, ?_⟩
    simp [ObjectStore.cell, getElem?_eraseIntent]

section Deliveries

variable {ground : Ground} {sender : Sender} {tablet : TabletId} {txn : TxnId} {key : Key}
  {digest : Digest} {now : WallTimestamp}

/-- A prepare that arrives gives up no reservation, and what it reserves is sound. -/
theorem carries_prepare {expect : TxnExpect} {kind : TxnWriteKind}
    (h : GroundSound setting ground)
    (hrequest : RequestSound setting ground
      (tablet, .txnPrepare txn coordinator key expect kind digest)) :
    Carries setting ground (ground.deliver
      ⟨sender, tablet, .txnPrepare txn coordinator key expect kind digest⟩ now) := by
  have hcell := apply_prepare_cell (ground.store tablet) txn coordinator key expect kind digest now
  refine carries_deliver rfl (fun decided state _ hstate ↦ ?_) (fun intent hintent ↦ ?_)
    (fun decided hkey ↦ ?_) (fun other plan _ write _ hkey hreserved ↦ Or.inl ?_)
    (fun other plan write hmutation hanswer ↦ ?_) (fun _ _ _ _ _ hmutation ↦ by cases hmutation)
    (fun _ _ _ _ _ _ _ _ _ hfinalize ↦ by cases hfinalize)
  · rcases hcell with ⟨-, hsame⟩ | ⟨-, observed, hnew⟩
    · rwa [hsame]
    · rwa [hnew]
  · rcases hcell with ⟨-, hsame⟩ | ⟨-, observed, hnew⟩
    · rw [hsame] at hintent
      exact Or.inl hintent
    · rw [hnew] at hintent
      cases hintent
      exact Or.inr ⟨rfl, rfl, hrequest⟩
  · subst hkey
    rcases hcell with ⟨-, hsame⟩ | ⟨hexpect, observed, hnew⟩
    · rw [hsame]
      exact h.records tablet decided
    · rcases hrequest with ⟨plan, hplan, -, -, hmem⟩ | ⟨_, _, -, -, rfl, -⟩
      · exact absurd rfl ((h.plain _ _ hplan).key_ne_record hmem tablet decided)
      · have habsent := (h.records tablet decided).entry_eq_none hexpect
        rw [hnew]
        exact ⟨fun object hobject ↦ absurd (habsent.symm.trans hobject) (by simp),
          fun _ _ ↦ habsent⟩
  · obtain ⟨held, hheld, hid, hdigest⟩ := hreserved
    obtain rfl : write.key = key := hkey
    obtain ⟨-, held', hheld', hid', hdigest'⟩ := ((ground.store tablet).apply_cell
      (.txnPrepare txn coordinator write.key expect kind digest) now write.key).keepsReserved rfl
      held hheld
    refine ⟨held', ?_, hid'.trans hid, hdigest'.trans hdigest⟩
    rw [Ground.cell_deliver_self]
    exact hheld'
  · rcases hcell with ⟨hrefused, -⟩ | ⟨-, observed, hnew⟩
    · exact absurd hanswer hrefused
    · obtain ⟨rfl, -, rfl, -, -, rfl⟩ := Mutation.txnPrepare.inj hmutation
      exact ⟨_, congrArg Cell.intent ((Ground.cell_deliver_self _).trans hnew), rfl, rfl⟩

/-! ### Finalizes -/

/-- An abort whose reservation, if any, is its own. -/
theorem carries_abort (h : GroundSound setting ground)
    (hrequest : RequestSound setting ground (tablet, .txnFinalize txn key false write digest))
    (howned : OwnedBy txn digest (ground.cell tablet key).intent) :
    Carries setting ground
      (ground.deliver ⟨sender, tablet, .txnFinalize txn key false write digest⟩ now) := by
  have happly : (ground.store tablet).apply (.txnFinalize txn key false write digest) now =
      (.ok (.txnFinalized false none), (ground.store tablet).eraseIntent key) :=
    applyTxnFinalize_of_abort howned
  have hcell : ((ground.store tablet).eraseIntent key).cell key =
      ⟨(ground.cell tablet key).entry, none⟩ := by
    simp [Ground.cell, ObjectStore.cell, getElem?_eraseIntent]
  refine carries_deliver rfl (fun decided state _ hstate ↦ ?_) (fun intent hintent ↦ ?_)
    (fun decided hkey ↦ ?_) (fun other plan hplan entry hmem hkey hreserved ↦ ?_)
    (fun _ _ _ hmutation ↦ by cases hmutation) (fun _ _ _ _ _ hmutation ↦ by cases hmutation)
    (fun happlied ↦ ?_)
  · rwa [happly, hcell]
  · rw [happly, hcell] at hintent
    cases hintent
  · subst hkey
    rw [happly, hcell]
    exact ⟨(h.records tablet decided).entry, by simp⟩
  · obtain ⟨held, hheld, hid, -⟩ := hreserved
    obtain rfl : entry.key = key := hkey
    obtain rfl : txn = other := (howned held hheld).1.symm.trans hid
    rcases hrequest with ⟨plan', hplan', -, -, -, hdecision⟩ | ⟨decided, hrecord, -⟩
    · obtain rfl : plan' = plan := Option.some.inj (hplan'.symm.trans hplan)
      exact Or.inr (Or.inr hdecision)
    · exact absurd hrecord ((h.plain _ _ hplan).key_ne_record hmem tablet decided)
  · rw [happly] at happlied
    cases happlied

/-- A commit of a planned write, whose reservation is its own and whose write is ready if it is
reserved. -/
theorem carries_commit (hplain : setting.Plain) (hplan : setting.plans txn = some plan)
    (hmem : (tablet, write) ∈ plan.writes)
    (hdecision : ground.decision plan.coordinator txn = some .committed)
    (howned : OwnedBy txn plan.digest (ground.cell tablet write.key).intent)
    (hready : (ground.cell tablet write.key).intent.isSome →
      WriteReady write.kind (ground.cell tablet write.key).entry now) :
    Carries setting ground
      (ground.deliver ⟨sender, tablet, plan.finalize txn true write⟩ now) := by
  have hcases := applyTxnFinalize_commit_cases write now howned
  have hne := (hplain _ _ hplan).key_ne_record hmem
  have hfree : (((ground.store tablet).apply (plan.finalize txn true write) now).2.cell
      write.key).intent = none := by
    change (ObjectStore.cell (applyTxnFinalize ..).2 _).intent = none
    rcases hcases with ⟨-, outcome, entry, -, heq⟩ | ⟨-, error, heq⟩
    · rw [heq, finalized_cell_self]
    · simp [heq, ObjectStore.cell, getElem?_eraseIntent]
  refine carries_deliver rfl (fun decided _ hkey ↦ ?_) (fun intent hintent ↦ ?_)
    (fun decided hkey ↦ ?_) (fun other plan' hplan' entry hmem' hkey hreserved ↦ ?_)
    (fun _ _ _ hmutation ↦ by cases hmutation) (fun other plan' hplan' entry _ hmutation ↦ ?_)
    (fun _ other decided _ _ _ _ _ _ hrequest ↦ ?_)
  · exact absurd hkey (hne tablet decided)
  · rw [hfree] at hintent
    cases hintent
  · exact absurd hkey (hne tablet decided)
  · obtain ⟨held, hheld, hid, -⟩ := hreserved
    rw [hkey] at hheld
    obtain rfl : txn = other := (howned held hheld).1.symm.trans hid
    obtain rfl : plan = plan' := Option.some.inj (hplan.symm.trans hplan')
    obtain rfl : entry = write := (Prod.mk.inj (List.inj_on_of_nodup_map
      (hplain _ _ hplan).keys_nodup hmem' hmem (Prod.mk.injEq .. ▸ ⟨rfl, hkey⟩))).2
    rcases hcases with ⟨-, outcome, after, -, heq⟩ | ⟨hunready, -⟩
    · refine Or.inr (Or.inl ⟨sender, _, List.mem_append_right _ (List.mem_singleton_self _), ?_⟩)
      change isApplied (applyTxnFinalize ..).1 = true
      rw [heq]
      rfl
    · exact absurd (hready (hheld ▸ rfl)) hunready
  · obtain ⟨rfl, -⟩ := Mutation.txnFinalize.inj hmutation
    obtain rfl : plan = plan' := Option.some.inj (hplan.symm.trans hplan')
    exact hdecision
  · obtain ⟨-, hkey, -⟩ := Mutation.txnFinalize.inj (Prod.mk.inj hrequest).2
    exact absurd hkey (hne other decided)

/-- A commit of a record that finds its own reservation, or a record of its own decision. -/
theorem carries_commit_record {decided : TxnId} {own : Key} {expect : TxnExpect}
    (h : GroundSound setting ground)
    (hdecision : DecisionSound setting ground tablet decided record)
    (howned : OwnedBy txn digest (ground.cell tablet (txnRecordKey tablet decided)).intent)
    (hfinds : (ground.cell tablet (txnRecordKey tablet decided)).intent.isSome ∨
      storedState (ground.cell tablet (txnRecordKey tablet decided)).entry =
        (recordOfBytes record.encode).map TxnRecord.state) :
    Carries setting ground (ground.deliver ⟨sender, tablet, .txnFinalize txn
      (txnRecordKey tablet decided) true ⟨own, .put record.encode, expect⟩ digest⟩ now) := by
  have hrecord := h.records tablet decided
  have hcases := apply_commit_put_cell own record.encode expect now howned
  refine carries_deliver rfl (fun _ state _ hstate ↦ ?_) (fun intent hintent ↦ ?_)
    (fun other hkey ↦ ?_) (fun _ _ hplan entry hmem hkey ↦ ?_)
    (fun _ _ _ hmutation ↦ nomatch hmutation) (fun _ _ hplan entry hmem hmutation ↦ ?_)
    (fun happlied other decided' _ _ bytes _ _ found hrequest hfound ↦ ?_)
  · rcases hcases with ⟨version, hnew⟩ | ⟨-, hsame⟩
    · rw [hnew]
      rcases hfinds with hreserved | hsame
      · obtain ⟨held, hheld⟩ := Option.isSome_iff_exists.mp hreserved
        rw [hrecord.free held hheld] at hstate
        cases hstate
      · exact hsame.symm.trans hstate
    · rwa [hsame]
  · rcases hcases with ⟨version, hnew⟩ | ⟨-, hsame⟩
    · rw [hnew] at hintent
      cases hintent
    · rw [hsame] at hintent
      cases hintent
  · obtain rfl := (txnRecordKey_inj hkey).2
    rcases hcases with ⟨version, hnew⟩ | ⟨-, hsame⟩
    · rw [hnew]
      refine ⟨fun object hobject ↦ ?_, nofun⟩
      cases hobject
      exact ⟨rfl, record, rfl, hdecision⟩
    · rw [hsame]
      exact ⟨hrecord.entry, nofun⟩
  · exact absurd hkey ((h.plain _ _ hplan).key_ne_record hmem tablet decided)
  · obtain ⟨-, hkey, -⟩ := Mutation.txnFinalize.inj hmutation
    exact absurd hkey.symm ((h.plain _ _ hplan).key_ne_record hmem tablet decided)
  · obtain ⟨rfl, hmutation⟩ := Prod.mk.inj hrequest
    obtain ⟨-, hkey, -, hwrite, -⟩ := Mutation.txnFinalize.inj hmutation
    obtain rfl := (txnRecordKey_inj hkey).2
    obtain rfl : record.encode = bytes := TxnWriteKind.put.inj (TxnWrite.mk.inj hwrite).2.1
    rcases hcases with ⟨version, hnew⟩ | ⟨hrefused, -⟩
    · change storedState (Ground.cell _ _ _).entry = _
      rw [Ground.cell_deliver_self, hnew]
      exact congrArg (Option.map TxnRecord.state) hfound
    · rw [hrefused] at happlied
      cases happlied

end Deliveries

/-! ### Safe deliveries -/

/-- The decision that a write of a record makes. -/
def decisionOf : TxnWriteKind → Option TxnState
  | .put bytes => (recordOfBytes bytes).map TxnRecord.state
  | _ => none

/-- A finalize meets no reservation but its own. If it commits, then its write is ready where it
meets its reservation; and on a decision record it meets its reservation, or a record of the
decision that it writes. -/
def FinalizesSafely (ground : Ground) (request : Request) (now : WallTimestamp) : Prop :=
  match request with
  | (tablet, .txnFinalize txn key commit write digest) =>
    OwnedBy txn digest (ground.cell tablet key).intent ∧ (commit = true →
      ((ground.cell tablet key).intent.isSome →
        WriteReady write.kind (ground.cell tablet key).entry now) ∧
      ((parseTxnRecordKey key).isSome → (ground.cell tablet key).intent.isSome ∨
        storedState (ground.cell tablet key).entry = decisionOf write.kind))
  | _ => True

instance (ground : Ground) (request : Request) (now : WallTimestamp) :
    Decidable (FinalizesSafely ground request now) := by
  unfold FinalizesSafely
  split <;> infer_instance

/-- Delivering a sound request keeps the invariant. -/
theorem GroundSound.deliver {message : Message} (h : GroundSound setting ground)
    (hrequest : RequestSound setting ground message.request)
    (hsafe : FinalizesSafely ground message.request now) :
    Carries setting ground (ground.deliver message now) := by
  obtain ⟨sender, tablet, mutation⟩ := message
  cases mutation with
  | txnPrepare txn coordinator key expect kind digest => exact carries_prepare h hrequest
  | txnFinalize txn key commit write digest =>
    obtain ⟨howned, hcommit⟩ := hsafe
    cases commit with
    | false => exact carries_abort h hrequest howned
    | true =>
      obtain ⟨hready, hfinds⟩ := hcommit rfl
      rcases hrequest with ⟨plan, hplan, rfl, rfl, hmem, hdecision⟩ | ⟨decided, rfl, hwrite⟩
      · exact carries_commit h.plain hplan hmem hdecision howned hready
      · obtain ⟨own, record, expect, rfl, hdecision⟩ := hwrite rfl
        refine carries_commit_record h hdecision howned (hfinds ?_)
        rw [parse_txnRecordKey]
        rfl
  | _ => exact hrequest.elim

/-! ### Events of a tablet -/

variable {event : StoreEvent}

theorem avoids_of_isOrdinary (hordinary : isOrdinary event = true) (coordinator : TabletId)
    (txn : TxnId) :
    event.avoids (txnRecordKey coordinator txn) = true := by
  have hparse := parse_txnRecordKey coordinator txn
  have hkey {other : Key} (hother : (parseTxnRecordKey other).isNone) :
      txnRecordKey coordinator txn ≠ other := by
    rintro rfl
    rw [hparse] at hother
    cases hother
  cases event with
  | apply mutation now =>
    have hall : mutation.keys.all (fun key ↦ (parseTxnRecordKey key).isNone) = true := by
      cases mutation <;> first | exact hordinary | cases hordinary
    exact List.all_eq_true.mpr fun other hmem ↦
      decide_eq_true (hkey (List.all_eq_true.mp hall other hmem))
  | sweepExpired now limit skip => rfl
  | transferEscrow donor recipient amount now =>
    obtain ⟨hdonor, hrecipient⟩ := Bool.and_eq_true_iff.mp hordinary
    exact decide_eq_true ⟨hkey hdonor, hkey hrecipient⟩
  | setOrderedIndexing enabled => rfl

/-- Only steps of transactions change reservations. -/
theorem step_intent_of_isOrdinary (hordinary : isOrdinary event = true) (store : ObjectStore)
    (key : Key) :
    ((event.step store).cell key).intent = (store.cell key).intent := by
  obtain ⟨enabled, rfl⟩ | ⟨steps, hsteps, hrun⟩ := event.step_eq_run store
  · cases enabled <;> rfl
  rw [hrun]
  refine (run_relation (R := fun first second ↦ (first.cell key).intent = (second.cell key).intent)
    (fun _ ↦ rfl) .trans (fun current step hstep ↦ ?_) (along_of_forall store hsteps)).symm
  have hcell := current.apply_cell step.1 step.2 key
  change _ = ((current.apply step.1 step.2).2.cell key).intent
  generalize current.cell key = before, (current.apply step.1 step.2).2.cell key = after
    at hcell ⊢
  cases hstep with
  | apply =>
    cases hcell with
    | same | ordinary | localCommit => rfl
    | prepare | drop | finalize => cases hordinary
  | sweep | move =>
    cases hcell with
    | same | ordinary => rfl

/-- An event that is no step of a transaction changes nothing the invariant speaks of. -/
theorem carries_ordinary (h : GroundSound setting ground) (hordinary : isOrdinary event = true) :
    Carries setting ground (ground.setStore tablet (event.step (ground.store tablet))) := by
  set after := ground.setStore tablet (event.step (ground.store tablet)) with hafter
  have hintent (other : TabletId) (key : Key) :
      (after.cell other key).intent = (ground.cell other key).intent := by
    rw [hafter, Ground.cell_setStore]
    split_ifs with hother
    · rw [step_intent_of_isOrdinary hordinary, hother]
      rfl
    · rfl
  have hrecord (coordinator : TabletId) (txn : TxnId) :
      after.cell coordinator (txnRecordKey coordinator txn) =
        ground.cell coordinator (txnRecordKey coordinator txn) := by
    rw [hafter, Ground.cell_setStore]
    split_ifs with hother
    · subst hother
      exact StoreEvent.step_cell_of_avoids
        (fun object hobject ↦ ((h.records coordinator txn).entry object hobject).1)
        (avoids_of_isOrdinary hordinary coordinator txn)
    · rfl
  refine ⟨⟨fun coordinator txn state hstate ↦ ?_, fun _ hmem ↦ hmem⟩, fun tablets hmem ↦ ?_,
    fun other key intent hheld ↦ Or.inl (hintent other key ▸ hheld),
    fun coordinator txn ↦ Or.inl (hrecord coordinator txn),
    fun txn plan _ entry _ hreserved ↦ Or.inl ?_, fun _ _ _ hprepared ↦ Or.inl hprepared,
    fun _ _ _ _ _ happlied ↦ Or.inl happlied, fun _ hmem _ ↦ Or.inl hmem⟩
  · change storedState (Ground.cell _ _ _).entry = _
    rw [hrecord]
    exact hstate
  · exact (List.mem_append.mp hmem).imp_right List.mem_singleton.mp
  · unfold Ground.Reserved
    rw [hintent]
    exact hreserved

end Kivi.Txn
