import Kivi.Engine.LiveTablet
import Kivi.State.Prediction

/-!
# Preparing a batch over a committed store

A commit batch prepares its requests one after the other while the store they will be applied to
stays as it is. The overlay keeps, for each key the batch has written, the object and the
reservation the key will have once the batch is applied. Each request is prepared on a scratch
store that holds its own keys only.

`Tracks` relates an overlay to the store that the writes prepared so far lead to. Every
preparation keeps it (`Tracks.step`), because an apply reads and writes the keys of its mutation
only and a prepared write that the scratch store accepts is answered as predicted.
-/

namespace Kivi.Engine

open Library Library.Runs State
open Consensus (CommitPosition MutationIdentity)
open Std (ExtTreeMap ExtTreeSet)

/-- What a batch has staged over the committed store: nothing for an untouched key, and for a
touched one its object and its reservation after the batch, either of which may be absent. -/
structure TabletOverlay where
  pending : ExtTreeMap Key (Option StoredObject)
  intents : ExtTreeMap Key (Option TxnIntent)

namespace TabletOverlay

/-- The overlay of a batch that has prepared nothing. -/
def empty : TabletOverlay := ⟨∅, ∅⟩

variable (overlay : TabletOverlay) (committed : ObjectStore)

/-- The live object the batch sees under a key. -/
def effectiveObject (key : Key) (now : WallTimestamp) : Option StoredObject :=
  match overlay.pending[key]? with
  | some (some object) => if object.isExpired now then none else some object
  | some none => none
  | none => committed.get key now

/-- Copy the current view of one key into a scratch store: what the batch has staged, otherwise
what is committed. -/
def stageKey (committed scratch : ObjectStore) (key : Key) : ObjectStore :=
  let scratch := match overlay.pending[key]? with
    | some (some object) => scratch.putStored key object
    | some none => scratch
    | none =>
      match committed.objects[key]? with
      | some object => scratch.putStored key object
      | none => scratch
  match overlay.intents[key]? with
  | some (some intent) => scratch.insertIntent intent
  | some none => scratch
  | none =>
    match committed.intents[key]? with
    | some intent => scratch.insertIntent intent
    | none => scratch

/-- Stage the object and the reservation a scratch store holds under `source` as those of
`key`. -/
def record (scratch : ObjectStore) (key source : Key) : TabletOverlay :=
  ⟨overlay.pending.insert key scratch.objects[source]?,
    overlay.intents.insert key scratch.intents[source]?⟩

/-- Prepare an operation on one key. A write is staged through the apply it will have; if that
fails the request fails and nothing is staged. -/
def prepare (op : Operation) (now : WallTimestamp) :
    Result TabletError StorePrepared × TabletOverlay :=
  match op.key with
  | none => (.panic, overlay)
  | some key =>
    let scratch := overlay.stageKey committed .new key
    match scratch.prepareDurable now op with
    | .panic => (.panic, overlay)
    | .err error => (.err (.op error), overlay)
    | .ok (.write mutation expected) =>
      match scratch.apply mutation now, mutation.key with
      | (.ok _, after), some written =>
        (.ok (.write mutation expected), overlay.record after key written)
      | (.err error, _), _ => (.err (.apply error), overlay)
      | _, _ => (.panic, overlay)
    | .ok prepared => (.ok prepared, overlay)

/-- Prepare a local commit on all keys of its write set, and stage all of them. -/
def prepareLocalCommit (txn : TxnId) (writes : List TxnWrite) (now : WallTimestamp) :
    Result TabletError StorePrepared × TabletOverlay :=
  if writes.isEmpty then (.err (.op .txnConflict), overlay)
  else
    let touched := (ExtTreeSet.ofList (writes.map TxnWrite.key)).toList
    match (touched.foldl (overlay.stageKey committed) .new).commitLocal writes now with
    | (.ok _, scratch) =>
      (.ok (.write (.txnCommitLocal txn writes)
          (.txnLocalCommitted (scratch.localVersions writes now))),
        touched.foldl (fun overlay key ↦ overlay.record scratch key key) overlay)
    | (.err (.validation error), _) => (.err (.op error), overlay)
    | (.err .exhausted, _) => (.err (.apply .versionExhausted), overlay)
    | (.err (.diverged error), _) => (.err (.apply error), overlay)
    | (.panic, _) => (.panic, overlay)

/-- Prepare a request of the batch. -/
def prepareEntry (op : Operation) (now : WallTimestamp) :
    Result TabletError StorePrepared × TabletOverlay :=
  match op with
  | .txnCommitLocal txn writes => overlay.prepareLocalCommit committed txn writes now
  | op => overlay.prepare committed op now

end TabletOverlay

/-! ### Batches -/

/-- A write of the batch: what is persisted for it, and checked when it is applied. -/
structure PreparedWrite where
  mutation : Mutation
  expected : OperationResult
  isPersistExpiry : Bool
  now : WallTimestamp
deriving DecidableEq

/-- The store after a prepared write is applied. -/
def commitStep (store : ObjectStore) (write : PreparedWrite) : ObjectStore :=
  (store.apply write.mutation write.now).2

/-- The write is applied with the answer that was predicted for it. -/
def Agrees (store : ObjectStore) (write : PreparedWrite) : Prop :=
  ∃ outcome, (store.apply write.mutation write.now).1 = .ok outcome ∧
    outcomeFor write.mutation outcome write.isPersistExpiry = some write.expected

/-- A batch in preparation: the store it will be applied to, and what it has staged. -/
structure Staging where
  committed : ObjectStore
  overlay : TabletOverlay

/-- What can happen while a batch is prepared: a request joins it, or an expiry sweep runs that
passes over the keys the batch has staged. -/
inductive StagingEvent where
  | request (op : Operation) (now : WallTimestamp)
  | sweep (now : WallTimestamp) (limit : Nat) (others : List Key)

namespace Staging

/-- The keys a sweep must not touch: those the batch has staged, beside others in use. -/
def touchedKeys (staging : Staging) (others : List Key) : ExtTreeSet Key :=
  .ofList (staging.overlay.pending.keys ++ others)

def step (staging : Staging) : StagingEvent → Staging
  | .request op now =>
    { staging with overlay := (staging.overlay.prepareEntry staging.committed op now).2 }
  | .sweep now limit others =>
    { staging with
      committed := (staging.committed.sweepExpired now limit (staging.touchedKeys others)).2 }

/-- The write a request adds to the batch, if it is prepared as one. -/
def prepared (staging : Staging) : StagingEvent → Option PreparedWrite
  | .request op now =>
    match (staging.overlay.prepareEntry staging.committed op now).1 with
    | .ok (.write mutation expected) => some ⟨mutation, expected, op.isPersistExpiry, now⟩
    | _ => none
  | .sweep _ _ _ => none

end Staging

/-! ### What the batch sees -/

namespace TabletOverlay

variable {overlay : TabletOverlay} {committed scratch : ObjectStore} {key other : Key}

/-- The object and the reservation the batch sees under a key. -/
def view (overlay : TabletOverlay) (committed : ObjectStore) (key : Key) : Cell :=
  ⟨(overlay.pending[key]?).getD committed.objects[key]?,
    (overlay.intents[key]?).getD committed.intents[key]?⟩

/-- Staging a key copies what the batch sees there. -/
theorem stageKey_eq {store : ObjectStore} (h : overlay.view committed key = store.cell key) :
    overlay.stageKey committed scratch key = store.stageKey scratch key := by
  obtain ⟨hentry, hintent⟩ := Cell.mk.inj h
  unfold stageKey ObjectStore.stageKey
  rw [← hentry, ← hintent]
  rcases overlay.pending[key]? with _ | _ | _ <;> rcases overlay.intents[key]? with _ | _ | _ <;>
    rfl

/-- Stage several keys of a scratch store. -/
abbrev recordAll (overlay : TabletOverlay) (scratch : ObjectStore) (keys : List Key) :
    TabletOverlay :=
  keys.foldl (fun overlay key ↦ overlay.record scratch key key) overlay

theorem view_recordAll (keys : List Key) :
    (overlay.recordAll scratch keys).view committed other =
      if other ∈ keys then scratch.cell other else overlay.view committed other := by
  induction keys generalizing overlay with
  | nil => simp
  | cons key rest ih =>
    rw [recordAll, List.foldl_cons, ih]
    simp only [view, record, ExtTreeMap.getElem?_insert, Std.compare_eq_iff_eq]
    by_cases hsame : key = other
    · simp [hsame, ObjectStore.cell]
    · simp [hsame, Ne.symm hsame]

theorem mem_recordAll (keys : List Key) :
    (other ∈ (overlay.recordAll scratch keys).pending ↔ other ∈ keys ∨ other ∈ overlay.pending) ∧
      (other ∈ (overlay.recordAll scratch keys).intents ↔
        other ∈ keys ∨ other ∈ overlay.intents) := by
  induction keys generalizing overlay with
  | nil => simp
  | cons key rest ih =>
    obtain ⟨hpending, hintents⟩ := @ih (overlay.record scratch key key)
    rw [recordAll, List.foldl_cons, hpending, hintents]
    simp only [record, ExtTreeMap.mem_insert, Std.compare_eq_iff_eq, List.mem_cons,
      @eq_comm _ key other]
    exact ⟨by rw [or_left_comm, or_assoc], by rw [or_left_comm, or_assoc]⟩

/-- The answer is not a write. -/
def NoWrite (answer : Result TabletError StorePrepared) : Prop :=
  ∀ mutation expected, answer ≠ .ok (.write mutation expected)

/-- The answer is not a write and the overlay is left alone. -/
def Unstaged (overlay : TabletOverlay) (result : Result TabletError StorePrepared × TabletOverlay) :
    Prop :=
  NoWrite result.1 ∧ result.2 = overlay

/-- Nothing is staged, or a write and nothing is taken back. -/
def Stages (overlay : TabletOverlay) (result : Result TabletError StorePrepared × TabletOverlay) :
    Prop :=
  overlay.Unstaged result ∨ (∃ mutation expected, result.1 = .ok (.write mutation expected)) ∧
    ∀ key ∈ overlay.pending, key ∈ result.2.pending

/-- A preparation stages nothing, or one mutation that applies to the staged key. -/
theorem prepare_cases (overlay : TabletOverlay) (committed : ObjectStore) (op : Operation)
    (now : WallTimestamp) :
    overlay.Unstaged (overlay.prepare committed op now) ∨
    ∃ key mutation expected outcome after written, op.key = some key ∧
      (overlay.stageKey committed .new key).prepareDurable now op =
        .ok (.write mutation expected) ∧
      (overlay.stageKey committed .new key).apply mutation now = (.ok outcome, after) ∧
      mutation.key = some written ∧
      overlay.prepare committed op now =
        (.ok (.write mutation expected), overlay.record after key written) := by
  unfold prepare
  cases hkey : op.key with
  | none => exact Or.inl ⟨by rintro _ _ ⟨⟩, rfl⟩
  | some key =>
    dsimp only
    cases hprepare : (overlay.stageKey committed .new key).prepareDurable now op with
    | panic | err => exact Or.inl ⟨by rintro _ _ ⟨⟩, rfl⟩
    | ok prepared =>
      cases prepared with
      | read | terminal => exact Or.inl ⟨by rintro _ _ ⟨⟩, rfl⟩
      | write mutation expected =>
        dsimp only
        rcases happly : (overlay.stageKey committed .new key).apply mutation now with
          ⟨outcome | error | _, after⟩
        · cases hwritten : mutation.key with
          | none => exact Or.inl ⟨by rintro _ _ ⟨⟩, rfl⟩
          | some written =>
            exact Or.inr ⟨key, mutation, expected, outcome, after, written, rfl, hprepare, happly,
              hwritten, rfl⟩
        · exact Or.inl ⟨by rintro _ _ ⟨⟩, rfl⟩
        · exact Or.inl ⟨by rintro _ _ ⟨⟩, rfl⟩

/-- The keys of a write set, each once and in order. -/
abbrev touched (writes : List TxnWrite) : List Key :=
  (ExtTreeSet.ofList (writes.map TxnWrite.key)).toList

theorem mem_touched_iff {writes : List TxnWrite} :
    key ∈ touched writes ↔ key ∈ (writes.map TxnWrite.key).dedup := by
  rw [ExtTreeSet.mem_toList, ExtTreeSet.mem_ofList, List.contains_iff_mem, List.mem_dedup]

section

variable (overlay : TabletOverlay) (committed : ObjectStore)

theorem prepareLocalCommit_cases (txn : TxnId) (writes : List TxnWrite) (now : WallTimestamp) :
    overlay.Unstaged (overlay.prepareLocalCommit committed txn writes now) ∨
    ∃ results after,
      ((touched writes).foldl (overlay.stageKey committed) .new).commitLocal writes now =
        (.ok results, after) ∧
      overlay.prepareLocalCommit committed txn writes now =
        (.ok (.write (.txnCommitLocal txn writes)
          (.txnLocalCommitted (after.localVersions writes now))),
          overlay.recordAll after (touched writes)) := by
  unfold prepareLocalCommit
  split_ifs
  · exact Or.inl ⟨by rintro _ _ ⟨⟩, rfl⟩
  · dsimp only
    rcases hcommit : ((touched writes).foldl (overlay.stageKey committed) .new).commitLocal
        writes now with ⟨results | error | _, after⟩
    · exact Or.inr ⟨results, after, rfl, rfl⟩
    · cases error <;> exact Or.inl ⟨by rintro _ _ ⟨⟩, rfl⟩
    · exact Or.inl ⟨by rintro _ _ ⟨⟩, rfl⟩

theorem prepare_keeps (op : Operation) (now : WallTimestamp) :
    overlay.Stages (overlay.prepare committed op now) := by
  rcases overlay.prepare_cases committed op now with hnone |
    ⟨key, mutation, expected, outcome, after, written, -, -, -, -, heq⟩
  · exact Or.inl hnone
  · refine Or.inr ⟨⟨mutation, expected, congrArg Prod.fst heq⟩, fun other hother ↦ ?_⟩
    rw [heq]
    exact ExtTreeMap.mem_insert.mpr (Or.inr hother)

theorem prepareLocalCommit_keeps (txn : TxnId) (writes : List TxnWrite) (now : WallTimestamp) :
    overlay.Stages (overlay.prepareLocalCommit committed txn writes now) := by
  rcases overlay.prepareLocalCommit_cases committed txn writes now with hnone |
    ⟨results, after, -, heq⟩
  · exact Or.inl hnone
  · refine Or.inr ⟨⟨_, _, congrArg Prod.fst heq⟩, fun other hother ↦ ?_⟩
    rw [heq]
    exact (mem_recordAll _).1.mpr (Or.inr hother)

/-- A request that is not prepared as a write leaves the overlay alone, and none takes back what
is staged. -/
theorem prepareEntry_keeps (op : Operation) (now : WallTimestamp) :
    overlay.Stages (overlay.prepareEntry committed op now) := by
  cases op with
  | txnCommitLocal txn writes => exact overlay.prepareLocalCommit_keeps committed txn writes now
  | _ => exact overlay.prepare_keeps committed _ now

end

end TabletOverlay

/-! ### Applying the writes of a batch -/

section Runs

variable {first second store : ObjectStore} {writes : List PreparedWrite} {write : PreparedWrite}
  {key : Key}

theorem agrees_of_frame (h : SameOn first second write.mutation.keys)
    (hagrees : Agrees first write) : Agrees second write := by
  obtain ⟨outcome, happly, hanswer⟩ := hagrees
  have hframe : SameApplied (first.apply write.mutation write.now)
      (second.apply write.mutation write.now) write.mutation.keys := ObjectStore.apply_frame h
  exact ⟨outcome, hframe.1 ▸ happly, hanswer⟩

/-- One write keeps two stores equal on a set of keys that contains its own. -/
theorem commitStep_frame {P : Key → Prop} (hkeys : ∀ key ∈ write.mutation.keys, P key)
    (h : ∀ key, P key → first.cell key = second.cell key) (key : Key) (hkey : P key) :
    (commitStep first write).cell key = (commitStep second write).cell key := by
  by_cases hmem : key ∈ write.mutation.keys
  · have hframe : SameApplied (first.apply write.mutation write.now)
        (second.apply write.mutation write.now) write.mutation.keys :=
      ObjectStore.apply_frame fun other hother ↦ h other (hkeys other hother)
    exact hframe.2 key hmem
  · rw [commitStep, commitStep, first.apply_cell_of_not_mem hmem,
      second.apply_cell_of_not_mem hmem]
    exact h key hkey

/-- Writes are answered from the keys they name, whatever else the store holds. -/
theorem run_commitStep_frame {P : Key → Prop}
    (hkeys : ∀ write ∈ writes, ∀ key ∈ write.mutation.keys, P key)
    (h : ∀ key, P key → first.cell key = second.cell key)
    (hagrees : Along commitStep Agrees first writes) :
    Along commitStep Agrees second writes ∧
      ∀ key, P key →
        (run commitStep first writes).cell key = (run commitStep second writes).cell key := by
  induction writes generalizing first second with
  | nil => exact ⟨trivial, h⟩
  | cons write rest ih =>
    have hown := hkeys write List.mem_cons_self
    obtain ⟨hrest, hcells⟩ := ih (fun other hmem ↦ hkeys other (List.mem_cons_of_mem _ hmem))
      (commitStep_frame hown h) hagrees.2
    exact ⟨⟨agrees_of_frame (fun key hmem ↦ h key (hown key hmem)) hagrees.1, hrest⟩, hcells⟩

theorem run_commitStep_cell (h : ∀ write ∈ writes, key ∉ write.mutation.keys) :
    (run commitStep store writes).cell key = store.cell key := by
  induction writes generalizing store with
  | nil => rfl
  | cons write rest ih =>
    rw [run_cons, ih fun other hmem ↦ h other (List.mem_cons_of_mem _ hmem)]
    exact store.apply_cell_of_not_mem (h write List.mem_cons_self)

theorem reachable_run_commitStep (h : ReachableStore store) (writes : List PreparedWrite) :
    ReachableStore (run commitStep store writes) :=
  run_invariant (P := ReachableStore)
    (fun _ write hstore ↦ hstore.run [.apply write.mutation write.now]) h writes

/-- An agreeing write passes the assertions of the live tablet that applies it. -/
def Confirms (store : ObjectStore) (write : PreparedWrite) : Prop :=
  ∀ (live : LiveTablet) (identity : Option MutationIdentity) (commit : CommitPosition),
    live.store = store → nextPosition live.appliedCommit = some commit →
      (live.commitPersisted write.mutation write.expected write.isPersistExpiry identity commit
        write.now).1 = .ok write.expected

theorem Agrees.confirms (h : Agrees store write) : Confirms store write := by
  obtain ⟨outcome, happly, hanswer⟩ := h
  intro live identity commit hstore hnext
  subst hstore
  rcases hstep : live.store.apply write.mutation write.now with ⟨answer, after⟩
  rw [hstep] at happly
  cases happly
  simp [LiveTablet.commitPersisted, hnext, hstep, hanswer]

end Runs

/-! ### The overlay follows the store the batch leads to -/

/-- The overlay shows, over the committed store, what applying the writes prepared so far will
leave, and has staged exactly their keys. -/
structure Tracks (committed : ObjectStore) (writes : List PreparedWrite) (overlay : TabletOverlay) :
    Prop where
  view : ∀ key, overlay.view committed key = (run commitStep committed writes).cell key
  pending : ∀ key, key ∈ overlay.pending ↔ ∃ write ∈ writes, key ∈ write.mutation.keys
  intents : ∀ key, key ∈ overlay.intents ↔ ∃ write ∈ writes, key ∈ write.mutation.keys
  agrees : Along commitStep Agrees committed writes

/-- Nothing is staged, or a write that the overlay follows. -/
def Follows (committed : ObjectStore) (writes : List PreparedWrite) (overlay : TabletOverlay)
    (isPersistExpiry : Bool) (now : WallTimestamp)
    (result : Result TabletError StorePrepared × TabletOverlay) : Prop :=
  overlay.Unstaged result ∨ ∃ mutation expected, result.1 = .ok (.write mutation expected) ∧
    Tracks committed (writes ++ [⟨mutation, expected, isPersistExpiry, now⟩]) result.2

namespace Tracks

variable {committed : ObjectStore} {writes : List PreparedWrite} {overlay : TabletOverlay}

theorem empty (committed : ObjectStore) : Tracks committed [] .empty where
  view _ := by simp [TabletOverlay.view, TabletOverlay.empty, ObjectStore.cell]
  pending _ := by simp [TabletOverlay.empty]
  intents _ := by simp [TabletOverlay.empty]
  agrees := trivial

/-- A write that was applied on a scratch copy of its keys, with the answer predicted, is staged
by recording those keys. -/
theorem write (h : Tracks committed writes overlay) {write : PreparedWrite}
    {scratch after : ObjectStore} {outcome : ApplyOutcome} {keys : List Key}
    (hsame : SameOn scratch (run commitStep committed writes) write.mutation.keys)
    (happly : scratch.apply write.mutation write.now = (.ok outcome, after))
    (hanswer : outcomeFor write.mutation outcome write.isPersistExpiry = some write.expected)
    (hkeys : ∀ key, key ∈ keys ↔ key ∈ write.mutation.keys) :
    Tracks committed (writes ++ [write]) (overlay.recordAll after keys) := by
  have hscratch : Agrees scratch write := ⟨outcome, by rw [happly], hanswer⟩
  have hframe : SameApplied (scratch.apply write.mutation write.now)
      ((run commitStep committed writes).apply write.mutation write.now) write.mutation.keys :=
    ObjectStore.apply_frame hsame
  have htouched (key : Key) : (∃ other ∈ writes ++ [write], key ∈ other.mutation.keys) ↔
      key ∈ keys ∨ ∃ other ∈ writes, key ∈ other.mutation.keys := by
    simp [hkeys, or_and_right, exists_or, or_comm]
  constructor
  case view =>
    intro key
    rw [TabletOverlay.view_recordAll, run_append, h.view]
    split_ifs with hmem
    · have hcell := hframe.2 key ((hkeys key).mp hmem)
      rwa [happly] at hcell
    · exact (ObjectStore.apply_cell_of_not_mem _ (mt (hkeys key).mpr hmem)).symm
  case pending =>
    intro key
    rw [(TabletOverlay.mem_recordAll keys).1, h.pending, htouched]
  case intents =>
    intro key
    rw [(TabletOverlay.mem_recordAll keys).2, h.intents, htouched]
  case agrees =>
    exact along_append.mpr ⟨h.agrees, agrees_of_frame hsame hscratch, trivial⟩

section

variable (hreach : ReachableStore committed) (h : Tracks committed writes overlay)
include hreach h

/-- The staged copy of some keys has the cells of the store the batch leads to. -/
theorem staged_sameOn (keys : List Key) :
    SameOn (keys.foldl (overlay.stageKey committed) .new) (run commitStep committed writes)
      keys := by
  intro key hkey
  have hfiled := ObjectStore.intentsFiled_of_reachable (reachable_run_commitStep hreach writes)
  have hstage : overlay.stageKey committed = (run commitStep committed writes).stageKey :=
    funext fun scratch ↦ funext fun other ↦ TabletOverlay.stageKey_eq (h.view other)
  rw [hstage, ObjectStore.foldl_stageKey_cell hfiled, if_pos hkey]
  simp [ObjectStore.cell, ObjectStore.new]

/-- Preparing an operation on one key. -/
theorem prepare {op : Operation} {now : WallTimestamp}
    (hlocal : ∀ txn writes, op ≠ .txnCommitLocal txn writes) :
    Follows committed writes overlay op.isPersistExpiry now (overlay.prepare committed op now) := by
  rcases overlay.prepare_cases committed op now with hnone |
    ⟨key, mutation, expected, outcome, after, written, hkey, hprepare, happly, hwritten, heq⟩
  · exact Or.inl hnone
  right
  have hsame := h.staged_sameOn hreach [key]
  have hcell : (overlay.stageKey committed .new key).cell key =
      (run commitStep committed writes).cell key := hsame key List.mem_cons_self
  have hsound : EntrySound False (overlay.stageKey committed .new key).objects[key]? := by
    rw [ObjectStore.entry_eq_of_cell hcell]
    exact ReachableStore.sound (reachable_run_commitStep hreach writes) key
  obtain ⟨hown, hkeys, hanswer⟩ := ObjectStore.prepared_applied_agrees hlocal hkey hsound hprepare
    (congrArg Prod.fst happly)
  obtain rfl := Option.some.inj (hwritten.symm.trans hown)
  have hstaged : Tracks committed (writes ++ [⟨mutation, expected, op.isPersistExpiry, now⟩])
      (overlay.recordAll after [written]) :=
    h.write (hkeys ▸ hsame) happly hanswer fun other ↦ by rw [hkeys]
  refine ⟨mutation, expected, congrArg Prod.fst heq, ?_⟩
  rw [heq]
  exact hstaged

/-- Preparing a local commit. -/
theorem prepareLocalCommit {txn : TxnId} {set : List TxnWrite} {now : WallTimestamp} :
    Follows committed writes overlay false now
      (overlay.prepareLocalCommit committed txn set now) := by
  rcases overlay.prepareLocalCommit_cases committed txn set now with hnone |
    ⟨results, after, hcommit, heq⟩
  · exact Or.inl hnone
  right
  have hsame : SameOn ((TabletOverlay.touched set).foldl (overlay.stageKey committed) .new)
      (run commitStep committed writes) (set.map TxnWrite.key).dedup := fun key hkey ↦
    h.staged_sameOn hreach _ key (TabletOverlay.mem_touched_iff.mpr hkey)
  have happly : ((TabletOverlay.touched set).foldl (overlay.stageKey committed) .new).apply
      (.txnCommitLocal txn set) now =
        (.ok (.txnLocalCommitted (after.localVersions set now)), after) := by
    change ObjectStore.applyLocalCommit _ set now = _
    rw [ObjectStore.applyLocalCommit, hcommit]
  refine ⟨_, _, congrArg Prod.fst heq, ?_⟩
  rw [heq]
  exact h.write hsame happly rfl fun key ↦ TabletOverlay.mem_touched_iff

/-- Preparing any request of the batch. -/
theorem prepareEntry (op : Operation) (now : WallTimestamp) :
    Follows committed writes overlay op.isPersistExpiry now
      (overlay.prepareEntry committed op now) := by
  cases op with
  | txnCommitLocal txn set => exact h.prepareLocalCommit hreach
  | _ => exact h.prepare hreach nofun

end

/-- A sweep that passes over the staged keys changes nothing the batch depends on. -/
theorem sweep (h : Tracks committed writes overlay) {swept : ObjectStore}
    (hswept : ∀ key ∈ overlay.pending, swept.cell key = committed.cell key) :
    Tracks swept writes overlay := by
  have hkept (key : Key) (hkey : ∃ write ∈ writes, key ∈ write.mutation.keys) :
      committed.cell key = swept.cell key := (hswept key ((h.pending key).mpr hkey)).symm
  obtain ⟨hagrees, hcells⟩ := run_commitStep_frame
    (fun write hwrite key hkey ↦ ⟨write, hwrite, hkey⟩) hkept h.agrees
  refine ⟨fun key ↦ ?_, h.pending, h.intents, hagrees⟩
  by_cases htouched : ∃ write ∈ writes, key ∈ write.mutation.keys
  · -- What is staged hides the committed store.
    obtain ⟨object, hobject⟩ := Option.isSome_iff_exists.mp
      (ExtTreeMap.mem_iff_isSome_getElem?.mp ((h.pending key).mpr htouched))
    obtain ⟨intent, hintent⟩ := Option.isSome_iff_exists.mp
      (ExtTreeMap.mem_iff_isSome_getElem?.mp ((h.intents key).mpr htouched))
    have hsame : overlay.view swept key = overlay.view committed key := by
      simp [TabletOverlay.view, hobject, hintent]
    rw [hsame, h.view, hcells key htouched]
  · have hpending := mt (h.pending key).mp htouched
    have hintents := mt (h.intents key).mp htouched
    rw [run_commitStep_cell fun write hwrite hkey ↦ htouched ⟨write, hwrite, hkey⟩]
    simp [TabletOverlay.view, ExtTreeMap.getElem?_eq_none hpending,
      ExtTreeMap.getElem?_eq_none hintents, ObjectStore.cell]

/-- Whatever happens while the batch is prepared, the overlay follows. -/
theorem step {staging : Staging} (hreach : ReachableStore staging.committed)
    (h : Tracks staging.committed writes staging.overlay) (event : StagingEvent) :
    ReachableStore (staging.step event).committed ∧
      Tracks (staging.step event).committed (writes ++ (staging.prepared event).toList)
        (staging.step event).overlay := by
  cases event with
  | request op now =>
    refine ⟨hreach, ?_⟩
    change Tracks staging.committed _ (staging.overlay.prepareEntry staging.committed op now).2
    rcases h.prepareEntry hreach op now with ⟨hnone, hsame⟩ | ⟨mutation, expected, hwrite, htracks⟩
    · have hprepared : staging.prepared (.request op now) = none := by
        simp only [Staging.prepared]
        split
        next hwrite => exact absurd hwrite (hnone _ _)
        · rfl
      rw [hprepared, hsame]
      simpa using h
    · have hprepared : staging.prepared (.request op now) =
          some ⟨mutation, expected, op.isPersistExpiry, now⟩ := by
        simp only [Staging.prepared, hwrite]
      rw [hprepared]
      exact htracks
  | sweep now limit others =>
    refine ⟨hreach.run [.sweepExpired now limit (staging.touchedKeys others)], ?_⟩
    rw [show staging.prepared (.sweep now limit others) = none from rfl, Option.toList_none,
      List.append_nil]
    refine h.sweep fun key hkey ↦ ?_
    refine ObjectStore.sweepExpired_cell_of_skip ?_
    rw [Staging.touchedKeys, ExtTreeSet.mem_ofList, List.contains_iff_mem]
    exact List.mem_append_left _ (ExtTreeMap.mem_keys.mpr hkey)

end Tracks

/-- Requests prepared through one overlay, in any order and with sweeps between them that pass
over the staged keys, are applied to the committed store exactly as predicted, and the overlay
holds what they leave under every key it has staged or they name. -/
theorem overlay_refines_batch {committed : ObjectStore} (hreach : ReachableStore committed)
    (events : List StagingEvent) :
    let staging := run Staging.step ⟨committed, .empty⟩ events
    let writes := collect Staging.step Staging.prepared ⟨committed, .empty⟩ events
    let final := run commitStep staging.committed writes
    Along commitStep (fun store write ↦ Agrees store write ∧ Confirms store write)
        staging.committed writes ∧
      ∀ key, (key ∈ staging.overlay.pending ∨ key ∈ staging.overlay.intents ∨
          ∃ write ∈ writes, key ∈ write.mutation.keys) →
        staging.overlay.pending[key]? = some final.objects[key]? ∧
          staging.overlay.intents[key]? = some final.intents[key]? := by
  intro staging writes final
  have hall : Along Staging.step (fun _ _ ↦ True) ⟨committed, .empty⟩ events :=
    along_of_forall _ fun _ _ ↦ trivial
  obtain ⟨-, htracks⟩ := collect_invariant_along
    (P := fun writes staging ↦ ReachableStore staging.committed ∧
      Tracks staging.committed writes staging.overlay)
    (fun _ _ event _ h ↦ Tracks.step h.1 h.2 event) ⟨hreach, Tracks.empty committed⟩ hall
  rw [List.nil_append] at htracks
  refine ⟨htracks.agrees.mono fun store write h ↦ ⟨h, h.confirms⟩, fun key hkey ↦ ?_⟩
  have htouched : ∃ write ∈ writes, key ∈ write.mutation.keys := by
    rcases hkey with hpending | hintents | hwrites
    · exact (htracks.pending key).mp hpending
    · exact (htracks.intents key).mp hintents
    · exact hwrites
  obtain ⟨object, hobject⟩ := Option.isSome_iff_exists.mp
    (ExtTreeMap.mem_iff_isSome_getElem?.mp ((htracks.pending key).mpr htouched))
  obtain ⟨intent, hintent⟩ := Option.isSome_iff_exists.mp
    (ExtTreeMap.mem_iff_isSome_getElem?.mp ((htracks.intents key).mpr htouched))
  have hview := htracks.view key
  simp only [TabletOverlay.view, hobject, hintent, Option.getD_some, ObjectStore.cell,
    Cell.mk.injEq] at hview
  exact ⟨by rw [hobject, hview.1], by rw [hintent, hview.2]⟩

/-- A write, a sweep and a local commit on the same key, over an empty store. -/
theorem overlay_refines_local_commit :
    let events : List StagingEvent :=
      [.request (.counterAdd [1] 5) 1, .sweep 9 4 [],
        .request
          (.txnCommitLocal (.zero _) [⟨[1], .counterAdd 2, .any⟩, ⟨[2], .put [7], .absent⟩]) 2]
    let staging := run Staging.step ⟨.new, .empty⟩ events
    let writes := collect Staging.step Staging.prepared ⟨.new, .empty⟩ events
    ReachableStore .new ∧
      writes.map PreparedWrite.expected =
        [.counterUpdated 5 .first, .txnLocalCommitted [some ⟨2⟩, some .first]] ∧
      Along commitStep (fun store write ↦ Agrees store write ∧ Confirms store write)
        staging.committed writes :=
  ⟨Reachable.refl _, by decide, (overlay_refines_batch (Reachable.refl _) _).1⟩

end Kivi.Engine
