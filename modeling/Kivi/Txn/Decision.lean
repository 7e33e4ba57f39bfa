import Kivi.Txn.Record

/-!
# Deciding a transaction

A decision is written by a single-key transaction of its own: a prepare that requires the record
to be absent, or to be at a version at which it was seen undecided, and a commit that follows only
a successful prepare. Any number of deciders may race, and the reservation of any of them may be
aborted when its lease runs out. A commit carries its write whether or not its reservation is
left, so it keeps an earlier decision exactly as long as it finds the reservation it was promised
or the decision it would write.
-/

namespace Kivi.Txn

open Library.Runs State

/-! ### Deciders -/

/-- One attempt at a decision: the identity of its transaction, its guard and its record. -/
structure Decider where
  id : TxnId
  coordinator : TabletId
  expect : TxnExpect
  record : TxnRecord
deriving DecidableEq

namespace Decider

def write (decider : Decider) (key : Key) : TxnWrite :=
  ⟨key, .put decider.record.encode, decider.expect⟩

/-- Steps on a record key bind the zero digest. -/
def prepare (decider : Decider) (key : Key) : Mutation :=
  .txnPrepare decider.id decider.coordinator key decider.expect (.put decider.record.encode)
    (.zero _)

def finalize (decider : Decider) (key : Key) : Mutation :=
  .txnFinalize decider.id key true (decider.write key) (.zero _)

/-- The state readers find once the record is written. -/
def writes (decider : Decider) : Option TxnState :=
  (recordOfBytes decider.record.encode).map TxnRecord.state

end Decider

/-- The tablet that holds a record: its store, the deciders whose prepare it answered with
success, and the versions at which the record was seen undecided. -/
structure RecordHome where
  store : ObjectStore
  prepared : List Decider
  undecided : List ObjectVersion

/-- What happens at the record's tablet. `expire` is the abort of a reservation whose lease ran
out; `other` is anything that does not name the record. -/
inductive RecordEvent where
  | observe (now : WallTimestamp)
  | prepare (decider : Decider) (now : WallTimestamp)
  | finalize (decider : Decider) (now : WallTimestamp)
  | expire (txn : TxnId) (write : TxnWrite) (digest : Digest) (now : WallTimestamp)
  | other (event : StoreEvent)

namespace RecordHome

def new : RecordHome := ⟨.new, [], []⟩

/-- The decision under `key`. -/
def decision (home : RecordHome) (key : Key) : Option TxnState :=
  storedState home.store.objects[key]?

/-- Deciders guard by absence, or by a version that was seen undecided. -/
def allows (home : RecordHome) : TxnExpect → Bool
  | .any => false
  | .absent => true
  | .version version => decide (version ∈ home.undecided)

/-- One step on the record under `key`. -/
def step (key : Key) (home : RecordHome) : RecordEvent → RecordHome
  | .observe now =>
    match home.store.get key now with
    | none => home
    | some object =>
      match storedState (some object) with
      | some .begun => { home with undecided := object.version :: home.undecided }
      | _ => home
  | .prepare decider now =>
    if home.allows decider.expect then
      let (answer, store) := home.store.apply (decider.prepare key) now
      let prepared := if answer = .ok .txnPrepared then decider :: home.prepared else home.prepared
      { home with store, prepared }
    else home
  | .finalize decider now =>
    if decider ∈ home.prepared then
      { home with store := (home.store.apply (decider.finalize key) now).2 }
    else home
  | .expire txn write digest now =>
    { home with store := (home.store.apply (.txnFinalize txn key false write digest) now).2 }
  | .other event =>
    if event.avoids key then { home with store := event.step home.store } else home

end RecordHome

/-- The commit of a decider whose prepare succeeded finds its own reservation, or a record that
already reads as the one it writes. -/
def FindsReservation (key : Key) (home : RecordHome) : RecordEvent → Prop
  | .finalize decider _ => decider ∈ home.prepared →
    (∃ held, home.store.intents[key]? = some held ∧ held.id = decider.id ∧
      held.digest = .zero _) ∨ home.decision key = decider.writes
  | _ => True

/-! ### One step -/

namespace RecordHome

variable {key : Key} {home : RecordHome}

/-- Nobody reserves a decided record, and what was seen undecided at the record's version still
is. -/
structure Sound (key : Key) (home : RecordHome) : Prop where
  cell : RecordCell (home.store.cell key)
  seen : ∀ version ∈ home.undecided, ∃ object, home.store.objects[key]? = some object ∧
    version.asU64.toNat ≤ object.version.asU64.toNat ∧
    (object.version = version → Undecided (some object))

theorem new_sound (key : Key) : new.Sound key := by
  refine ⟨?_, fun version hmem ↦ absurd hmem List.not_mem_nil⟩
  have hcell : new.store.cell key = ⟨none, none⟩ := by
    simp [new, ObjectStore.cell, ObjectStore.new]
  rw [hcell]
  exact .empty

section

variable (h : home.Sound key)
include h

/-- A guard that holds has found the record undecided. -/
theorem Sound.undecided_of_guard {expect : TxnExpect} {now : WallTimestamp}
    (hallows : home.allows expect = true)
    (hexpect : checkTxnExpectation expect (liveObject home.store.objects[key]? now) = .ok ()) :
    Undecided home.store.objects[key]? := by
  cases expect with
  | any => cases hallows
  | absent =>
    cases hentry : home.store.objects[key]? with
    | none => exact undecided_none
    | some object =>
      -- The object does not expire, so it is live and the guard fails.
      rw [hentry, liveObject_of_lasting (h.cell.lasting object hentry) now] at hexpect
      simp [checkTxnExpectation] at hexpect
  | version version =>
    obtain ⟨object, hentry, -, hundecided⟩ := h.seen version (of_decide_eq_true hallows)
    rw [hentry, liveObject_of_lasting (h.cell.lasting object hentry) now] at hexpect
    rw [hentry]
    exact hundecided (by simpa [checkTxnExpectation] using hexpect)

/-- A step that leaves the record's object leaves what was seen of it. -/
theorem Sound.of_entry {store : ObjectStore} (prepared : List Decider)
    (hcell : RecordCell (store.cell key))
    (hentry : store.objects[key]? = home.store.objects[key]?) :
    Sound key ⟨store, prepared, home.undecided⟩ := by
  refine ⟨hcell, fun version hmem ↦ ?_⟩
  obtain ⟨object, hobject, hseen⟩ := h.seen version hmem
  exact ⟨object, hentry.trans hobject, hseen⟩

theorem Sound.observe (now : WallTimestamp) : (home.step key (.observe now)).Sound key := by
  simp only [step]
  split
  · exact h
  next object hlive =>
  split
  · next hbegun =>
    have hentry := (liveObject_eq_some_iff.mp hlive).1
    refine ⟨h.cell, fun version hmem ↦ ?_⟩
    rcases List.mem_cons.mp hmem with rfl | hold
    · refine ⟨object, hentry, le_rfl, fun _ state hstate ↦ ?_⟩
      rw [hbegun, Option.some.injEq] at hstate
      rw [← hstate]
      rfl
    · exact h.seen version hold
  · exact h

theorem Sound.prepare (decider : Decider) (now : WallTimestamp) :
    (home.step key (.prepare decider now)).Sound key ∧
      (home.step key (.prepare decider now)).store.objects[key]? = home.store.objects[key]? := by
  simp only [step]
  split
  next hallows =>
    obtain ⟨hcell, hentry⟩ := h.cell.prepare (h.undecided_of_guard hallows)
      (home.store.apply_cell (decider.prepare key) now key)
    exact ⟨h.of_entry _ hcell hentry, hentry⟩
  · exact ⟨h, rfl⟩

theorem Sound.expire (txn : TxnId) (write : TxnWrite) (digest : Digest) (now : WallTimestamp) :
    (home.step key (.expire txn write digest now)).Sound key ∧
      (home.step key (.expire txn write digest now)).store.objects[key]? =
        home.store.objects[key]? := by
  obtain ⟨hcell, hentry⟩ :=
    h.cell.abort (home.store.apply_cell (.txnFinalize txn key false write digest) now key)
  exact ⟨h.of_entry _ hcell hentry, hentry⟩

/-- A commit that finds its reservation, or the state it writes, changes no decision. -/
theorem Sound.finalize {decider : Decider} {now : WallTimestamp}
    (hfinds : FindsReservation key home (.finalize decider now)) :
    (home.step key (.finalize decider now)).Sound key ∧
      KeepsDecision home.store.objects[key]?
        (home.step key (.finalize decider now)).store.objects[key]? := by
  simp only [step]
  split_ifs with hprepared
  swap
  · exact ⟨h, .refl _⟩
  have hstep := home.store.apply_cell (decider.finalize key) now key
  have hreserved : (home.store.cell key).intent ≠ none ∨
      storedState (home.store.cell key).entry =
        (recordOfBytes decider.record.encode).map TxnRecord.state := by
    rcases hfinds hprepared with ⟨held, hheld, -⟩ | hsame
    · refine Or.inl fun hnone ↦ ?_
      cases hheld.symm.trans hnone
    · exact Or.inr hsame
  obtain ⟨hcell, hkeeps⟩ := h.cell.finalize hstep hreserved
  refine ⟨⟨hcell, fun version hmem ↦ ?_⟩, hkeeps⟩
  obtain ⟨object, hobject, hle, hundecided⟩ := h.seen version hmem
  have hentry : (home.store.cell key).entry = some object := hobject
  rcases RecordCell.finalize_cases hstep with hafter | hafter | ⟨later, hlater, hafter⟩
  · exact ⟨object, (congrArg Cell.entry hafter).trans hentry, hle, hundecided⟩
  · exact ⟨object, (congrArg Cell.entry hafter).trans hentry, hle, hundecided⟩
  · -- The version moves past everything seen before.
    rw [hentry, entryNextVersion_of_live (liveObject_of_lasting (h.cell.lasting object hentry) _),
      ObjectVersion.next_eq_some_iff] at hlater
    refine ⟨_, congrArg Cell.entry hafter, by dsimp only; omega, fun heq ↦ ?_⟩
    dsimp only at heq
    rw [heq] at hlater
    omega

/-- One step. -/
theorem Sound.step {event : RecordEvent} (hfinds : FindsReservation key home event) :
    (home.step key event).Sound key ∧
      KeepsDecision home.store.objects[key]? (home.step key event).store.objects[key]? := by
  cases event with
  | observe now =>
    refine ⟨h.observe now, ?_⟩
    have hstore : (home.step key (.observe now)).store = home.store := by
      simp only [RecordHome.step]
      split
      · rfl
      · split <;> rfl
    rw [hstore]
    exact .refl _
  | prepare decider now =>
    obtain ⟨hsound, hentry⟩ := h.prepare decider now
    rw [hentry]
    exact ⟨hsound, .refl _⟩
  | finalize decider now => exact h.finalize hfinds
  | expire txn write digest now =>
    obtain ⟨hsound, hentry⟩ := h.expire txn write digest now
    rw [hentry]
    exact ⟨hsound, .refl _⟩
  | other event =>
    simp only [RecordHome.step]
    split_ifs with havoids
    · have hcell := StoreEvent.step_cell_of_avoids h.cell.lasting havoids
      have hentry := congrArg Cell.entry hcell
      refine ⟨h.of_entry _ (hcell ▸ h.cell) hentry, ?_⟩
      rw [show (event.step home.store).objects[key]? = home.store.objects[key]? from hentry]
      exact .refl _
    · exact ⟨h, .refl _⟩

end

/-! ### Whole runs -/

/-- In every run whose commits find their reservations, a decision is final. -/
theorem decision_single_assignment (key : Key) {first second : List RecordEvent}
    {state : TxnState}
    (hfinds : Along (RecordHome.step key) (FindsReservation key) .new (first ++ second))
    (hstate : (run (RecordHome.step key) .new first).decision key = some state)
    (hdecided : state.decided = true) :
    (run (RecordHome.step key) .new (first ++ second)).decision key = some state := by
  obtain ⟨hfirst, hsecond⟩ := along_append.mp hfinds
  have hsound : (run (RecordHome.step key) .new first).Sound key :=
    run_invariant_along (P := Sound key) (fun _ _ hevent h ↦ (h.step hevent).1) (new_sound key)
      hfirst
  rw [run_append]
  -- From the decided state on, every state is sound and still has the decision.
  have hkept := run_invariant_along
    (P := fun home ↦ home.Sound key ∧ home.decision key = some state)
    (fun home event hevent h ↦
      ⟨(h.1.step hevent).1, (h.1.step hevent).2 state h.2 hdecided⟩)
    ⟨hsound, hstate⟩ hsecond
  exact hkept.2

/-- A driver commits; a resolver that comes later finds the record and is refused. -/
theorem decision_stands_against_resolver :
    let key := txnRecordKey 1 (.zero _)
    let record (state : TxnState) : TxnRecord := ⟨.zero _, 1, [1, 2], state, 0, .zero _⟩
    let driver : Decider := ⟨⟨List.replicate 16 1, rfl⟩, 1, .absent, record .committed⟩
    let resolver : Decider := ⟨⟨List.replicate 16 2, rfl⟩, 1, .absent, record .aborted⟩
    let first : List RecordEvent := [.prepare driver 0, .finalize driver 1]
    let second : List RecordEvent :=
      [.prepare resolver 2, .finalize resolver 3, .finalize driver 4]
    (run (step key) .new first).decision key = some .committed ∧
      (run (step key) .new (first ++ second)).decision key = some .committed := by
  intro key record driver resolver first second
  have hstate : (run (step key) .new first).decision key = some .committed := by decide
  refine ⟨hstate, decision_single_assignment key ?_ hstate rfl⟩
  exact ⟨trivial, fun _ ↦ Or.inl ⟨_, rfl, rfl, rfl⟩, trivial, fun h ↦ absurd h (by decide),
    fun _ ↦ Or.inr (by decide), trivial⟩

/-- A driver prepares its commit and its reservation runs out; a resolver decides to abort; the
driver's commit arrives and overwrites the decision. -/
theorem delayed_commit_overwrites_abort :
    let key := txnRecordKey 1 (.zero _)
    let record (state : TxnState) : TxnRecord := ⟨.zero _, 1, [1, 2], state, 0, .zero _⟩
    let driver : Decider := ⟨⟨List.replicate 16 1, rfl⟩, 1, .absent, record .committed⟩
    let resolver : Decider := ⟨⟨List.replicate 16 2, rfl⟩, 1, .absent, record .aborted⟩
    let first : List RecordEvent := [.prepare driver 0,
      .expire driver.id (driver.write key) (.zero _) 60000001, .prepare resolver 60000002,
      .finalize resolver 60000003]
    (run (step key) .new first).decision key = some .aborted ∧
      (run (step key) .new (first ++ [.finalize driver 60000004])).decision key =
        some .committed := by
  decide

end RecordHome

end Kivi.Txn
