import Kivi.Engine.Coordinator

/-!
# The positions of a group commit

`Ledger` is what holds between the tablets of a worker, the durable log and the batch members
that are not applied yet. The members of each tablet carry the positions that follow its log,
the two cursors of the tablet stand at the end of the one and of the other, and every pending
write will be applied with the answer predicted for it. Assigning a position, applying the first
pending member and rewinding all of them keep it.
-/

namespace Kivi.Engine

open Library Library.CheckedArith Library.Runs State
open Consensus (CommitPosition MutationIdentity mutationOpcode)
open Std (ExtTreeMap)

/-! ### Members of one tablet -/

/-- The members on a tablet, in order. -/
def onTablet (tablet : TabletId) (applies : List ApplyData) : List ApplyData :=
  applies.filter fun apply ↦ decide (apply.tablet = tablet)

@[simp] theorem onTablet_append (tablet : TabletId) (first second : List ApplyData) :
    onTablet tablet (first ++ second) = onTablet tablet first ++ onTablet tablet second :=
  List.filter_append _ _

theorem onTablet_singleton (tablet : TabletId) (apply : ApplyData) :
    onTablet tablet [apply] = if apply.tablet = tablet then [apply] else [] := by
  by_cases h : apply.tablet = tablet <;> simp [onTablet, h]

theorem onTablet_cons (tablet : TabletId) (apply : ApplyData) (rest : List ApplyData) :
    onTablet tablet (apply :: rest) =
      (if apply.tablet = tablet then [apply] else []) ++ onTablet tablet rest := by
  rw [← List.singleton_append, onTablet_append, onTablet_singleton]

variable {tablet : TabletId} {applies : List ApplyData}

theorem onTablet_eq_nil (h : ∀ apply ∈ applies, apply.tablet ≠ tablet) :
    onTablet tablet applies = [] :=
  List.filter_eq_nil_iff.mpr fun apply hmem ↦ by simp [h apply hmem]

variable {apply : ApplyData}

theorem mem_onTablet :
    apply ∈ onTablet tablet applies ↔ apply ∈ applies ∧ apply.tablet = tablet := by
  simp [onTablet]

/-- The write of a member that is a mutation. -/
def ApplyData.write (apply : ApplyData) : Option PreparedWrite :=
  match apply.kind with
  | .mutation mutation expected isPersistExpiry =>
    some ⟨mutation, expected, isPersistExpiry, apply.now⟩
  | .terminal _ _ => none

/-- The writes on a tablet, in order. -/
def writesOn (tablet : TabletId) (applies : List ApplyData) : List PreparedWrite :=
  (onTablet tablet applies).filterMap ApplyData.write

theorem writesOn_append (tablet : TabletId) (first second : List ApplyData) :
    writesOn tablet (first ++ second) = writesOn tablet first ++ writesOn tablet second := by
  simp [writesOn, List.filterMap_append]

theorem writesOn_singleton (tablet : TabletId) (apply : ApplyData) :
    writesOn tablet [apply] = if apply.tablet = tablet then apply.write.toList else [] := by
  rw [writesOn, onTablet_singleton]
  split_ifs
  · cases hwrite : apply.write <;> simp [hwrite]
  · rfl

/-- The members of one tablet carry consecutive positions that start with the first. -/
def Numbered (applies : List ApplyData) : Prop :=
  ∀ index apply, applies[index]? = some apply → apply.commit.toNat = index + 1

theorem numbered_nil : Numbered [] := by
  intro index apply h
  simp at h

theorem Numbered.front {front back : List ApplyData} (h : Numbered (front ++ back)) :
    Numbered front := by
  intro index apply hget
  obtain ⟨hlt, -⟩ := List.getElem?_eq_some_iff.mp hget
  exact h index apply (by rw [List.getElem?_append_left hlt, hget])

theorem Numbered.concat (h : Numbered applies) (hcommit : apply.commit.toNat = applies.length + 1) :
    Numbered (applies ++ [apply]) := by
  intro index other hget
  rcases Nat.lt_or_ge index applies.length with hlt | hge
  · rw [List.getElem?_append_left hlt] at hget
    exact h index other hget
  · rw [List.getElem?_append_right hge, List.getElem?_singleton] at hget
    split_ifs at hget with hlast
    cases hget
    omega

/-- A member carries the position after those before it. -/
theorem Numbered.commit_eq {front back : List ApplyData} (h : Numbered (front ++ apply :: back)) :
    apply.commit.toNat = front.length + 1 :=
  h front.length apply (by simp)

/-! ### Positions -/

theorem nextPosition_eq_some_iff {position next : CommitPosition} :
    nextPosition position = some next ↔ next.toNat = position.toNat + 1 := by
  rw [nextPosition, checkedAddU64_eq_some_iff]
  exact eq_comm

variable {live : LiveTablet}

theorem checkChain_of_ne {commit : CommitPosition}
    (h : nextPosition live.appliedCommit ≠ some commit) :
    ∃ error, live.checkChain commit = .error error := by
  unfold LiveTablet.checkChain
  cases hnext : nextPosition live.appliedCommit with
  | none => exact ⟨_, rfl⟩
  | some expected =>
    have hne : commit ≠ expected := fun heq ↦ h (by rw [hnext, heq])
    exact ⟨_, if_pos hne⟩

/-! ### Applying one member -/

/-- Recording an answer with its acknowledgement changes the sessions only. -/
theorem LiveTablet.recordAnswer_eq (live : LiveTablet) (identity : Option MutationIdentity)
    (entry : DedupEntry) :
    (live.installFor identity entry).acknowledge identity = { live with
      dedup := ((live.installFor identity entry).acknowledge identity).dedup } := by
  cases identity with
  | none => rfl
  | some marker =>
    simp only [installFor, installDedup, acknowledge, advanceSessionFloor,
      ExtTreeMap.getElem?_insert_self]

/-- What a session retains of a member. -/
def ApplyData.entry (apply : ApplyData) : DedupEntry :=
  match apply.kind with
  | .mutation mutation expected isPersistExpiry =>
    ⟨apply.commit, mutationOpcode mutation isPersistExpiry, .completed expected⟩
  | .terminal outcome opcode => ⟨apply.commit, opcode, outcome⟩

/-- The tablet with a member applied: its write, its position, its answer and its
acknowledgement. -/
def LiveTablet.advance (live : LiveTablet) (apply : ApplyData) : LiveTablet :=
  let stored := { live with
    store := run commitStep live.store apply.write.toList, appliedCommit := apply.commit }
  (stored.installFor apply.identity apply.entry).acknowledge apply.identity

namespace LiveTablet

variable (live : LiveTablet) (apply : ApplyData)

@[simp] theorem advance_id : (live.advance apply).id = live.id := by
  rw [advance, recordAnswer_eq]

@[simp] theorem advance_store :
    (live.advance apply).store = run commitStep live.store apply.write.toList := by
  rw [advance, recordAnswer_eq]

@[simp] theorem advance_nextCommit : (live.advance apply).nextCommit = live.nextCommit := by
  rw [advance, recordAnswer_eq]

@[simp] theorem advance_appliedCommit : (live.advance apply).appliedCommit = apply.commit := by
  rw [advance, recordAnswer_eq]

end LiveTablet

/-- A member in its turn whose write agrees is applied and answered from its record. -/
theorem applyItem_eq (hnext : nextPosition live.appliedCommit = some apply.commit)
    (hagrees : ∀ write ∈ apply.write, Agrees live.store write) :
    Worker.applyItem live apply = some (live.advance apply, mapTerminal apply.entry.outcome) := by
  rcases apply with ⟨tablet, commit, kind, identity, now, respond⟩
  cases kind with
  | mutation mutation expected isPersistExpiry =>
    obtain ⟨outcome, happly, hanswer⟩ := hagrees _ rfl
    rcases hstep : live.store.apply mutation now with ⟨answer, after⟩
    rw [hstep] at happly
    cases happly
    simp [Worker.applyItem, LiveTablet.commitPersisted, hnext, hstep, hanswer,
      LiveTablet.advance, ApplyData.write, ApplyData.entry, commitStep, mapTerminal]
  | terminal outcome opcode =>
    simp [Worker.applyItem, LiveTablet.commitTerminal, hnext, LiveTablet.advance,
      ApplyData.write, ApplyData.entry]

/-! ### The ledger of a tablet -/

/-- How a tablet stands to its part of the log and of the pending members: its cursors are at
the ends of the two, and the pending writes will be applied as predicted. -/
structure Ledger (live : LiveTablet) (log pending : List ApplyData) : Prop where
  applied : live.appliedCommit.toNat = log.length
  assigned : live.nextCommit.toNat = (log ++ pending).length
  reachable : ReachableStore live.store
  agrees : Along commitStep Agrees live.store (pending.filterMap ApplyData.write)

/-- The tablet with every assigned position given back. -/
def LiveTablet.settled (live : LiveTablet) : LiveTablet := live.rewindCommit live.appliedCommit

namespace Ledger

variable {live : LiveTablet} {log pending rest : List ApplyData} {apply : ApplyData}

/-- A member that is assigned the next position joins the pending ones. -/
theorem assign (h : Ledger live log pending)
    (hnext : nextPosition live.nextCommit = some apply.commit)
    (hagrees : Along commitStep Agrees live.store
      ((pending ++ [apply]).filterMap ApplyData.write)) :
    apply.commit.toNat = (log ++ pending).length + 1 ∧
      Ledger { live with nextCommit := apply.commit } log (pending ++ [apply]) := by
  have hcommit : apply.commit.toNat = (log ++ pending).length + 1 := by
    rw [nextPosition_eq_some_iff.mp hnext, h.assigned]
  refine ⟨hcommit, h.applied, ?_, h.reachable, hagrees⟩
  simpa [← List.append_assoc] using hcommit

/-- The first pending member is in its turn, and joins the log. -/
theorem advance (h : Ledger live log (apply :: rest))
    (hcommit : apply.commit.toNat = log.length + 1) :
    nextPosition live.appliedCommit = some apply.commit ∧
      (∀ write ∈ apply.write, Agrees live.store write) ∧
      Ledger (live.advance apply) (log ++ [apply]) rest := by
  have hnext : nextPosition live.appliedCommit = some apply.commit :=
    nextPosition_eq_some_iff.mpr (by rw [hcommit, h.applied])
  have hsplit : (apply :: rest).filterMap ApplyData.write =
      apply.write.toList ++ rest.filterMap ApplyData.write := by
    cases hwrite : apply.write <;> simp [hwrite]
  have hagrees := h.agrees
  rw [hsplit, along_append] at hagrees
  refine ⟨hnext, fun write hwrite ↦ ?_, ?_⟩
  · have hfirst := hagrees.1
    rw [Option.mem_def.mp hwrite] at hfirst
    exact hfirst.1
  · constructor
    case applied => simp [hcommit]
    case assigned => simpa using h.assigned
    case reachable =>
      rw [LiveTablet.advance_store]
      exact reachable_run_commitStep h.reachable _
    case agrees =>
      rw [LiveTablet.advance_store]
      exact hagrees.2

theorem settled (h : Ledger live log pending) : Ledger live.settled log [] where
  applied := h.applied
  assigned := by simpa [LiveTablet.settled, LiveTablet.rewindCommit] using h.applied
  reachable := h.reachable
  agrees := trivial

/-- With nothing pending nothing is assigned. -/
theorem settled_eq (h : Ledger live log []) : live.settled = live := by
  have hcursors : live.appliedCommit = live.nextCommit := by
    rw [← UInt64.toNat_inj, h.applied, h.assigned, List.append_nil]
  rcases live with ⟨id, store, nextCommit, appliedCommit, dedup⟩
  cases hcursors
  rfl

end Ledger

/-- The ledgers of all tablets of a worker. -/
structure Balanced (tablets : ExtTreeMap TabletId LiveTablet)
    (log pending : List ApplyData) : Prop where
  ids : ∀ {tablet : TabletId} {live : LiveTablet}, tablets[tablet]? = some live → live.id = tablet
  known : ∀ apply ∈ pending, apply.tablet ∈ tablets
  numbered : ∀ tablet, Numbered (onTablet tablet (log ++ pending))
  ledger : ∀ {tablet : TabletId} {live : LiveTablet}, tablets[tablet]? = some live →
    Ledger live (onTablet tablet log) (onTablet tablet pending)

namespace Balanced

variable {tablets : ExtTreeMap TabletId LiveTablet} {log pending rest : List ApplyData}
  {live : LiveTablet} {apply : ApplyData}

/-- A change to one tablet and to its own members. -/
theorem insert (h : Balanced tablets log pending) {log' pending' : List ApplyData}
    (hlog : ∀ tablet ≠ live.id, onTablet tablet log' = onTablet tablet log)
    (hpending : ∀ tablet ≠ live.id, onTablet tablet pending' = onTablet tablet pending)
    (hknown : ∀ apply ∈ pending', apply ∈ pending ∨ apply.tablet = live.id)
    (hnumbered : Numbered (onTablet live.id (log' ++ pending')))
    (hledger : Ledger live (onTablet live.id log') (onTablet live.id pending')) :
    Balanced (tablets.insert live.id live) log' pending' := by
  constructor
  case ids =>
    intro tablet other hget
    rw [ExtTreeMap.getElem?_insert] at hget
    split_ifs at hget with hsame
    · cases hget
      exact Std.compare_eq_iff_eq.mp hsame
    · exact h.ids hget
  case known =>
    intro apply hmem
    rw [ExtTreeMap.mem_insert, Std.compare_eq_iff_eq]
    rcases hknown apply hmem with hold | hown
    · exact Or.inr (h.known apply hold)
    · exact Or.inl hown.symm
  case numbered =>
    intro tablet
    by_cases hsame : tablet = live.id
    · exact hsame ▸ hnumbered
    · rw [onTablet_append, hlog tablet hsame, hpending tablet hsame, ← onTablet_append]
      exact h.numbered tablet
  case ledger =>
    intro tablet other hget
    rw [ExtTreeMap.getElem?_insert] at hget
    split_ifs at hget with hsame
    · cases hget
      rw [← Std.compare_eq_iff_eq.mp hsame]
      exact hledger
    · have hne : tablet ≠ live.id := fun heq ↦ hsame (Std.compare_eq_iff_eq.mpr heq.symm)
      rw [hlog tablet hne, hpending tablet hne]
      exact h.ledger hget

/-- A member is assigned the next position of its tablet. -/
theorem assign (h : Balanced tablets log pending) (hget : tablets[apply.tablet]? = some live)
    (hnext : nextPosition live.nextCommit = some apply.commit)
    (hagrees : Along commitStep Agrees live.store
      (writesOn apply.tablet (pending ++ [apply]))) :
    Balanced (tablets.insert live.id { live with nextCommit := apply.commit }) log
      (pending ++ [apply]) := by
  have hid := h.ids hget
  have hself : onTablet live.id [apply] = [apply] := by rw [onTablet_singleton, if_pos hid.symm]
  have hown := h.ledger hget
  rw [writesOn, ← hid, onTablet_append, hself] at hagrees
  rw [← hid] at hown
  obtain ⟨hcommit, hledger⟩ := hown.assign hnext hagrees
  have hpending : onTablet live.id (pending ++ [apply]) = onTablet live.id pending ++ [apply] := by
    rw [onTablet_append, hself]
  have hnumbered : Numbered (onTablet live.id (log ++ (pending ++ [apply]))) := by
    rw [onTablet_append, hpending, ← List.append_assoc, ← onTablet_append]
    exact (h.numbered live.id).concat (by rw [hcommit, onTablet_append])
  let assigned : LiveTablet := { live with nextCommit := apply.commit }
  refine @insert _ _ _ assigned h _ _ (fun _ _ ↦ rfl) (fun tablet hne ↦ ?_)
    (fun other hmem ↦ ?_) hnumbered ?_
  · rw [onTablet_append, onTablet_singleton, if_neg (hid ▸ Ne.symm hne), List.append_nil]
  · rcases List.mem_append.mp hmem with hold | hnew
    · exact Or.inl hold
    · exact Or.inr (List.mem_singleton.mp hnew ▸ hid.symm)
  · rw [hpending]
    exact hledger

/-- The first pending member is applied. -/
theorem advance (h : Balanced tablets log (apply :: rest)) :
    ∃ live, tablets[apply.tablet]? = some live ∧
      Worker.applyItem live apply =
        some (live.advance apply, mapTerminal apply.entry.outcome) ∧
      Balanced (tablets.insert (live.advance apply).id (live.advance apply)) (log ++ [apply])
        rest := by
  obtain ⟨live, hget⟩ := Option.isSome_iff_exists.mp
    (ExtTreeMap.mem_iff_isSome_getElem?.mp (h.known apply List.mem_cons_self))
  have hid := h.ids hget
  have hown := h.ledger hget
  have hnumbered := h.numbered apply.tablet
  rw [onTablet_cons, if_pos rfl, List.singleton_append] at hown
  rw [onTablet_append, onTablet_cons, if_pos rfl, List.singleton_append] at hnumbered
  obtain ⟨hnext, hagrees, hledger⟩ := hown.advance hnumbered.commit_eq
  have hlog : onTablet apply.tablet (log ++ [apply]) = onTablet apply.tablet log ++ [apply] := by
    rw [onTablet_append, onTablet_singleton, if_pos rfl]
  refine ⟨live, hget, applyItem_eq hnext hagrees, h.insert ?_ ?_ ?_ ?_ ?_⟩
  · intro tablet hne
    rw [LiveTablet.advance_id, hid] at hne
    rw [onTablet_append, onTablet_singleton, if_neg (Ne.symm hne), List.append_nil]
  · intro tablet hne
    rw [LiveTablet.advance_id, hid] at hne
    rw [onTablet_cons, if_neg (Ne.symm hne), List.nil_append]
  · exact fun other hmem ↦ Or.inl (List.mem_cons_of_mem _ hmem)
  · rw [LiveTablet.advance_id, hid, List.append_assoc]
    exact h.numbered apply.tablet
  · rw [LiveTablet.advance_id, hid, hlog]
    exact hledger

/-- All pending members are given up. -/
theorem settled (h : Balanced tablets log pending) {tablets' : ExtTreeMap TabletId LiveTablet}
    (htablets : ∀ tablet : TabletId,
      tablets'[tablet]? = (tablets[tablet]?).map LiveTablet.settled) :
    Balanced tablets' log [] := by
  have hfrom {tablet : TabletId} {live : LiveTablet} (hget : tablets'[tablet]? = some live) :
      ∃ old, tablets[tablet]? = some old ∧ old.settled = live := by
    rw [htablets] at hget
    exact Option.map_eq_some_iff.mp hget
  constructor
  case ids =>
    intro tablet live hget
    obtain ⟨old, hold, rfl⟩ := hfrom hget
    exact (h.ids hold : old.id = tablet)
  case known => exact List.forall_mem_nil _
  case numbered =>
    intro tablet
    have hnumbered := h.numbered tablet
    rw [onTablet_append] at hnumbered
    rw [List.append_nil]
    exact hnumbered.front
  case ledger =>
    intro tablet live hget
    obtain ⟨old, hold, rfl⟩ := hfrom hget
    exact (h.ledger hold).settled

/-- Without pending members the tablets are settled. -/
theorem settled_eq (h : Balanced tablets log []) (hget : tablets[tablet]? = some live) :
    live.settled = live :=
  Ledger.settled_eq (h.ledger hget)

/-- Stores may change where no pending member writes. -/
theorem withStores (h : Balanced tablets log pending) {sweep : LiveTablet → ObjectStore}
    (hreach : ∀ live : LiveTablet, ReachableStore live.store → ReachableStore (sweep live))
    (hkept : ∀ {tablet : TabletId} {live : LiveTablet}, tablets[tablet]? = some live →
      ∀ write ∈ writesOn tablet pending, ∀ key ∈ write.mutation.keys,
        (sweep live).cell key = live.store.cell key) :
    Balanced (tablets.map fun _ live ↦ { live with store := sweep live }) log pending := by
  constructor
  case ids =>
    intro tablet live hget
    rw [ExtTreeMap.getElem?_map] at hget
    obtain ⟨old, hold, rfl⟩ := Option.map_eq_some_iff.mp hget
    exact (h.ids hold : old.id = tablet)
  case known =>
    intro apply hmem
    rw [ExtTreeMap.mem_map]
    exact h.known apply hmem
  case numbered => exact h.numbered
  case ledger =>
    intro tablet live hget
    rw [ExtTreeMap.getElem?_map] at hget
    obtain ⟨old, hold, rfl⟩ := Option.map_eq_some_iff.mp hget
    have hledger := h.ledger hold
    refine ⟨hledger.applied, hledger.assigned, hreach old hledger.reachable, ?_⟩
    exact (run_commitStep_frame
      (P := fun key ↦ ∃ write ∈ (onTablet tablet pending).filterMap ApplyData.write,
        key ∈ write.mutation.keys)
      (fun write hwrite key hkey ↦ ⟨write, hwrite, hkey⟩)
      (fun key ⟨write, hwrite, hkey⟩ ↦ (hkept hold write hwrite key hkey).symm) hledger.agrees).1

end Balanced

/-! ### Replay -/

/-- The member as its record shows it: the kind of an expiry change is read off the mutation. -/
def ApplyData.recovered (apply : ApplyData) : ApplyData :=
  match apply.kind with
  | .mutation mutation expected _ =>
    { apply with kind := .mutation mutation expected (isPersistExpiry mutation) }
  | .terminal _ _ => apply

/-- The tablet after a record is replayed. -/
def LiveTablet.recoverStep (live : LiveTablet) (apply : ApplyData) : LiveTablet :=
  { live.advance apply.recovered with nextCommit := apply.commit }

@[simp] theorem ApplyData.recovered_commit (apply : ApplyData) :
    apply.recovered.commit = apply.commit := by
  unfold ApplyData.recovered
  split <;> rfl

@[simp] theorem ApplyData.recovered_identity (apply : ApplyData) :
    apply.recovered.identity = apply.identity := by
  unfold ApplyData.recovered
  split <;> rfl

/-- The answer is the recorded one. -/
@[simp] theorem ApplyData.recovered_outcome (apply : ApplyData) :
    apply.recovered.entry.outcome = apply.entry.outcome := by
  rcases apply with ⟨tablet, commit, kind, identity, now, respond⟩
  cases kind <;> rfl

/-- Cursors play no part in the sessions. -/
theorem LiveTablet.recordAnswer_nextCommit (live : LiveTablet) (commit : CommitPosition)
    (identity : Option MutationIdentity) (entry : DedupEntry) :
    ({ live with nextCommit := commit }.installFor identity entry).acknowledge identity =
      { (live.installFor identity entry).acknowledge identity with nextCommit := commit } := by
  cases identity with
  | none => rfl
  | some marker =>
    simp only [installFor, installDedup, acknowledge, advanceSessionFloor,
      ExtTreeMap.getElem?_insert_self]

theorem LiveTablet.recoverStep_eq (live : LiveTablet) (apply : ApplyData) :
    live.recoverStep apply =
      ({ live with
        store := run commitStep live.store apply.recovered.write.toList
        nextCommit := apply.commit
        appliedCommit := apply.commit }.installFor apply.recovered.identity
          apply.recovered.entry).acknowledge apply.recovered.identity := by
  rw [recoverStep, advance, ApplyData.recovered_commit]
  exact (recordAnswer_nextCommit _ _ _ _).symm

/-- A record is replayed exactly when it is in its turn and its write agrees. -/
theorem replayRecord_eq_ok_iff {after : LiveTablet} :
    Worker.replayRecord live apply.record = (.ok (), after) ↔
      nextPosition live.appliedCommit = some apply.commit ∧
        (∀ write ∈ apply.recovered.write, Agrees live.store write) ∧
        live.recoverStep apply = after := by
  rcases apply with ⟨tablet, commit, kind, identity, now, respond⟩
  by_cases hturn : nextPosition live.appliedCommit = some commit
  · have hchain : live.checkChain commit = .ok () := by simp [LiveTablet.checkChain, hturn]
    cases kind with
    | mutation mutation expected flag =>
      simp only [Worker.replayRecord, ApplyData.record, LiveTablet.applyRecoveredMutation, hchain,
        hturn, LiveTablet.recoverStep_eq, ApplyData.recovered, ApplyData.write,
        ApplyData.entry, Option.mem_def, Option.some.injEq, forall_eq', true_and, Agrees]
      rcases hstep : live.store.apply mutation now with ⟨answer, store⟩
      rcases answer with outcome | error | _
      · cases hanswer : outcomeFor mutation outcome (isPersistExpiry mutation) with
        | none => simp [hanswer]
        | some result =>
          by_cases hsame : result = expected
          · simp [hanswer, hsame, commitStep, hstep]
          · simp [hanswer, hsame]
      · simp
      · simp
    | terminal outcome opcode =>
      simp [Worker.replayRecord, ApplyData.record, LiveTablet.installRecoveredOutcome, hchain,
        hturn, LiveTablet.recoverStep_eq, ApplyData.recovered, ApplyData.write,
        ApplyData.entry]
  · obtain ⟨error, hchain⟩ := checkChain_of_ne hturn
    cases kind <;>
      simp [Worker.replayRecord, ApplyData.record, LiveTablet.applyRecoveredMutation,
        LiveTablet.installRecoveredOutcome, hchain, hturn]

/-- The record can be replayed: it is in its turn and its write agrees. -/
def Replayable (live : LiveTablet) (apply : ApplyData) : Prop :=
  nextPosition live.appliedCommit = some apply.commit ∧
    ∀ write ∈ apply.recovered.write, Agrees live.store write

/-- A replay is a run of single replays, each of which must succeed. -/
theorem replay_eq_some_iff {after : LiveTablet} :
    Worker.replay (applies.map ApplyData.record) live = some after ↔
      Along LiveTablet.recoverStep Replayable live applies ∧
        run LiveTablet.recoverStep live applies = after := by
  induction applies generalizing live with
  | nil => simp [Worker.replay, Along]
  | cons apply rest ih =>
    simp only [List.map_cons, Worker.replay, Along, run_cons]
    by_cases hplay : Replayable live apply
    · rw [replayRecord_eq_ok_iff.mpr ⟨hplay.1, hplay.2, rfl⟩]
      simp only [ih, hplay, true_and]
    · rcases hrecord : Worker.replayRecord live apply.record with ⟨answer | error | _, next⟩
      · obtain ⟨hturn, hagrees, -⟩ := replayRecord_eq_ok_iff.mp hrecord
        exact absurd ⟨hturn, hagrees⟩ hplay
      · simp [hplay]
      · simp [hplay]

theorem run_recoverStep_id (live : LiveTablet) (applies : List ApplyData) :
    (run LiveTablet.recoverStep live applies).id = live.id :=
  run_invariant (P := fun other : LiveTablet ↦ other.id = live.id)
    (fun other apply h ↦ by simp [LiveTablet.recoverStep, h]) rfl applies

variable {log : List ApplyData}

/-- A replay of numbered records leaves the tablet at their end with nothing assigned. -/
theorem Ledger.recover (h : Ledger live log []) (hnumbered : Numbered (log ++ applies)) :
    Ledger (run LiveTablet.recoverStep live applies) (log ++ applies) [] := by
  induction applies generalizing live log with
  | nil => simpa using h
  | cons apply rest ih =>
    have hcommit := hnumbered.commit_eq
    have hnext : Ledger (live.recoverStep apply) (log ++ [apply]) [] := by
      constructor
      case applied => simp [LiveTablet.recoverStep, hcommit]
      case assigned => simp [LiveTablet.recoverStep, hcommit]
      case reachable =>
        rw [LiveTablet.recoverStep, LiveTablet.advance_store]
        exact reachable_run_commitStep h.reachable _
      case agrees => trivial
    rw [List.append_cons] at hnumbered ⊢
    exact ih hnext hnumbered

theorem ledger_new (tablet : TabletId) : Ledger (.new tablet) [] [] where
  applied := rfl
  assigned := rfl
  reachable := Reachable.refl _
  agrees := trivial

theorem mem_of_mapM_eq_some {α β : Type} {f : α → Option β} {items : List α} {results : List β}
    (h : items.mapM f = some results) :
    ∀ result ∈ results, ∃ item ∈ items, f item = some result := by
  induction items generalizing results with
  | nil =>
    cases h
    simp
  | cons item rest ih =>
    simp only [List.mapM_cons, Option.bind_eq_bind, Option.bind_eq_some_iff, Option.pure_def,
      Option.some.injEq] at h
    obtain ⟨first, hfirst, others, hothers, rfl⟩ := h
    simp only [List.mem_cons, forall_eq_or_imp, exists_eq_or_imp]
    exact ⟨Or.inl hfirst, fun result hmem ↦ Or.inr (ih hothers result hmem)⟩

variable {tablets : List (TabletId × LiveTablet)}

/-- The tablets a recovery starts with are those listed, each replayed from its own records. -/
theorem recover_get {ids : List TabletId} (h : Worker.recover ids log = some tablets)
    (hget : (ExtTreeMap.ofList tablets)[tablet]? = some live) :
    Along LiveTablet.recoverStep Replayable (.new tablet) (onTablet tablet log) ∧
      run LiveTablet.recoverStep (.new tablet) (onTablet tablet log) = live := by
  obtain ⟨id, -, hid⟩ := mem_of_mapM_eq_some h _ (LastWins.mem_of_getElem?_ofList hget)
  obtain ⟨other, hreplay, hpair⟩ := Option.map_eq_some_iff.mp hid
  cases hpair
  exact replay_eq_some_iff.mp hreplay

theorem recover_balanced {ids : List TabletId} (h : Worker.recover ids log = some tablets)
    (hnumbered : ∀ tablet, Numbered (onTablet tablet log)) :
    Balanced (.ofList tablets) log [] := by
  constructor
  case ids =>
    intro tablet live hget
    obtain ⟨-, rfl⟩ := recover_get h hget
    exact run_recoverStep_id _ _
  case known => exact List.forall_mem_nil _
  case numbered => simpa using hnumbered
  case ledger =>
    intro tablet live hget
    obtain ⟨-, rfl⟩ := recover_get h hget
    exact (ledger_new tablet).recover (hnumbered tablet)

end Kivi.Engine
