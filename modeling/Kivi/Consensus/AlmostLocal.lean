import Kivi.Library.Runs

/-!
# Almost-local reads

A replica serves strong reads in batches. The first read forms a batch, asks a leader for a boundary
in the log and waits until the replica has applied it; reads that arrive meanwhile join. A leader
answers with a fence that it commits, or with its own commit index if that is past the position at
which the batch was formed.

Raft is one committed log that replicas apply in order. Everything else is as loose as it can be in
a cluster: who believes to lead, how far a replica knows the log to be committed, when answers
arrive and which of them are lost. `alr_reads_linearizable` says that a read runs on a state with
every write completed before it was invoked, as long as two things hold: a leader that answers with
its own commit index knows every completed write, and a read that joins a batch whose boundary is
already chosen was not invoked after a write behind that boundary was completed. The code checks
neither.
-/

namespace Kivi.Consensus

open Library.Runs

/-! ### Replicas -/

abbrev NodeId := UInt64

/-- What reads see of a committed entry. -/
inductive AlrEntry where
  | write
  | fence (requester : NodeId) (batch : UInt64)
  | other
deriving DecidableEq

/-- The paths on which almost-local reads are served. -/
inductive AlrPath where
  | sync
  | subsumed
deriving DecidableEq

/-- A read, with the indices of the writes that were completed before it was invoked. -/
structure AlrRead where
  number : Nat
  before : List Nat
deriving DecidableEq

/-- How far a batch is. -/
inductive AlrStage where
  | reserved
  | formed (formation : Nat)
  | fencing (formation : Nat)
  | ordered (formation boundary : Nat) (subsumed : Bool)
deriving DecidableEq

/-- The batch under way: its number, the read that formed it and those that joined. -/
structure AlrBatch where
  number : UInt64
  initiator : AlrRead
  waiters : List AlrRead
  stage : AlrStage
deriving DecidableEq

namespace AlrBatch

def readers (batch : AlrBatch) : List AlrRead := batch.initiator :: batch.waiters

end AlrBatch

/-- One replica: the last index it has applied, the last one it knows to be committed, whether it
believes to lead, and its batches. Reads in `ready` have been released by their batch and are
about to run. -/
structure AlrReplica where
  applied : Option Nat
  committed : Nat
  leads : Bool
  batchSeq : UInt64
  inflight : Option AlrBatch
  ready : List (AlrRead × AlrPath)
deriving DecidableEq

namespace AlrReplica

def new : AlrReplica := ⟨none, 0, false, 0, none, []⟩

variable (replica : AlrReplica)

/-- The batch counter stops at its largest value. -/
def nextBatch : UInt64 :=
  if replica.batchSeq = UInt64.ofNat (2 ^ 64 - 1) then replica.batchSeq else replica.batchSeq + 1

/-- A read joins the batch under way or forms one. -/
def joinBatch (read : AlrRead) : AlrReplica :=
  match replica.inflight with
  | some batch =>
    { replica with inflight := some { batch with waiters := batch.waiters ++ [read] } }
  | none =>
    { replica with
      batchSeq := replica.nextBatch
      inflight := some ⟨replica.nextBatch, read, [], .reserved⟩ }

def setStage (batch : AlrBatch) (stage : AlrStage) : AlrReplica :=
  { replica with inflight := some { batch with stage } }

/-- The batch under way is given up; its reads take the barrier. -/
def failBatch : AlrReplica := { replica with inflight := none }

/-- The reads of a batch are released. -/
def completeBatch (batch : AlrBatch) (path : AlrPath) : AlrReplica :=
  { replica with
    inflight := none
    ready := replica.ready ++ batch.readers.map fun read ↦ (read, path) }

/-- The index that the replica has applied, as waits compare it. -/
def appliedIndex : Nat := replica.applied.getD 0

end AlrReplica

/-! ### The cluster -/

/-- A read that ran: where, on which path, and on what state. -/
structure AlrServed where
  node : NodeId
  read : AlrRead
  path : AlrPath
  applied : Option Nat
deriving DecidableEq

/-- The committed log, the replicas, the indices of completed writes, the reads invoked and those
that ran. -/
structure AlrWorld where
  log : List AlrEntry
  replicas : NodeId → AlrReplica
  completed : List Nat
  reads : List AlrRead
  served : List AlrServed

inductive AlrEvent where
  | commit (entry : AlrEntry)
  | learn (node : NodeId) (index : Nat)
  | apply (node : NodeId) (index : Nat)
  | believe (node : NodeId) (leads : Bool)
  | complete (node : NodeId) (index : Nat)
  | invoke
  | join (node : NodeId) (number : Nat)
  | form (node : NodeId)
  | resolve (node leader : NodeId)
  | fenced (node : NodeId)
  | finish (node : NodeId)
  | fail (node : NodeId)
  | serve (node : NodeId) (position : Nat)
  | restart (node : NodeId) (applied : Option Nat) (committed : Nat)
deriving DecidableEq

namespace AlrWorld

/-- A group with its first membership entry. -/
def new : AlrWorld := ⟨[.other], fun _ ↦ .new, [], [], []⟩

def setReplica (world : AlrWorld) (node : NodeId) (replica : AlrReplica) : AlrWorld :=
  { world with replicas := Function.update world.replicas node replica }

/-- What a leader answers to a batch formed at the given index; nothing if it is behind. -/
def resolveAlrBoundary (leader : AlrReplica) (formation : Nat) : Option AlrStage :=
  if leader.committed < formation then none
  else if formation < leader.committed then some (.ordered formation leader.committed true)
  else some (.fencing formation)

/-- One step of the cluster; a step that does not apply changes nothing. -/
def step (world : AlrWorld) : AlrEvent → AlrWorld
  | .commit entry => { world with log := world.log ++ [entry] }
  | .learn node index =>
    let replica := world.replicas node
    if replica.committed ≤ index ∧ index < world.log.length then
      world.setReplica node { replica with committed := index }
    else world
  | .apply node index =>
    let replica := world.replicas node
    if replica.appliedIndex ≤ index ∧ index < world.log.length then
      world.setReplica node { replica with applied := some index }
    else world
  | .believe node leads => world.setReplica node { world.replicas node with leads }
  | .complete node index =>
    -- The leader has applied the write when its proposal is answered.
    if world.log[index]? = some .write ∧ index ≤ (world.replicas node).appliedIndex then
      { world with completed := index :: world.completed }
    else world
  | .invoke => { world with reads := world.reads ++ [⟨world.reads.length, world.completed⟩] }
  | .join node number =>
    match world.reads[number]? with
    | some read => world.setReplica node ((world.replicas node).joinBatch read)
    | none => world
  | .form node =>
    let replica := world.replicas node
    match replica.inflight with
    | some ⟨number, initiator, waiters, .reserved⟩ =>
      world.setReplica node (replica.setStage ⟨number, initiator, waiters, .reserved⟩
        (.formed replica.appliedIndex))
    | _ => world
  | .resolve node leader =>
    let replica := world.replicas node
    match replica.inflight with
    | some ⟨number, initiator, waiters, .formed formation⟩ =>
      if (world.replicas leader).leads then
        match resolveAlrBoundary (world.replicas leader) formation with
        | some stage =>
          world.setReplica node (replica.setStage ⟨number, initiator, waiters, .formed formation⟩
            stage)
        | none => world.setReplica node replica.failBatch
      else world
    | _ => world
  | .fenced node =>
    let replica := world.replicas node
    match replica.inflight with
    | some ⟨number, initiator, waiters, .fencing formation⟩ =>
      { world.setReplica node (replica.setStage ⟨number, initiator, waiters, .fencing formation⟩
          (.ordered formation world.log.length false)) with
        log := world.log ++ [.fence node number] }
    | _ => world
  | .finish node =>
    let replica := world.replicas node
    match replica.inflight with
    | some ⟨number, initiator, waiters, .ordered formation boundary subsumed⟩ =>
      if formation ≤ boundary ∧ boundary ≤ replica.appliedIndex then
        world.setReplica node (replica.completeBatch
          ⟨number, initiator, waiters, .ordered formation boundary subsumed⟩
          (if subsumed then .subsumed else .sync))
      else world
    | _ => world
  | .fail node => world.setReplica node (world.replicas node).failBatch
  | .serve node position =>
    let replica := world.replicas node
    match replica.ready[position]? with
    | some (read, path) =>
      { world.setReplica node { replica with ready := replica.ready.eraseIdx position } with
        served := world.served ++ [⟨node, read, path, replica.applied⟩] }
    | none => world
  | .restart node applied committed =>
    -- Batches and reads under way are lost, and applied entries may have to be applied again.
    if applied.getD 0 < world.log.length ∧ committed < world.log.length then
      world.setReplica node ⟨applied, committed, false, 0, none, []⟩
    else world

end AlrWorld

/-! ### What holds along a run -/

/-- The reads of a replica require completed writes only; the boundary of an ordered batch covers
what its reads require, and so does the state of the replica for released reads. -/
structure AlrReplica.Sound (completed : List Nat) (replica : AlrReplica) : Prop where
  known : ∀ batch, replica.inflight = some batch → ∀ read ∈ batch.readers,
    ∀ index ∈ read.before, index ∈ completed
  covered : ∀ batch, replica.inflight = some batch → ∀ formation boundary subsumed,
    batch.stage = .ordered formation boundary subsumed → ∀ read ∈ batch.readers,
      ∀ index ∈ read.before, index ≤ boundary
  ready : ∀ entry ∈ replica.ready, ∀ index ∈ entry.1.before,
    index ∈ completed ∧ index ≤ replica.appliedIndex

namespace AlrReplica.Sound

variable {completed : List Nat} {replica : AlrReplica}

theorem idle (completed : List Nat) (applied : Option Nat) (committed : Nat) (leads : Bool)
    (batchSeq : UInt64) :
    Sound completed ⟨applied, committed, leads, batchSeq, none, []⟩ where
  known _ hbatch := by cases hbatch
  covered _ hbatch := by cases hbatch
  ready _ hmem := absurd hmem List.not_mem_nil

section

variable (h : Sound completed replica)
include h

theorem mono {more : List Nat} (hmore : ∀ index ∈ completed, index ∈ more) :
    Sound more replica where
  known batch hbatch read hread index hindex := hmore index (h.known batch hbatch read hread index
    hindex)
  covered := h.covered
  ready entry hentry index hindex := by
    obtain ⟨hmem, hle⟩ := h.ready entry hentry index hindex
    exact ⟨hmore index hmem, hle⟩

theorem apply {index : Nat} (hindex : replica.appliedIndex ≤ index) :
    Sound completed { replica with applied := some index } where
  known := h.known
  covered := h.covered
  ready entry hentry write hwrite := by
    obtain ⟨hmem, hle⟩ := h.ready entry hentry write hwrite
    exact ⟨hmem, hle.trans hindex⟩

theorem failBatch : Sound completed replica.failBatch where
  known _ hbatch := by cases hbatch
  covered _ hbatch := by cases hbatch
  ready := h.ready

/-- A stage in which a batch waits covers nothing yet. -/
theorem setStage {batch : AlrBatch} (hbatch : replica.inflight = some batch) {stage : AlrStage}
    (hstage : ∀ formation boundary subsumed, stage = .ordered formation boundary subsumed →
      ∀ index ∈ completed, index ≤ boundary) :
    Sound completed (replica.setStage batch stage) where
  known other hother := by
    cases hother
    exact h.known batch hbatch
  covered other hother formation boundary subsumed hordered read hread index hindex := by
    cases hother
    exact hstage formation boundary subsumed hordered index
      (h.known batch hbatch read hread index hindex)
  ready := h.ready

/-- A read may join the batch under way if the boundary of the batch covers what it must see. -/
theorem joinBatch {read : AlrRead} (hread : ∀ index ∈ read.before, index ∈ completed)
    (hcovered : ∀ batch, replica.inflight = some batch → ∀ formation boundary subsumed,
      batch.stage = .ordered formation boundary subsumed →
        ∀ index ∈ read.before, index ≤ boundary) : Sound completed (replica.joinBatch read) := by
  unfold AlrReplica.joinBatch
  cases hinflight : replica.inflight with
  | none =>
    constructor
    · intro batch hbatch reader hreader index hindex
      cases hbatch
      obtain rfl := List.mem_singleton.mp hreader
      exact hread index hindex
    · intro batch hbatch formation boundary subsumed hordered
      cases hbatch
      cases hordered
    · exact h.ready
  | some batch =>
    have hreaders (reader : AlrRead)
        (hreader : reader ∈
          ({ batch with waiters := batch.waiters ++ [read] } : AlrBatch).readers) :
        reader ∈ batch.readers ∨ reader = read := by
      simp only [AlrBatch.readers, List.mem_cons, List.mem_append, List.not_mem_nil,
        or_false] at hreader ⊢
      rwa [← or_assoc] at hreader
    constructor
    · intro other hother reader hreader index hindex
      cases hother
      rcases hreaders reader hreader with hold | rfl
      · exact h.known batch hinflight reader hold index hindex
      · exact hread index hindex
    · intro other hother formation boundary subsumed hordered reader hreader index hindex
      cases hother
      rcases hreaders reader hreader with hold | rfl
      · exact h.covered batch hinflight formation boundary subsumed hordered reader hold index
          hindex
      · exact hcovered batch hinflight formation boundary subsumed hordered index hindex
    · exact h.ready

/-- When the boundary is applied, the state covers what the reads of the batch require. -/
theorem completeBatch {batch : AlrBatch} (hbatch : replica.inflight = some batch)
    {formation boundary : Nat} {subsumed : Bool}
    (hstage : batch.stage = .ordered formation boundary subsumed)
    (happlied : boundary ≤ replica.appliedIndex) (path : AlrPath) :
    Sound completed (replica.completeBatch batch path) where
  known _ hother := by cases hother
  covered _ hother := by cases hother
  ready entry hentry index hindex := by
    rcases List.mem_append.mp hentry with hold | hnew
    · exact h.ready entry hold index hindex
    · obtain ⟨read, hread, rfl⟩ := List.mem_map.mp hnew
      have hle := h.covered batch hbatch formation boundary subsumed hstage read hread index hindex
      exact ⟨h.known batch hbatch read hread index hindex, hle.trans happlied⟩

theorem serve (position : Nat) :
    Sound completed { replica with ready := replica.ready.eraseIdx position } where
  known := h.known
  covered := h.covered
  ready entry hentry := h.ready entry (List.mem_of_mem_eraseIdx hentry)

end

end AlrReplica.Sound

namespace AlrWorld

/-- All indices are at most the bound. -/
def coveredBy (indices : List Nat) (bound : Nat) : Bool := indices.all fun index ↦ index ≤ bound

/-- The step keeps reads behind completed writes: a leader that answers with its own commit index
knows every completed write, and a read joins an ordered batch only if its boundary covers the
writes completed before the read was invoked. -/
def timely (world : AlrWorld) : AlrEvent → Bool
  | .join node number =>
    match (world.replicas node).inflight, world.reads[number]? with
    | some ⟨_, _, _, .ordered _ boundary _⟩, some read => coveredBy read.before boundary
    | _, _ => true
  | .resolve node leader =>
    match (world.replicas node).inflight with
    | some ⟨_, _, _, .formed formation⟩ =>
      decide ((world.replicas leader).committed ≤ formation) ||
        coveredBy world.completed (world.replicas leader).committed
    | _ => true
  | _ => true

/-- The read ran on a state that contains every write completed before it was invoked. -/
def Linearized (served : AlrServed) : Prop :=
  ∀ index ∈ served.read.before, ∃ applied, served.applied = some applied ∧ index ≤ applied

structure Sound (world : AlrWorld) : Prop where
  first : world.log[0]? = some .other
  completed : ∀ index ∈ world.completed, 0 < index ∧ index < world.log.length
  reads : ∀ read ∈ world.reads, ∀ index ∈ read.before, index ∈ world.completed
  replicas : ∀ node, (world.replicas node).Sound world.completed
  served : ∀ served ∈ world.served, Linearized served

theorem coveredBy_iff {indices : List Nat} {bound : Nat} :
    coveredBy indices bound = true ↔ ∀ index ∈ indices, index ≤ bound := by
  simp [coveredBy]

variable {world : AlrWorld}

section

variable (h : world.Sound)
include h

theorem Sound.setReplica {node : NodeId} {replica : AlrReplica}
    (hreplica : replica.Sound world.completed) : (world.setReplica node replica).Sound where
  first := h.first
  completed := h.completed
  reads := h.reads
  replicas other := by
    by_cases hother : other = node
    · subst hother
      simpa [AlrWorld.setReplica] using hreplica
    · simpa [AlrWorld.setReplica, hother] using h.replicas other
  served := h.served

/-- Committing an entry only makes the log longer. -/
theorem Sound.commit (entry : AlrEntry) :
    ({ world with log := world.log ++ [entry] } : AlrWorld).Sound where
  first := by
    obtain ⟨hpos, -⟩ := List.getElem?_eq_some_iff.mp h.first
    rw [List.getElem?_append_left hpos]
    exact h.first
  completed index hindex := by
    obtain ⟨hpos, hlt⟩ := h.completed index hindex
    exact ⟨hpos, hlt.trans (by simp)⟩
  reads := h.reads
  replicas := h.replicas
  served := h.served

theorem Sound.complete {index : Nat} (hwrite : world.log[index]? = some .write) :
    ({ world with completed := index :: world.completed } : AlrWorld).Sound where
  first := h.first
  completed other hother := by
    rcases List.mem_cons.mp hother with rfl | hother
    · refine ⟨Nat.pos_of_ne_zero ?_, (List.getElem?_eq_some_iff.mp hwrite).1⟩
      rintro rfl
      rw [h.first] at hwrite
      cases hwrite
    · exact h.completed other hother
  reads read hread other hother := List.mem_cons_of_mem _ (h.reads read hread other hother)
  replicas node := (h.replicas node).mono fun _ ↦ List.mem_cons_of_mem _
  served := h.served

theorem Sound.invoke (number : Nat) :
    ({ world with reads := world.reads ++ [⟨number, world.completed⟩] } : AlrWorld).Sound where
  first := h.first
  completed := h.completed
  reads read hread := by
    rcases List.mem_append.mp hread with hread | hread
    · exact h.reads read hread
    · obtain rfl := List.mem_singleton.mp hread
      exact fun _ ↦ id
  replicas := h.replicas
  served := h.served

/-- A released read runs on a state that covers it. -/
theorem Sound.serve {node : NodeId} {position : Nat} {read : AlrRead} {path : AlrPath}
    (hready : (world.replicas node).ready[position]? = some (read, path)) :
    Linearized ⟨node, read, path, (world.replicas node).applied⟩ := by
  intro index hindex
  obtain ⟨hmem, hle⟩ := (h.replicas node).ready _ (List.mem_of_getElem? hready) index hindex
  have hpos := (h.completed index hmem).1
  cases happlied : (world.replicas node).applied with
  | none =>
    rw [AlrReplica.appliedIndex, happlied, Option.getD_none] at hle
    omega
  | some applied =>
    rw [AlrReplica.appliedIndex, happlied, Option.getD_some] at hle
    exact ⟨applied, rfl, hle⟩

theorem Sound.resolve {node leader : NodeId} {batch : AlrBatch}
    (hbatch : (world.replicas node).inflight = some batch) {formation : Nat} {stage : AlrStage}
    (hstage : resolveAlrBoundary (world.replicas leader) formation = some stage)
    (htimely : formation < (world.replicas leader).committed →
      ∀ index ∈ world.completed, index ≤ (world.replicas leader).committed) :
    (world.setReplica node ((world.replicas node).setStage batch stage)).Sound := by
  refine h.setReplica ((h.replicas node).setStage hbatch ?_)
  rintro formation' boundary subsumed rfl
  unfold resolveAlrBoundary at hstage
  split_ifs at hstage with hbehind hahead
  · cases hstage
    exact htimely hahead
  · cases hstage

/-- The fence is committed behind every completed write. -/
theorem Sound.fenced {node : NodeId} {batch : AlrBatch}
    (hbatch : (world.replicas node).inflight = some batch) (formation : Nat) (entry : AlrEntry) :
    ({ world.setReplica node ((world.replicas node).setStage batch
        (.ordered formation world.log.length false)) with
      log := world.log ++ [entry] } : AlrWorld).Sound := by
  refine Sound.commit (h.setReplica ((h.replicas node).setStage hbatch ?_)) entry
  rintro formation' boundary subsumed hordered index hindex
  cases hordered
  exact (h.completed index hindex).2.le

/-- Every timely step keeps the promises of the leaders, the batches and the reads. -/
theorem Sound.step {event : AlrEvent} (htimely : world.timely event = true) :
    (world.step event).Sound := by
  cases event with
  | commit entry => exact h.commit entry
  | learn node index =>
    dsimp only [AlrWorld.step]
    split
    · exact h.setReplica ⟨(h.replicas node).known, (h.replicas node).covered,
        (h.replicas node).ready⟩
    · exact h
  | apply node index =>
    dsimp only [AlrWorld.step]
    split
    next hnext => exact h.setReplica ((h.replicas node).apply hnext.1)
    next => exact h
  | believe node leads =>
    exact h.setReplica ⟨(h.replicas node).known, (h.replicas node).covered,
      (h.replicas node).ready⟩
  | complete node index =>
    dsimp only [AlrWorld.step]
    split
    next hwrite => exact h.complete hwrite.1
    next => exact h
  | invoke => exact h.invoke _
  | join node number =>
    dsimp only [AlrWorld.step]
    split
    next read hread =>
      refine h.setReplica ((h.replicas node).joinBatch
        (h.reads read (List.mem_of_getElem? hread)) ?_)
      rintro ⟨batch, initiator, waiters, stage⟩ hbatch formation boundary subsumed rfl
      simpa only [timely, hbatch, hread, coveredBy_iff] using htimely
    next => exact h
  | form node =>
    dsimp only [AlrWorld.step]
    split
    next hbatch =>
      refine h.setReplica ((h.replicas node).setStage hbatch ?_)
      intro _ _ _ hordered
      cases hordered
    next => exact h
  | resolve node leader =>
    dsimp only [AlrWorld.step]
    split
    next formation hbatch =>
      split
      · split
        next stage hstage =>
          refine h.resolve hbatch hstage fun hahead ↦ ?_
          simp only [timely, hbatch, Bool.or_eq_true, decide_eq_true_eq, coveredBy_iff] at htimely
          exact htimely.resolve_left (Nat.not_le.mpr hahead)
        next => exact h.setReplica (h.replicas node).failBatch
      · exact h
    next => exact h
  | fenced node =>
    dsimp only [AlrWorld.step]
    split
    next formation hbatch => exact h.fenced hbatch formation _
    next => exact h
  | finish node =>
    dsimp only [AlrWorld.step]
    split
    next hbatch =>
      split
      next hcovered =>
        exact h.setReplica ((h.replicas node).completeBatch hbatch rfl hcovered.2 _)
      next => exact h
    next => exact h
  | fail node => exact h.setReplica (h.replicas node).failBatch
  | serve node position =>
    dsimp only [AlrWorld.step]
    split
    next read path hready =>
      have hset : (world.setReplica node { world.replicas node with
          ready := (world.replicas node).ready.eraseIdx position }).Sound :=
        h.setReplica ((h.replicas node).serve position)
      refine ⟨hset.first, hset.completed, hset.reads, hset.replicas, fun served hserved ↦ ?_⟩
      rcases List.mem_append.mp hserved with hserved | hserved
      · exact h.served served hserved
      · obtain rfl := List.mem_singleton.mp hserved
        exact h.serve hready
    next => exact h
  | restart node applied committed =>
    dsimp only [AlrWorld.step]
    split
    · exact h.setReplica (AlrReplica.Sound.idle _ _ _ _ _)
    · exact h

end

theorem sound_new : new.Sound where
  first := rfl
  completed _ hmem := absurd hmem List.not_mem_nil
  reads _ hmem := absurd hmem List.not_mem_nil
  replicas _ := AlrReplica.Sound.idle _ _ _ _ _
  served _ hmem := absurd hmem List.not_mem_nil

/-- Along every run of timely steps, an almost-local read runs on a state that contains every write
completed before it was invoked. -/
theorem alr_reads_linearizable {events : List AlrEvent}
    (htimely : Along step (fun world event ↦ world.timely event = true) new events) :
    ∀ served ∈ (run step new events).served, Linearized served :=
  (run_invariant_along (fun _ _ hevent hsound ↦ hsound.step hevent) sound_new htimely).served

/-- Node 1 leads and completes a write. -/
def firstWrite : List AlrEvent :=
  [.believe 1 true, .commit .write, .learn 1 1, .apply 1 1, .complete 1 1]

/-- Node 2 reads twice: behind the write, and behind a fence. -/
def twoReads : List AlrEvent :=
  [.invoke, .join 2 0, .form 2, .resolve 2 1, .apply 2 1, .finish 2, .serve 2 0,
    .invoke, .join 2 1, .form 2, .resolve 2 1, .fenced 2, .apply 2 2, .finish 2, .serve 2 0]

/-- Both reads run behind the write: one on the leader's word, one on the fence. -/
theorem two_reads_linearizable :
    (run step new (firstWrite ++ twoReads)).served =
        [⟨2, ⟨0, [1]⟩, .subsumed, some 1⟩, ⟨2, ⟨1, [1]⟩, .sync, some 2⟩] ∧
      ∀ served ∈ (run step new (firstWrite ++ twoReads)).served, Linearized served :=
  ⟨by decide, alr_reads_linearizable (by decide)⟩

/-- Node 2 is elected and completes a write; node 1 does not know and answers node 3. -/
def deposedLeader : List AlrEvent :=
  [.believe 2 true, .commit .write, .learn 2 2, .apply 2 2, .complete 2 2,
    .invoke, .join 3 0, .form 3, .resolve 3 1, .apply 3 1, .finish 3, .serve 3 0]

/-- A write is completed behind the fence of node 3 before node 3 has applied the fence, and a read
that follows the write joins. -/
def lateJoin : List AlrEvent :=
  [.apply 3 1, .invoke, .join 3 0, .form 3, .resolve 3 1, .fenced 3,
    .commit .write, .learn 1 3, .apply 1 3, .complete 1 3,
    .invoke, .join 3 1, .apply 3 2, .finish 3, .serve 3 1]

/-- Both reads miss a write that was completed before they were invoked. -/
theorem alr_reads_miss_writes :
    (run step new (firstWrite ++ deposedLeader)).served =
        [⟨3, ⟨0, [2, 1]⟩, .subsumed, some 1⟩] ∧
      ¬Linearized ⟨3, ⟨0, [2, 1]⟩, .subsumed, some 1⟩ ∧
      (run step new (firstWrite ++ lateJoin)).served = [⟨3, ⟨1, [3, 1]⟩, .sync, some 2⟩] ∧
      ¬Linearized ⟨3, ⟨1, [3, 1]⟩, .sync, some 2⟩ := by
  refine ⟨by decide, fun hall ↦ ?_, by decide, fun hall ↦ ?_⟩
  · obtain ⟨applied, happlied, hle⟩ := hall 2 (by decide)
    cases happlied
    omega
  · obtain ⟨applied, happlied, hle⟩ := hall 3 (by decide)
    cases happlied
    omega

end AlrWorld

end Kivi.Consensus
