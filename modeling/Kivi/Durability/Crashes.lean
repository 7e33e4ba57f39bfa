import Kivi.Durability.LaneCrashes
import Kivi.Library.Crc

/-!
# Crashes of a lane

Processes start, append to the lane and crash, also inside an append. A crash leaves of every file
what was synced and any part of the rest that follows it, and that is then stable. The files that
are there survive: a directory entry is durable once the file is created.

Two defects make recovery fail after such runs. A crash inside a rotation can leave a file that has
no whole header. Recovery empties it and stays on it, and the next append writes to it without a
header (`acknowledged_lost_after_torn_rotation`). And a batch write that fails on a full disk leaves
its bytes behind, the lane stays writable, and the next batch follows them
(`acknowledged_lost_after_full_disk`). A run without these appends keeps everything that was
acknowledged (`recovery_of_crashes`, `recovery_of_failures`).
-/

namespace Kivi.Durability

open Library Library.Runs

/-- The files, the lane of the running process, and what recovery has to return: the records that
the last recovery returned and those that were acknowledged since. The last field has the batches
that were handed to the lane since then and not acknowledged. -/
structure WalWorld where
  files : LaneDirectory
  lane : Option LocalWalLane
  incarnation : UInt64
  settled : List RecoveredRecord
  acknowledged : List (UInt64 × Batch)
  unanswered : List Batch

def WalWorld.initial : WalWorld := ⟨∅, none, 0, [], [], []⟩

inductive WalEvent where
  | start
  | append (batch : Batch)
  | crash (pending : Option (Batch × IoScript)) (keep : UInt64 → Nat)

/-- An append may also fail, and the process goes on. -/
inductive FaultyEvent where
  | event (event : WalEvent)
  | fail (batch : Batch) (script : IoScript)

section Steps

variable (crc32c : Checksum) (place : LanePlace)

namespace WalWorld

/-- Recovery of a new process. Every start has a new incarnation, as long as there are any. -/
def recover (world : WalWorld) :
    Except RecoveryError (LocalWalLane.LaneRecovery × LocalWalLane × LaneDirectory) :=
  (LocalWalLane.new place.lane (place.identity (world.incarnation + 1))
    place.targetBytes).recoverFrom crc32c (.forLane place.lane) world.files

def start (world : WalWorld) : WalWorld :=
  if world.lane.isSome ∨ world.incarnation.toNat + 1 = 2 ^ 64 then world
  else match world.recover crc32c place with
    | .error _ => { world with incarnation := world.incarnation + 1 }
    | .ok (recovery, lane, files) =>
      { world with
        files
        lane := some lane
        incarnation := world.incarnation + 1
        settled := recovery.records
        unanswered := [] }

/-- The process ends, and of the files this much stays. -/
def die (keep : UInt64 → Nat) (files : LaneDirectory) (world : WalWorld) : WalWorld :=
  { world with files := crashed keep files, lane := none }

/-- The batch is handed to the lane. -/
def offer (batch : Batch) (world : WalWorld) : WalWorld :=
  { world with unanswered := world.unanswered ++ [batch] }

def append (batch : Batch) (script : IoScript) (world : WalWorld) : WalWorld :=
  match world.lane with
  | none => world
  | some lane =>
    let step := lane.append crc32c script batch world.files
    match step.outcome with
    | .ok number =>
      { world with
        files := step.files
        lane := some step.lane
        settled := world.settled ++ batch.records number
        acknowledged := world.acknowledged ++ [(number, batch)] }
    | .err _ => { world.offer batch with files := step.files, lane := some step.lane }
    -- the process dies, and its files stay as they are
    | .panic =>
      (world.offer batch).die (fun seq ↦ (step.files[seq]?.getD ⟨[], 0⟩).bytes.length) step.files

def crash (pending : Option (Batch × IoScript)) (keep : UInt64 → Nat) (world : WalWorld) :
    WalWorld :=
  match world.lane, pending with
  | some lane, some (batch, script) =>
    (world.offer batch).die keep (lane.append crc32c script batch world.files).files
  | _, _ => world.die keep world.files

def step (world : WalWorld) : WalEvent → WalWorld
  | .start => world.start crc32c place
  | .append batch => world.append crc32c batch .clean
  | .crash pending keep => world.crash crc32c pending keep

def faultyStep (world : WalWorld) : FaultyEvent → WalWorld
  | .event event => world.step crc32c place event
  | .fail batch script => world.append crc32c batch script

end WalWorld

/-! ### What recovery owes, and the appends that endanger it -/

/-- Recovery succeeds and returns what is settled and at most one batch more, whose append was cut
off by the crash or failed before it. The acknowledged batches are among the settled ones, each once
and in order. -/
def WalWorld.Recovers (world : WalWorld) : Prop :=
  ∃ recovery lane files, world.recover crc32c place = .ok (recovery, lane, files) ∧
    ∃ batches extra : List Batch, world.settled = recordsOf 1 batches ∧
      recovery.records = recordsOf 1 (batches ++ extra) ∧ extra.length ≤ 1 ∧
      extra ⊆ world.unanswered ∧
      (world.acknowledged.map Prod.fst).Pairwise (· < ·) ∧
      ∀ entry ∈ world.acknowledged, 1 ≤ entry.1 ∧ batches[entry.1.toNat - 1]? = some entry.2

/-- The batch that an event appends or was appending, and what fails. -/
def WalEvent.appending : WalEvent → Option (Batch × IoScript)
  | .start => none
  | .append batch => some (batch, .clean)
  | .crash pending _ => pending

def FaultyEvent.appending : FaultyEvent → Option (Batch × IoScript)
  | .event regular => regular.appending
  | .fail batch script => some (batch, script)

/-- The lane appends only where it may, and only what can be read back. -/
def WalWorld.Orderly (world : WalWorld) (event : WalEvent) : Prop :=
  ∀ lane ∈ world.lane, ∀ pending ∈ event.appending,
    lane.Placed world.files ∧ pending.1.Readable crc32c

/-- A lane that has not given up is unspoiled when it appends, and appends only what can be read
back. -/
def WalWorld.Careful (world : WalWorld) (event : FaultyEvent) : Prop :=
  ∀ lane ∈ world.lane, ∀ pending ∈ event.appending, lane.health = .failed ∨
    lane.Unspoiled world.files pending.2 ∧ pending.1.Readable crc32c

end Steps

/-! ### The invariant -/

variable {crc32c : Checksum}

section Invariant

variable (crc32c) (place : LanePlace)

/-- The batches that are settled, and how the files hold them. -/
structure Holds (world : WalWorld) (batches : List (WrittenBatch crc32c)) : Prop where
  settled : world.settled = recordsOf 1 (batchesOf batches)
  ascending : (world.acknowledged.map Prod.fst).Pairwise (· < ·)
  acknowledged : ∀ entry ∈ world.acknowledged, 1 ≤ entry.1 ∧ entry.1.toNat ≤ batches.length ∧
    (batchesOf batches)[entry.1.toNat - 1]? = some entry.2
  down : world.lane = none →
    Down place (· ∈ world.unanswered) 1 1 world.files world.incarnation [] batches
  running : ∀ lane ∈ world.lane, ∃ whole, Segment.allBatches whole = batches ∧
    Running place (· ∈ world.unanswered) 1 1 world.files world.incarnation whole lane

end Invariant

section Steps

variable {place : LanePlace} {world : WalWorld} {batches : List (WrittenBatch crc32c)}

namespace Holds

theorem initial (crc32c : Checksum) (place : LanePlace) :
    Holds crc32c place .initial [] := by
  exact ⟨rfl, List.Pairwise.nil, List.forall_mem_nil _, fun _ ↦ .empty crc32c place _,
    fun _ hmem ↦ nomatch hmem⟩

theorem floor_above (place : LanePlace) (batches : List (WrittenBatch crc32c)) :
    (LaneFloor.forLane place.lane).Above place 1 1 [] batches :=
  ⟨rfl, rfl, rfl, Nat.le_add_right _ _⟩

section

variable (h : Holds crc32c place world batches)
include h

/-- The next process recovers everything that is settled. -/
theorem recover_eq (hdown : world.lane = none) (hroom : world.incarnation.toNat + 1 < 2 ^ 64) :
    ∃ extra whole recovery walLane files, Trailing (· ∈ world.unanswered) extra ∧
      world.recover crc32c place = .ok (recovery, walLane, files) ∧
      recovery.records = recordsOf 1 (batchesOf (batches ++ extra)) ∧
      Segment.allBatches whole = batches ++ extra ∧
      Running place (· ∈ []) 1 1 files (world.incarnation + 1) whole walLane ∧
      walLane.Tidy files := by
  obtain ⟨extra, rest, whole, recovery, walLane, files, hextra, hok, hrest, hrecords, -, hbatches,
      hrunning, htidy, -⟩ := (h.down hdown).recovers (floor_above place batches) (UInt64.le_refl 1)
    (UInt64.le_refl 1) hroom (· ∈ [])
  rw [Segment.allBatches_nil, List.nil_append] at hrest
  rw [hrest] at hrecords
  exact ⟨extra, whole, recovery, walLane, files, hextra, hok, hrecords, hbatches, hrunning, htidy⟩

/-- A start recovers, unless a process runs or the incarnations are used up. -/
theorem start_eq :
    world.start crc32c place = world ∨
      ∃ (extra : List (WrittenBatch crc32c)) (whole : List (Segment crc32c))
        (walLane : LocalWalLane) (files : LaneDirectory),
        world.start crc32c place =
            ⟨files, some walLane, world.incarnation + 1,
              recordsOf 1 (batchesOf (batches ++ extra)), world.acknowledged, []⟩ ∧
          Segment.allBatches whole = batches ++ extra ∧
          Running place (· ∈ []) 1 1 files (world.incarnation + 1) whole walLane ∧
          walLane.Tidy files := by
  unfold WalWorld.start
  by_cases hskip : world.lane.isSome ∨ world.incarnation.toNat + 1 = 2 ^ 64
  · exact Or.inl (if_pos hskip)
  · rw [if_neg hskip]
    obtain ⟨hsome, hend⟩ := not_or.mp hskip
    have hnone : world.lane = none := Option.not_isSome_iff_eq_none.mp hsome
    have hlast := world.incarnation.toNat_lt
    obtain ⟨extra, whole, recovery, walLane, files', -, hok, hrecords, hbatches, hrunning,
      htidy⟩ := h.recover_eq hnone (by omega)
    refine Or.inr ⟨extra, whole, walLane, files', ?_, hbatches, hrunning, htidy⟩
    rw [hok, ← hrecords]

theorem start : ∃ batches', Holds crc32c place (world.start crc32c place) batches' := by
  rcases h.start_eq with hsame | ⟨extra, whole, walLane, files', hstart, hbatches, hrunning, -⟩
  · rw [hsame]
    exact ⟨batches, h⟩
  · rw [hstart]
    refine ⟨batches ++ extra, rfl, h.ascending,
      fun entry hmem ↦ getElem_batchesOf_append (h.acknowledged entry hmem),
      (fun hdown ↦ nomatch hdown), ?_⟩
    intro lane hlane
    cases hlane
    exact ⟨whole, hbatches, hrunning⟩

/-- An append, whole or failed, leaves a lane whose files hold the acknowledged batches. -/
theorem append {batch : Batch} {script : IoScript}
    (hcareful : world.Careful crc32c (.fail batch script)) :
    ∃ batches', Holds crc32c place (world.append crc32c batch script) batches' := by
  unfold WalWorld.append
  cases hlane : world.lane with
  | none => exact ⟨batches, h⟩
  | some walLane =>
    obtain ⟨whole, rfl, hrunning⟩ := h.running walLane hlane
    set batches := Segment.allBatches whole with hbatches
    have hoffered : batch ∈ world.unanswered ++ [batch] :=
      List.mem_append_right _ List.mem_cons_self
    dsimp only
    rcases hrunning.append (UInt64.le_refl 1) (hcareful walLane hlane (batch, script) rfl) with
      hfailed | ⟨hroom, hnext, -, happended⟩
    · rw [hfailed]
      refine ⟨batches, h.settled, h.ascending, h.acknowledged, (fun hdown ↦ by cases hdown), ?_⟩
      rintro - ⟨⟩
      exact ⟨whole, rfl, hrunning.mono fun _ hmem ↦ List.mem_append_left _ hmem⟩
    · obtain ⟨whole', -, hafter, hresult⟩ := happended.running (· ∈ world.unanswered ++ [batch])
        hoffered hrunning hroom
      rcases hresult with ⟨written, hbatch, hok, hall, stub, hready⟩ | ⟨hfails, hall⟩
      · have hnumber : walLane.nextBatchSeq.toNat = 1 + batches.length := by
          rw [hnext, toNat_add_ofNat (by omega)]
          rfl
        rw [hok]
        subst hbatch
        obtain ⟨hascending, hacknowledged⟩ := acknowledged_next h.ascending h.acknowledged hnumber
        refine ⟨batches ++ [written], ?_, hascending, hacknowledged, (fun hdown ↦ by cases hdown),
          ?_⟩
        · rw [batchesOf_append, recordsOf_append, length_batchesOf, ← hnext, ← h.settled]
          simp [batchesOf, recordsOf]
        · rintro - ⟨⟩
          refine ⟨whole', hall, hafter.lane, hafter.identity, hafter.targetBytes, hafter.failed,
            Or.inl ⟨?_, stub, hready⟩⟩
          rw [hall, List.length_append]
          exact hroom
      · cases houtcome : (walLane.append crc32c script batch world.files).outcome with
        | ok number => exact absurd houtcome (hfails number)
        | err error =>
          refine ⟨batches, h.settled, h.ascending, h.acknowledged, (fun hdown ↦ by cases hdown), ?_⟩
          rintro - ⟨⟩
          exact ⟨whole', hall, hafter⟩
        | panic =>
          refine ⟨batches, h.settled, h.ascending, h.acknowledged, fun _ ↦ ?_,
            fun _ hmem ↦ by cases hmem⟩
          rw [hbatches, ← hall]
          exact hafter.crashed List.nil_prefix (Or.inl rfl) _

/-- What a crash leaves holds the same batches, with at most a torn one behind them. -/
theorem crash {pending : Option (Batch × IoScript)} {keep : UInt64 → Nat}
    (hcareful : world.Careful crc32c (.event (.crash pending keep))) :
    Holds crc32c place (world.crash crc32c pending keep) batches := by
  have hdie {offered : List Batch} {files : LaneDirectory}
      (hdown : Down place (· ∈ offered) 1 1 (crashed keep files) world.incarnation []
        batches) :
      Holds crc32c place ({ world with unanswered := offered }.die keep files) batches :=
    ⟨h.settled, h.ascending, h.acknowledged, fun _ ↦ hdown, fun _ hmem ↦ nomatch hmem⟩
  unfold WalWorld.crash
  cases hlane : world.lane with
  | none => exact hdie ((h.down hlane).crashed keep)
  | some walLane =>
    obtain ⟨whole, rfl, hrunning⟩ := h.running walLane hlane
    have hcrashed := hrunning.crashed List.nil_prefix (Or.inl rfl) keep
    cases pending with
    | none => exact hdie hcrashed
    | some append =>
      obtain ⟨batch, script⟩ := append
      refine hdie ?_
      rcases hrunning.append (UInt64.le_refl 1) (hcareful walLane hlane (batch, script) rfl) with
        hfailed | ⟨hroom, -, -, happended⟩
      · rw [hfailed]
        exact (hrunning.mono fun _ hmem ↦ List.mem_append_left _ hmem).crashed List.nil_prefix
          (Or.inl rfl) keep
      · exact happended.crashed _ (List.mem_append_right _ List.mem_cons_self) hrunning hroom
          List.nil_prefix (Or.inl rfl) keep

theorem faultyStep {event : FaultyEvent} (hcareful : world.Careful crc32c event) :
    ∃ batches', Holds crc32c place (world.faultyStep crc32c place event) batches' := by
  cases event with
  | event regular =>
    cases regular with
    | start => exact h.start
    | append batch => exact h.append hcareful
    | crash pending keep => exact ⟨batches, h.crash hcareful⟩
  | fail batch script => exact h.append hcareful

theorem recovers (hdown : world.lane = none) (hroom : world.incarnation.toNat + 1 < 2 ^ 64) :
    world.Recovers crc32c place := by
  obtain ⟨extra, -, recovery, walLane, files', hextra, hok, hrecords, -⟩ := h.recover_eq hdown hroom
  refine ⟨recovery, walLane, files', hok, batchesOf batches, batchesOf extra, h.settled, ?_, ?_,
    ?_, h.ascending, fun entry hmem ↦ ?_⟩
  · rw [hrecords, batchesOf_append]
  · rw [length_batchesOf]
    exact hextra.1
  · intro batch hmem
    obtain ⟨written, hwritten, rfl⟩ := List.mem_map.mp hmem
    exact hextra.2 written hwritten
  · obtain ⟨hpos, -, hget⟩ := h.acknowledged entry hmem
    exact ⟨hpos, hget⟩

end

end Holds

section

variable (htidy : ∀ walLane ∈ world.lane, walLane.Tidy world.files) {event : WalEvent}
  (horderly : world.Orderly crc32c event)

include htidy horderly

/-- Nothing lies around in a run in which no file operation fails but by a crash. -/
theorem tidy_step (h : Holds crc32c place world batches) :
    ∀ walLane ∈ (world.step crc32c place event).lane,
      walLane.Tidy (world.step crc32c place event).files := by
  cases event with
  | start =>
    rcases h.start_eq with hsame | ⟨extra, whole, walLane, files', hstart, -, -, hafter⟩
    · rw [WalWorld.step, hsame]
      exact htidy
    · rw [WalWorld.step, hstart]
      intro lane hlane
      cases hlane
      exact hafter
  | append batch =>
    unfold WalWorld.step WalWorld.append
    cases hlane : world.lane with
    | none =>
      dsimp only
      rw [hlane]
      exact fun _ hmem ↦ nomatch hmem
    | some walLane =>
      have hafter := @LocalWalLane.Tidy.append crc32c _ walLane (htidy walLane hlane)
        (horderly walLane hlane _ rfl).1.segments batch
      dsimp only
      cases (walLane.append crc32c .clean batch world.files).outcome with
      | ok number =>
        rintro - ⟨⟩
        exact hafter
      | err error =>
        rintro - ⟨⟩
        exact hafter
      | panic => exact fun _ hmem ↦ nomatch hmem
  | crash pending keep =>
    have hnone : (world.crash crc32c pending keep).lane = none := by
      unfold WalWorld.crash
      split <;> rfl
    rw [WalWorld.step, hnone]
    exact fun _ hmem ↦ nomatch hmem

/-- Without failed operations, an append that may be made is a careful one. -/
theorem careful_of_orderly : world.Careful crc32c (.event event) := by
  intro walLane hlane pending hpending
  obtain ⟨hplaced, hreadable⟩ := horderly walLane hlane pending hpending
  exact Or.inr ⟨(htidy walLane hlane).unspoiled hplaced pending.2, hreadable⟩

end

end Steps

/-! ### Runs -/

/-- A bulk value of no bytes, whose checksum is zero. -/
def oneRecord : Batch := .tablet [.material ⟨1, 7, 1, 1, 0, []⟩]

theorem readable_oneRecord : oneRecord.Readable Crc.crc32c := by
  intro body hencode entry hmem
  obtain rfl := List.mem_singleton.mp hmem
  exact (by decide +kernel : Crc.crc32c [] = 0)

def laneZero : LanePlace := ⟨0, 1, 0, 1000⟩

section Runs

variable (crc32c) (place : LanePlace)

/-- In a run whose appends are all orderly, every recovery returns all that was acknowledged. -/
theorem recovery_of_crashes (events : List WalEvent)
    (horderly : Along (WalWorld.step crc32c place) (WalWorld.Orderly crc32c) .initial events)
    (hdown : (run (WalWorld.step crc32c place) .initial events).lane = none)
    (hroom : (run (WalWorld.step crc32c place) .initial events).incarnation.toNat + 1 < 2 ^ 64) :
    (run (WalWorld.step crc32c place) .initial events).Recovers crc32c place := by
  have hinvariant : (∃ batches, Holds crc32c place
      (run (WalWorld.step crc32c place) .initial events) batches) ∧
      ∀ walLane ∈ (run (WalWorld.step crc32c place) .initial events).lane,
        walLane.Tidy (run (WalWorld.step crc32c place) .initial events).files := by
    refine run_invariant_along (P := fun world ↦ (∃ batches, Holds crc32c place world batches) ∧
      ∀ walLane ∈ world.lane, walLane.Tidy world.files)
      ?_ ⟨⟨[], Holds.initial crc32c place⟩, fun _ hmem ↦ nomatch hmem⟩ horderly
    rintro world event hguard ⟨⟨batches, h⟩, htidy⟩
    exact ⟨h.faultyStep (careful_of_orderly htidy hguard), tidy_step htidy hguard h⟩
  obtain ⟨⟨batches, h⟩, -⟩ := hinvariant
  exact h.recovers hdown hroom

/-- The second append is cut off after fifty bytes; the third is made by the next process. -/
def tornBatch : List WalEvent :=
  [.start, .append oneRecord,
    .crash (some (oneRecord, { IoScript.clean with frame := some (50, .other) })) fun _ ↦ 200,
    .start, .append oneRecord, .crash none fun _ ↦ 0]

/-- Both acknowledged batches are recovered; the torn one is cut off. -/
theorem recovery_of_tornBatch :
    Along (WalWorld.step Crc.crc32c laneZero) (WalWorld.Orderly Crc.crc32c) .initial tornBatch ∧
      (run (WalWorld.step Crc.crc32c laneZero) .initial tornBatch).Recovers Crc.crc32c
        laneZero := by
  have hplaced : Along (WalWorld.step Crc.crc32c laneZero) (fun world event ↦
      ∀ lane ∈ world.lane, ∀ pending ∈ event.appending,
        lane.Placed world.files ∧ pending.1 = oneRecord) .initial tornBatch := by decide +kernel
  have horderly : Along (WalWorld.step Crc.crc32c laneZero) (WalWorld.Orderly Crc.crc32c) .initial
      tornBatch := by
    refine hplaced.mono fun world event h lane hlane pending hpending ↦ ?_
    obtain ⟨hlane, hbatch⟩ := h lane hlane pending hpending
    exact ⟨hlane, hbatch ▸ readable_oneRecord⟩
  exact ⟨horderly, recovery_of_crashes _ _ tornBatch horderly (by decide +kernel)
    (by decide +kernel)⟩

/-- A crash leaves ten bytes of the header of the first file; the next process appends. -/
def tornRotation : List WalEvent :=
  [.start,
    .crash (some (oneRecord, { IoScript.clean with opening := ⟨false, some 10⟩ })) fun _ ↦ 10,
    .start, .append oneRecord, .crash none fun _ ↦ 0]

/-- The batch that the process acknowledged is in a file that recovery refuses. -/
theorem acknowledged_lost_after_torn_rotation :
    (run (WalWorld.step Crc.crc32c laneZero) .initial tornRotation).acknowledged =
        [(1, oneRecord)] ∧
      (run (WalWorld.step Crc.crc32c laneZero) .initial tornRotation).lane = none ∧
      ¬(run (WalWorld.step Crc.crc32c laneZero) .initial tornRotation).Recovers Crc.crc32c
        laneZero := by
  refine ⟨by decide +kernel, by decide +kernel, ?_⟩
  rintro ⟨recovery, lane, files, hok, -⟩
  have hfails : ((run (WalWorld.step Crc.crc32c laneZero) .initial tornRotation).recover Crc.crc32c
      laneZero).isOk = false := by decide +kernel
  rw [hok] at hfails
  cases hfails

/-- In a run whose appends are all careful, every recovery returns all that was acknowledged. -/
theorem recovery_of_failures (events : List FaultyEvent)
    (hcareful : Along (WalWorld.faultyStep crc32c place) (WalWorld.Careful crc32c) .initial events)
    (hdown : (run (WalWorld.faultyStep crc32c place) .initial events).lane = none)
    (hroom : (run (WalWorld.faultyStep crc32c place) .initial events).incarnation.toNat + 1 <
      2 ^ 64) :
    (run (WalWorld.faultyStep crc32c place) .initial events).Recovers crc32c place := by
  have hinvariant : ∃ batches, Holds crc32c place
      (run (WalWorld.faultyStep crc32c place) .initial events) batches := by
    refine run_invariant_along (P := fun world ↦ ∃ batches, Holds crc32c place world batches)
      ?_ ⟨[], Holds.initial crc32c place⟩ hcareful
    rintro world event hguard ⟨batches, h⟩
    exact h.faultyStep hguard
  obtain ⟨batches, h⟩ := hinvariant
  exact h.recovers hdown hroom

/-- The lane gives up after a failed write, refuses the next batch, and is started again. -/
def failedWrite : List FaultyEvent :=
  [.event .start, .event (.append oneRecord),
    .fail oneRecord { IoScript.clean with frame := some (50, .other) },
    .event (.append oneRecord), .event (.crash none fun _ ↦ 200), .event .start,
    .event (.append oneRecord), .event (.crash none fun _ ↦ 0)]

/-- The refused batch and the failed one are not acknowledged, and the others are recovered. -/
theorem recovery_of_failedWrite :
    Along (WalWorld.faultyStep Crc.crc32c laneZero) (WalWorld.Careful Crc.crc32c) .initial
        failedWrite ∧
      (run (WalWorld.faultyStep Crc.crc32c laneZero) .initial failedWrite).Recovers Crc.crc32c
        laneZero := by
  have hunspoiled : Along (WalWorld.faultyStep Crc.crc32c laneZero) (fun world event ↦
      ∀ lane ∈ world.lane, ∀ pending ∈ event.appending, lane.health = .failed ∨
        lane.Unspoiled world.files pending.2 ∧ pending.1 = oneRecord) .initial failedWrite := by
    decide +kernel
  have hcareful : Along (WalWorld.faultyStep Crc.crc32c laneZero) (WalWorld.Careful Crc.crc32c)
      .initial failedWrite := by
    refine hunspoiled.mono fun world event h lane hlane pending hpending ↦ ?_
    rcases h lane hlane pending hpending with hfailed | ⟨hlane, hbatch⟩
    · exact Or.inl hfailed
    · exact Or.inr ⟨hlane, hbatch ▸ readable_oneRecord⟩
  exact ⟨hcareful, recovery_of_failures _ _ failedWrite hcareful (by decide +kernel)
    (by decide +kernel)⟩

/-- The disk is full after one byte of the second batch, and has room for the third. -/
def fullDisk : List FaultyEvent :=
  [.event .start, .event (.append oneRecord),
    .fail oneRecord { IoScript.clean with frame := some (1, .storageFull) },
    .event (.append oneRecord), .event (.crash none fun _ ↦ 0)]

/-- Behind the byte that was left, recovery finds no batch. -/
theorem acknowledged_lost_after_full_disk :
    (run (WalWorld.faultyStep Crc.crc32c laneZero) .initial fullDisk).acknowledged =
        [(1, oneRecord), (2, oneRecord)] ∧
      (run (WalWorld.faultyStep Crc.crc32c laneZero) .initial fullDisk).lane = none ∧
      ¬(run (WalWorld.faultyStep Crc.crc32c laneZero) .initial fullDisk).Recovers Crc.crc32c
        laneZero := by
  refine ⟨by decide +kernel, by decide +kernel, ?_⟩
  rintro ⟨recovery, lane, files, hok, -⟩
  have hfails : ((run (WalWorld.faultyStep Crc.crc32c laneZero) .initial fullDisk).recover
      Crc.crc32c laneZero).isOk = false := by decide +kernel
  rw [hok] at hfails
  cases hfails

end Runs

end Kivi.Durability
