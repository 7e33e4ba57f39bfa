import Kivi.State.Lifetimes
import Kivi.State.PrepareDurable
import Kivi.State.TypedInvariants

/-!
# Stream shards

A shard numbers its entries and lets readers page through the ones that no trim has covered.
`StreamLog` is that purpose, with an offset counter that cannot run out: an append takes the next
number and a trim drops whatever it covers. `Outlives.stream_step` reads each step of a store as
at most one event of the log, so a run that the shard outlives is a run of the log.
-/

namespace Kivi.State

open Library Library.CheckedArith Library.Runs
open ObjectStore

/-! ### The log of a shard -/

/-- What happens to a shard. -/
inductive StreamEvent where
  | appended (entry : StreamEntry)
  | trimmed (through : UInt64)
deriving DecidableEq

namespace StreamEvent

/-- The entries appended in a history, in order. -/
def appendedEntries (events : List StreamEvent) : List StreamEntry :=
  events.filterMap fun
    | appended entry => some entry
    | trimmed _ => none

/-- The event is a trim that covers the entry. -/
def trims (entry : StreamEntry) : StreamEvent → Bool
  | appended _ => false
  | trimmed through => decide (entry.offset ≤ through)

/-- The appended entries that no later trim covers, in order. -/
def untrimmed : List StreamEvent → List StreamEntry
  | [] => []
  | appended entry :: rest =>
    if rest.any (trims entry) then untrimmed rest else entry :: untrimmed rest
  | trimmed _ :: rest => untrimmed rest

end StreamEvent

/-- A shard as its readers see it: the next offset and the entries they can still page through. -/
@[ext] structure StreamLog where
  next : Nat
  retained : List StreamEntry
deriving DecidableEq

namespace StreamLog

open StreamEvent (appendedEntries untrimmed trims)

def step (log : StreamLog) : StreamEvent → StreamLog
  | .appended entry => ⟨log.next + 1, log.retained ++ [entry]⟩
  | .trimmed through =>
    ⟨log.next, log.retained.filter fun entry ↦ decide (through < entry.offset)⟩

/-- An appended entry carries the next offset. -/
def Numbers (log : StreamLog) : StreamEvent → Prop
  | .appended entry => entry.offset.toNat = log.next
  | .trimmed _ => True

variable (log : StreamLog) (events : List StreamEvent)

/-- Appends alone move the next offset, by one each. -/
theorem next_run : (run step log events).next = log.next + (appendedEntries events).length := by
  induction events generalizing log with
  | nil => rfl
  | cons event rest ih =>
    rw [run_cons, ih]
    cases event with
    | appended entry =>
      change log.next + 1 + _ = log.next + (_ + 1)
      rw [Nat.add_assoc, Nat.add_comm 1]
      rfl
    | trimmed through => rfl

variable {log events}

/-- The offsets of a well numbered history are consecutive. -/
theorem appended_offsets (h : Along step Numbers log events) :
    (appendedEntries events).map (fun entry ↦ entry.offset.toNat) =
      List.range' log.next (appendedEntries events).length := by
  induction events generalizing log with
  | nil => rfl
  | cons event rest ih =>
    have hrest := ih h.2
    cases event with
    | appended entry =>
      have hoffset : entry.offset.toNat = log.next := h.1
      change entry.offset.toNat :: (appendedEntries rest).map _ = _
      rw [hrest, hoffset]
      rfl
    | trimmed through => exact hrest

/-- What is left of a history are the entries no later trim has covered. -/
theorem retained_run :
    (run step log events).retained =
      (log.retained.filter fun entry ↦ !events.any (trims entry)) ++ untrimmed events := by
  induction events generalizing log with
  | nil => simp [untrimmed]
  | cons event rest ih =>
    rw [run_cons, ih]
    cases event with
    | appended entry =>
      by_cases hlater : rest.any (trims entry) = true
      · simp [step, untrimmed, trims, hlater, List.filter_append]
      · simp [step, untrimmed, trims, hlater, List.filter_append]
    | trimmed through =>
      simp only [step, untrimmed, List.filter_filter, List.any_cons, trims]
      congr 2
      funext entry
      by_cases hcovered : entry.offset ≤ through
      · simp [hcovered, UInt64.not_lt.mpr hcovered]
      · simp [hcovered, UInt64.not_le.mp hcovered]

end StreamLog

/-! ### One step of a stored shard -/

/-- Everything a successful mutation does to a shard that is still stored after it. -/
inductive ShardMove (key : Key) (shard : StreamShardState) :
    Mutation → ApplyOutcome → StreamShardState → Prop
  | kept (expiry : Expiry) (outcome : ApplyOutcome) :
      ShardMove key shard (.setExpiry key expiry) outcome shard
  | appended (partition payload : Bytes) :
      ShardMove key shard (.streamAppend key partition payload) (.streamAppended shard.nextOffset)
        { shard with
          nextOffset := saturatingAddU64 shard.nextOffset 1
          entries := shard.entries ++ [⟨shard.nextOffset, partition, payload⟩] }
  | trimmed (through removed : UInt64) :
      ShardMove key shard (.streamTrim key through) (.streamTrimmed removed)
        { shard with entries := trimmed shard.entries through }

variable {store : ObjectStore} {key : Key} {mutation : Mutation} {now : WallTimestamp}
  {shard : StreamShardState} {stored : Option StoredObject} {after : StoredObject}
  {outcome : ApplyOutcome}

/-- A successful ordinary mutation on a live shard that leaves a shard is one of the moves. -/
theorem shardMove_of_step {object : StoredObject} (hvalue : object.value = .streamShard shard)
    (hlive : object.isExpired now = false) (hkey : mutation.ordinaryKey = some key)
    (hstep : objectStep (some object) mutation now = .ok (outcome, some after))
    (htype : after.objectType = .streamShard) :
    ∃ moved, after.value = .streamShard moved ∧ ShardMove key shard mutation outcome moved := by
  have hsome : liveObject (some object) now = some object :=
    liveObject_eq_some_iff.mpr ⟨rfl, hlive⟩
  cases entryStep_of_ok hstep with
  | absent hnone => cases hnone.symm.trans hsome
  | idle hcurrent hlease =>
    cases hsome.symm.trans hcurrent
    cases hlease.symm.trans hvalue
  | written _ hwrites =>
    rw [hsome] at hwrites
    cases hwrites with
    | setExpiry hcurrent =>
      cases hkey
      cases hcurrent
      rw [hvalue]
      exact ⟨shard, rfl, .kept _ _⟩
    | streamCreate hnone => cases hnone
    | streamAppend hcurrent hshard =>
      cases hkey
      cases hcurrent
      cases hshard.symm.trans hvalue
      exact ⟨_, rfl, .appended _ _⟩
    | streamTrim hcurrent hshard =>
      cases hkey
      cases hcurrent
      cases hshard.symm.trans hvalue
      exact ⟨_, rfl, .trimmed _ _⟩
    | _ => cases htype

/-- Only a creation makes a shard of an entry that is none, and the new shard is empty. -/
theorem creates_of_step (hstep : objectStep stored mutation now = .ok (outcome, some after))
    (hvalue : after.value = .streamShard shard)
    (hother : ∀ object before, stored = some object → object.value ≠ .streamShard before) :
    shard.nextOffset = 0 ∧ shard.entries = [] := by
  have htype : after.objectType = .streamShard := congrArg LogicalValue.objectType hvalue
  cases entryStep_of_ok hstep with
  | absent | idle => exact absurd hvalue (hother after shard rfl)
  | written _ hwrites =>
    cases hwrites with
    | streamCreate =>
      cases hvalue
      exact ⟨rfl, rfl⟩
    | setExpiry =>
      obtain ⟨object, hobject, hsame⟩ := setExpiry_step_standsAlone hstep (htype ▸ rfl)
      exact absurd (hsame.trans hvalue) (hother object shard hobject)
    | streamAppend hlive hshard | streamTrim hlive hshard =>
      exact absurd hshard (hother _ _ (liveObject_eq_some_iff.mp hlive).1)
    | _ => cases htype

/-! ### The log of a key -/

/-- The shard stored under a key. -/
def ObjectStore.shardAt (store : ObjectStore) (key : Key) : Option StreamShardState :=
  match store.objects[key]?.map StoredObject.value with
  | some (.streamShard shard) => some shard
  | _ => none

/-- The log that the stored shard stands for; a key without a shard has the empty log. -/
def ObjectStore.streamLog (store : ObjectStore) (key : Key) : StreamLog :=
  match store.shardAt key with
  | some shard => ⟨shard.nextOffset.toNat, shard.entries⟩
  | none => ⟨0, []⟩

/-- The append or trim of `key` that a step answers. -/
def streamEventOf (key : Key) (store : ObjectStore) (timed : Timed) : Option StreamEvent :=
  match timed.1, (store.apply timed.1 timed.2).1 with
  | .streamAppend named partition payload, .ok (.streamAppended offset) =>
    if named = key then some (.appended ⟨offset, partition, payload⟩) else none
  | .streamTrim named through, .ok (.streamTrimmed _) =>
    if named = key then some (.trimmed through) else none
  | _, _ => none

theorem ObjectStore.shardAt_eq_some_iff :
    store.shardAt key = some shard ↔
      ∃ object, store.objects[key]? = some object ∧ object.value = .streamShard shard := by
  unfold shardAt
  rcases store.objects[key]? with _ | ⟨value, version, expiry⟩
  · simp
  · cases value <;> simp

theorem ObjectStore.streamLog_of_shard (h : store.shardAt key = some shard) :
    store.streamLog key = ⟨shard.nextOffset.toNat, shard.entries⟩ := by
  rw [streamLog, h]

theorem ObjectStore.streamLog_of_none (h : store.shardAt key = none) :
    store.streamLog key = ⟨0, []⟩ := by
  rw [streamLog, h]

/-- An event is a successful mutation on the key. -/
theorem ordinary_of_streamEvent {event : StreamEvent}
    (h : streamEventOf key store (mutation, now) = some event) :
    mutation.ordinaryKey = some key ∧ ∃ outcome, (store.apply mutation now).1 = .ok outcome := by
  unfold streamEventOf at h
  split at h
  next hmutation hanswer =>
    split at h
    next hnamed => exact ⟨hnamed ▸ congrArg Mutation.ordinaryKey hmutation, _, hanswer⟩
    next => cases h
  next hmutation hanswer =>
    split at h
    next hnamed => exact ⟨hnamed ▸ congrArg Mutation.ordinaryKey hmutation, _, hanswer⟩
    next => cases h
  next => cases h

/-- Over sorted offsets, a trim keeps exactly the entries it does not cover. -/
theorem trimmed_eq_filter {entries : List StreamEntry} {through : UInt64}
    (hsorted : entries.Pairwise fun first second ↦ first.offset < second.offset) :
    trimmed entries through = entries.filter fun entry ↦ decide (through < entry.offset) := by
  unfold trimmed
  induction entries with
  | nil => rfl
  | cons entry rest ih =>
    obtain ⟨hfirst, hrest⟩ := List.pairwise_cons.mp hsorted
    by_cases hcovered : entry.offset ≤ through
    · rw [List.dropWhile_cons_of_pos (by simpa using hcovered), ih hrest,
        List.filter_cons_of_neg (by simpa using hcovered)]
    · have hkept : ∀ later ∈ entry :: rest, decide (through < later.offset) = true := by
        intro later hmem
        have habove := UInt64.not_le.mp hcovered
        rcases List.mem_cons.mp hmem with rfl | hlater
        · exact decide_eq_true habove
        · exact decide_eq_true (UInt64.lt_trans habove (hfirst later hlater))
      rw [List.dropWhile_cons_of_neg (by simpa using hcovered), List.filter_eq_self.mpr hkept]

/-- Each move of a sound shard is the event of the log that it answers. -/
theorem ShardMove.simulates {moved : StreamShardState} {version : ObjectVersion}
    (h : ShardMove key shard mutation outcome moved) (hsound : shard.Sound version)
    (hanswer : (store.apply mutation now).1 = .ok outcome) :
    let log : StreamLog := ⟨shard.nextOffset.toNat, shard.entries⟩
    let events := (streamEventOf key store (mutation, now)).toList
    (⟨moved.nextOffset.toNat, moved.entries⟩ : StreamLog) = run StreamLog.step log events ∧
      Along StreamLog.step StreamLog.Numbers log events := by
  cases h with
  | kept expiry => exact ⟨rfl, trivial⟩
  | appended partition payload =>
    have hevent : streamEventOf key store (.streamAppend key partition payload, now) =
        some (.appended ⟨shard.nextOffset, partition, payload⟩) := by
      simp [streamEventOf, hanswer]
    rw [hevent]
    refine ⟨?_, rfl, trivial⟩
    rw [hsound.toNat_nextOffset_succ]
    rfl
  | trimmed through removed =>
    have hevent : streamEventOf key store (.streamTrim key through, now) =
        some (.trimmed through) := by
      simp [streamEventOf, hanswer]
    rw [hevent]
    refine ⟨?_, trivial, trivial⟩
    rw [trimmed_eq_filter hsound.sorted]
    rfl

/-- Without a shard there are no events, and at most an empty shard appears. -/
theorem streamLog_of_absent (hnone : store.shardAt key = none) :
    streamEventOf key store (mutation, now) = none ∧
      (store.apply mutation now).2.streamLog key = ⟨0, []⟩ := by
  have habsent (object : StoredObject) (before : StreamShardState)
      (hobject : store.objects[key]? = some object) : object.value ≠ .streamShard before := by
    intro hshard
    rw [shardAt_eq_some_iff.mpr ⟨object, hobject, hshard⟩] at hnone
    cases hnone
  constructor
  · by_contra hsome
    obtain ⟨event, hevent⟩ := Option.ne_none_iff_exists'.mp hsome
    obtain ⟨hkey, outcome, hanswer⟩ := ordinary_of_streamEvent hevent
    rcases store.apply_ordinary_cases hkey with ⟨hfails, -⟩ | ⟨_, entry, hstep, -, -⟩
    · exact hfails outcome hanswer
    -- Appends and trims act on a live shard.
    · unfold streamEventOf at hevent
      split at hevent
      next hmutation _ =>
        dsimp only at hmutation
        rw [hmutation] at hstep
        cases entryStep_of_ok hstep with
        | written _ hwrites =>
          cases hwrites with
          | streamAppend hlive hvalue =>
            exact habsent _ _ (liveObject_eq_some_iff.mp hlive).1 hvalue
      next hmutation _ =>
        dsimp only at hmutation
        rw [hmutation] at hstep
        cases entryStep_of_ok hstep with
        | written _ hwrites =>
          cases hwrites with
          | streamTrim hlive hvalue => exact habsent _ _ (liveObject_eq_some_iff.mp hlive).1 hvalue
      next => cases hevent
  · rcases hafter : (store.apply mutation now).2.shardAt key with _ | shard
    · exact streamLog_of_none hafter
    · obtain ⟨after, hstored, hvalue⟩ := shardAt_eq_some_iff.mp hafter
      have htype : after.objectType = .streamShard := congrArg LogicalValue.objectType hvalue
      rcases stored_or_ordinary hstored (htype ▸ rfl) with ⟨hbefore, -⟩ |
        ⟨outcome, hkey, hstep, -⟩
      · exact absurd hvalue (habsent after shard hbefore)
      · obtain ⟨hnext, hentries⟩ := creates_of_step hstep hvalue habsent
        rw [streamLog_of_shard hafter, hnext, hentries]
        rfl

/-- A step that the shard outlives is at most one event of its log. -/
theorem Outlives.stream_step {timed : Timed} (h : Outlives .streamShard key store timed)
    (hsound : StoreSound False store) :
    (applyStep store timed).streamLog key =
        run StreamLog.step (store.streamLog key) (streamEventOf key store timed).toList ∧
      Along StreamLog.step StreamLog.Numbers (store.streamLog key)
        (streamEventOf key store timed).toList := by
  obtain ⟨mutation, now⟩ := timed
  change (store.apply mutation now).2.streamLog key = _ ∧ _
  rcases hshard : store.shardAt key with _ | shard
  · obtain ⟨hevent, hafter⟩ := @streamLog_of_absent store key mutation now hshard
    rw [hevent, hafter, streamLog_of_none hshard]
    exact ⟨rfl, trivial⟩
  · obtain ⟨object, hobject, hvalue⟩ := shardAt_eq_some_iff.mp hshard
    rw [streamLog_of_shard hshard]
    rcases h.step_cases rfl hobject (congrArg LogicalValue.objectType hvalue) with
      ⟨hsame, hfails⟩ | ⟨outcome, after, hkey, hlive, hstep, hanswer, hafter, htype⟩
    · have hnone : streamEventOf key store (mutation, now) = none := by
        by_contra hsome
        obtain ⟨event, hevent⟩ := Option.ne_none_iff_exists'.mp hsome
        obtain ⟨hkey, outcome, hanswer⟩ := ordinary_of_streamEvent hevent
        exact hfails hkey outcome hanswer
      have hkept := shardAt_eq_some_iff.mpr ⟨object, hsame, hvalue⟩
      rw [hnone, streamLog_of_shard hkept]
      exact ⟨rfl, trivial⟩
    · obtain ⟨moved, hmoved, hmove⟩ := shardMove_of_step hvalue hlive hkey hstep htype
      have hshardSound : shard.Sound object.version := by
        have hobjectSound := hsound key object hobject
        unfold StoredObject.Sound at hobjectSound
        rw [hvalue] at hobjectSound
        exact hobjectSound
      rw [streamLog_of_shard
        (shardAt_eq_some_iff.mpr ⟨after, hafter, hmoved⟩)]
      exact hmove.simulates hshardSound hanswer

/-! ### Readers and whole runs -/

/-- A reader at `now` meets no other object than a live shard. -/
def ObjectStore.ShardReadable (store : ObjectStore) (key : Key) (now : WallTimestamp) : Prop :=
  ∀ object, store.objects[key]? = some object →
    object.objectType = .streamShard ∧ object.isExpired now = false

/-- A read pages through what the log retains. -/
theorem streamRead_eq (h : store.ShardReadable key now) (fromOffset : UInt64)
    (maxEntries : UInt32) :
    ∃ nextOffset : UInt64, nextOffset.toNat = (store.streamLog key).next ∧
      store.prepareRead now (.streamRead key fromOffset maxEntries) =
        some (.ok (.streamEntries
          (((store.streamLog key).retained.filter fun entry ↦
            decide (fromOffset ≤ entry.offset)).take maxEntries.toNat) nextOffset)) := by
  rcases hobject : store.objects[key]? with _ | object
  · have hnone : store.shardAt key = none := by
      rw [shardAt, hobject]
      rfl
    refine ⟨0, by rw [streamLog_of_none hnone]; rfl, ?_⟩
    have habsent : store.get key now = none := by
      rw [ObjectStore.get, hobject]
      rfl
    simp [prepareRead, habsent, streamLog_of_none hnone]
  · obtain ⟨htype, hlive⟩ := h object hobject
    obtain ⟨shard, hvalue⟩ : ∃ shard, object.value = .streamShard shard := by
      unfold StoredObject.objectType at htype
      cases hvalue : object.value with
      | streamShard shard => exact ⟨shard, rfl⟩
      | _ =>
        rw [hvalue] at htype
        cases htype
    have hlog := streamLog_of_shard
      (shardAt_eq_some_iff.mpr ⟨object, hobject, hvalue⟩)
    have hget : store.get key now = some object := by
      rw [ObjectStore.get, hobject]
      exact liveObject_eq_some_iff.mpr ⟨rfl, hlive⟩
    refine ⟨shard.nextOffset, by rw [hlog], ?_⟩
    simp [prepareRead, hget, hvalue, hlog]

open StreamEvent (appendedEntries untrimmed trims) in
/-- Over every run from a reachable store that a shard outlives, appends are answered with
consecutive offsets, the next offset counts them without saturating, and a reader at a time when
the shard has not expired pages through exactly the entries that no later trim has covered, in
the order they were appended. -/
theorem stream_offsets_never_reused {steps : List Timed} (hreach : ReachableStore store)
    (h : Along applyStep (Outlives .streamShard key) store steps) :
    let start := store.streamLog key
    let events := collect applyStep (streamEventOf key) store steps
    let final := run applyStep store steps
    let retained := (start.retained.filter fun entry ↦ !events.any (trims entry)) ++
      untrimmed events
    (appendedEntries events).map (fun entry ↦ entry.offset.toNat) =
        List.range' start.next (appendedEntries events).length ∧
      final.streamLog key = ⟨start.next + (appendedEntries events).length, retained⟩ ∧
      ∀ now fromOffset maxEntries, final.ShardReadable key now →
        ∃ nextOffset : UInt64, nextOffset.toNat = start.next + (appendedEntries events).length ∧
          final.prepareRead now (.streamRead key fromOffset maxEntries) =
            some (.ok (.streamEntries ((retained.filter fun entry ↦
              decide (fromOffset ≤ entry.offset)).take maxEntries.toNat) nextOffset)) := by
  intro start events final retained
  have hsound := h.and_invariant
    (fun _ _ _ hstore ↦ applyStep_sound hstore fun hfalse ↦ hfalse.elim) hreach.sound
  obtain ⟨hlog, hnumbers⟩ := run_simulates (fun reached ↦ reached.streamLog key)
    (streamEventOf key) (fun _ _ hguard ↦ Outlives.stream_step hguard.1 hguard.2) hsound
  have hfinal : final.streamLog key =
      ⟨start.next + (appendedEntries events).length, retained⟩ :=
    hlog.trans (StreamLog.ext (StreamLog.next_run _ _) StreamLog.retained_run)
  refine ⟨StreamLog.appended_offsets hnumbers, hfinal, ?_⟩
  intro now fromOffset maxEntries hreadable
  obtain ⟨nextOffset, hnext, hread⟩ := streamRead_eq hreadable fromOffset maxEntries
  rw [hfinal] at hnext hread
  exact ⟨nextOffset, hnext, hread⟩

/-- Two appends with a trim of the first between them. -/
def trimmedShard : List Timed :=
  [(.streamCreate [1] (.zero _) 0, ⟨0⟩), (.streamAppend [1] [] [7], ⟨1⟩), (.streamTrim [1] 0, ⟨2⟩),
    (.streamAppend [1] [] [8], ⟨3⟩)]

/-- The second append gets offset one, though the trim has emptied the shard. -/
theorem trimmedShard_offsets :
    Along applyStep (Outlives .streamShard [1]) ObjectStore.new trimmedShard ∧
      (run applyStep ObjectStore.new trimmedShard).streamLog [1] = ⟨2, [⟨1, [], [8]⟩]⟩ :=
  have houtlives : Along applyStep (Outlives .streamShard [1]) ObjectStore.new trimmedShard := by
    decide +kernel
  ⟨houtlives, (stream_offsets_never_reused (Reachable.refl _) houtlives).2.1.trans
    (by decide +kernel)⟩

/-- A shard with an entry whose expiry passes. -/
def expiringShard : List Timed :=
  [(.streamCreate [1] (.zero _) 0, ⟨0⟩), (.streamAppend [1] [] [7], ⟨1⟩),
    (.setExpiry [1] (.expiresAt ⟨5⟩), ⟨2⟩)]

/-- The shard is never deleted or overwritten and its entry never trimmed, but a reader after the
expiry finds nothing. -/
theorem expired_shard_reads_empty :
    let events := collect applyStep (streamEventOf [1]) ObjectStore.new expiringShard
    let final := run applyStep ObjectStore.new expiringShard
    StreamEvent.untrimmed events = [⟨0, [], [7]⟩] ∧
      final.streamLog [1] = ⟨1, [⟨0, [], [7]⟩]⟩ ∧
      final.prepareRead ⟨5⟩ (.streamRead [1] 0 10) = some (.ok (.streamEntries [] 0)) :=
  ⟨by decide +kernel, by decide +kernel, rfl⟩

end Kivi.State
