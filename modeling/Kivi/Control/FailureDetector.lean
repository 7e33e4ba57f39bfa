import Kivi.Library.Runs

/-!
# The failure detector

For each node `FailureDetector.observe` counts the polls missed in a row and the polls since the
node last came back, and says which state the node should be in next. What it says depends on the
state the node is in as the control plane knows it, which may lag behind; the bounds hold for any
such state at each poll (`detector_damped`). The counters stop at the largest word, and so does
the number of misses that makes a node unavailable.
-/

namespace Kivi.Control

open Library.Runs

inductive NodeState where
  | joining
  | active
  | suspect
  | unavailable
  | draining
  | drained
  | removed
deriving DecidableEq

/-- The delays are in nanoseconds. -/
structure FailureDetectorConfig where
  pollInterval : Nat
  suspicionThreshold : UInt32
  repairGraceMisses : UInt32
  repairCooldown : Nat

structure NodeLiveness where
  misses : UInt32
  sinceRecovery : UInt32

def NodeLiveness.fresh : NodeLiveness := ⟨0, 0xFFFFFFFF⟩

structure FailureDetector where
  config : FailureDetectorConfig
  liveness : Std.ExtTreeMap UInt64 NodeLiveness

/-- Addition that stops at the largest word. -/
def saturatingAddU32 (a b : UInt32) : UInt32 := UInt32.ofNat (min (a.toNat + b.toNat) (2 ^ 32 - 1))

theorem toNat_saturatingAddU32 (a b : UInt32) :
    (saturatingAddU32 a b).toNat = min (a.toNat + b.toNat) (2 ^ 32 - 1) :=
  UInt32.toNat_ofNat_of_lt' (Nat.lt_succ_of_le (Nat.min_le_right _ _))

variable (config : FailureDetectorConfig)

/-- The cooldown in polls. -/
def FailureDetectorConfig.cooldownPolls : UInt32 :=
  UInt32.ofNat (min (config.repairCooldown / 10 ^ 6 / max (config.pollInterval / 10 ^ 6) 1)
    (2 ^ 32 - 1))

/-- The counters of a node after a poll, and the state it should be in. -/
def NodeLiveness.observe (entry : NodeLiveness) (alive : Bool) (current : NodeState) :
    NodeLiveness × Option NodeState :=
  if alive then
    if current = .unavailable then (⟨0, 0⟩, some .active)
    else if current = .suspect then (⟨0, entry.sinceRecovery⟩, some .active)
    else (⟨0, saturatingAddU32 entry.sinceRecovery 1⟩, none)
  else
    let misses := saturatingAddU32 entry.misses 1
    let sinceRecovery := saturatingAddU32 entry.sinceRecovery 1
    (⟨misses, sinceRecovery⟩,
      if sinceRecovery < config.cooldownPolls ∧ current = .active then none
      else match current with
        | .active => if config.suspicionThreshold ≤ misses then some .suspect else none
        | .suspect =>
          if saturatingAddU32 config.suspicionThreshold config.repairGraceMisses ≤ misses then
            some .unavailable
          else none
        | _ => none)

namespace FailureDetector

def new : FailureDetector := ⟨config, ∅⟩

/-- What is known of a node. -/
def entry (detector : FailureDetector) (node : UInt64) : NodeLiveness :=
  detector.liveness.getD node .fresh

def observe (detector : FailureDetector) (node : UInt64) (alive : Bool) (current : NodeState) :
    FailureDetector × Option NodeState :=
  let (after, report) := (detector.entry node).observe detector.config alive current
  ({ detector with liveness := detector.liveness.insert node after }, report)

end FailureDetector

/-! ### Runs of polls -/

/-- A poll of a node that is known to be in the current state. -/
structure Poll where
  node : UInt64
  alive : Bool
  current : NodeState

/-- The detector after some polls. -/
def detectorAfter (polls : List Poll) : FailureDetector :=
  run (fun detector poll ↦ (detector.observe poll.node poll.alive poll.current).1) (.new config)
    polls

/-- What a poll behind others reports. -/
def reportAfter (polls : List Poll) (poll : Poll) : Option NodeState :=
  ((detectorAfter config polls).observe poll.node poll.alive poll.current).2

/-- The polls of a node. -/
def pollsOf (node : UInt64) (polls : List Poll) : List Poll := polls.filter (·.node = node)

/-- The polls of a node that were missed since its last successful one. -/
def missesInARow (node : UInt64) (polls : List Poll) : Nat :=
  ((pollsOf node polls).reverse.takeWhile fun poll ↦ !poll.alive).length

section

variable (config : FailureDetectorConfig) (node : UInt64) (polls : List Poll) (poll : Poll)

theorem config_detectorAfter : (detectorAfter config polls).config = config := by
  refine run_invariant (P := fun detector : FailureDetector ↦ detector.config = config) ?_ rfl polls
  exact fun _ _ h ↦ h

/-- A poll is about its own node. -/
theorem entry_detectorAfter_concat :
    (detectorAfter config (polls ++ [poll])).entry node =
      if poll.node = node then (((detectorAfter config polls).entry node).observe config poll.alive
        poll.current).1
      else (detectorAfter config polls).entry node := by
  have hlast : detectorAfter config (polls ++ [poll]) =
      ((detectorAfter config polls).observe poll.node poll.alive poll.current).1 := by
    simp [detectorAfter, run_append]
  rw [hlast, FailureDetector.observe, config_detectorAfter]
  simp only [FailureDetector.entry, Std.ExtTreeMap.getD_insert, Std.LawfulEqOrd.compare_eq_iff_eq]
  split_ifs with hnode
  · rw [hnode]
  · rfl

theorem reportAfter_eq : reportAfter config polls poll =
    (((detectorAfter config polls).entry poll.node).observe config poll.alive poll.current).2 := by
  rw [reportAfter, FailureDetector.observe, config_detectorAfter]

theorem missesInARow_concat : missesInARow poll.node (polls ++ [poll]) =
    if poll.alive then 0 else missesInARow poll.node polls + 1 := by
  cases halive : poll.alive <;> simp [missesInARow, pollsOf, halive]

/-- The counter is the number of misses in a row as far as it goes. -/
theorem toNat_misses : ((detectorAfter config polls).entry node).misses.toNat =
    min (missesInARow node polls) (2 ^ 32 - 1) := by
  induction polls using List.reverseRecOn with
  | nil => rfl
  | append_singleton polls poll ih =>
    rw [entry_detectorAfter_concat]
    split_ifs with hnode
    · subst hnode
      rw [missesInARow_concat, NodeLiveness.observe]
      split_ifs
      iterate 3 rfl
      dsimp only
      rw [toNat_saturatingAddU32, ih, UInt32.toNat_one]
      omega
    · rw [ih]
      simp [missesInARow, pollsOf, hnode]

end

variable {config : FailureDetectorConfig} {node : UInt64} {before between : List Poll}

/-- The polls of a node since it came back are at least as many as are counted. -/
theorem sinceRecovery_le {recovery : Poll} (hnode : recovery.node = node)
    (halive : recovery.alive = true) (hback : recovery.current = .unavailable) :
    ((detectorAfter config (before ++ recovery :: between)).entry node).sinceRecovery.toNat ≤
      (pollsOf node between).length := by
  induction between using List.reverseRecOn with
  | nil => simp [entry_detectorAfter_concat, hnode, NodeLiveness.observe, halive, hback]
  | append_singleton between poll ih =>
    rw [← List.cons_append, ← List.append_assoc, entry_detectorAfter_concat]
    split_ifs with hsame
    · have hlength : (pollsOf node (between ++ [poll])).length =
          (pollsOf node between).length + 1 := by
        simp [pollsOf, hsame]
      rw [hlength, NodeLiveness.observe]
      split_ifs
      · exact Nat.zero_le _
      · exact Nat.le_succ_of_le ih
      all_goals
        dsimp only
        rw [toNat_saturatingAddU32, UInt32.toNat_one]
        omega
    · simpa [pollsOf, hsame] using ih

section

variable {entry : NodeLiveness} {alive : Bool} {current : NodeState}

theorem of_observe_eq_unavailable
    (h : (entry.observe config alive current).2 = some .unavailable) : alive = false ∧
      saturatingAddU32 config.suspicionThreshold config.repairGraceMisses ≤
        saturatingAddU32 entry.misses 1 := by
  cases alive <;> cases current <;> simp [NodeLiveness.observe] at h
  exact ⟨rfl, h⟩

theorem of_observe_eq_suspect (h : (entry.observe config alive current).2 = some .suspect) :
    config.cooldownPolls ≤ saturatingAddU32 entry.sinceRecovery 1 := by
  cases alive <;> cases current <;> simp [NodeLiveness.observe] at h
  exact h.1

end

/-- A node is reported unavailable only when as many polls in a row as suspicion and grace ask for
together, or as the counter goes to, were missed. A successful poll resets the count. After a node
was reported back from unavailable it is not reported suspect again within the cooldown. -/
theorem detector_damped (config : FailureDetectorConfig) (polls : List Poll) (poll : Poll) :
    (reportAfter config polls poll = some .unavailable →
      min (config.suspicionThreshold.toNat + config.repairGraceMisses.toNat) (2 ^ 32 - 1) ≤
        missesInARow poll.node (polls ++ [poll])) ∧
    (poll.alive = true →
      ((detectorAfter config (polls ++ [poll])).entry poll.node).misses = 0) ∧
    ∀ before recovery between, polls = before ++ recovery :: between →
      recovery.node = poll.node → recovery.current = .unavailable →
      reportAfter config before recovery = some .active →
      reportAfter config polls poll = some .suspect →
      config.cooldownPolls.toNat ≤ (pollsOf poll.node between).length + 1 := by
  refine ⟨fun hreport ↦ ?_, fun halive ↦ ?_, ?_⟩
  · rw [reportAfter_eq] at hreport
    obtain ⟨hmissed, hle⟩ := of_observe_eq_unavailable hreport
    rw [UInt32.le_iff_toNat_le, toNat_saturatingAddU32, toNat_saturatingAddU32, toNat_misses,
      UInt32.toNat_one] at hle
    rw [missesInARow_concat, hmissed, if_neg Bool.false_ne_true]
    omega
  · refine UInt32.toNat_inj.mp ?_
    rw [toNat_misses, missesInARow_concat, if_pos halive]
    rfl
  · rintro before recovery between rfl hnode hback hreport hsuspect
    rw [reportAfter_eq] at hreport hsuspect
    have halive : recovery.alive = true := by
      by_contra hmissed
      simp [NodeLiveness.observe, hmissed, hback] at hreport
    have hle := of_observe_eq_suspect hsuspect
    rw [UInt32.le_iff_toNat_le, toNat_saturatingAddU32, UInt32.toNat_one] at hle
    have hcount := @sinceRecovery_le config poll.node before between recovery hnode halive hback
    omega

/-- With the largest grace a node is reported unavailable one miss early. -/
theorem unavailable_one_miss_early :
    ∃ (config : FailureDetectorConfig) (polls : List Poll) (poll : Poll),
      reportAfter config polls poll = some .unavailable ∧
        missesInARow poll.node (polls ++ [poll]) <
          config.suspicionThreshold.toNat + config.repairGraceMisses.toNat := by
  obtain ⟨count, hcount⟩ : ∃ count, count + 3 = 2 ^ 32 := ⟨2 ^ 32 - 3, rfl⟩
  let polls := (⟨7, false, .active⟩ : Poll) :: List.replicate count ⟨7, false, .suspect⟩
  have hmisses : missesInARow 7 polls = count + 1 := by simp [polls, missesInARow, pollsOf]
  refine ⟨⟨0, 1, 0xFFFFFFFF, 0⟩, polls, ⟨7, false, .suspect⟩, ?_, ?_⟩
  · have hword := toNat_misses ⟨0, 1, 0xFFFFFFFF, 0⟩ 7 polls
    simp [reportAfter_eq, NodeLiveness.observe, UInt32.le_iff_toNat_le, toNat_saturatingAddU32,
      hword, hmisses]
    omega
  · change _ < 1 + (2 ^ 32 - 1)
    rw [missesInARow_concat, hmisses, if_neg Bool.false_ne_true]
    omega

end Kivi.Control
