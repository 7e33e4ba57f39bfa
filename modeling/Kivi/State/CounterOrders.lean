import Kivi.State.LocalCommit

/-!
# Orders of commutative additions

A commutative addition adds its delta to what the key counts, takes one version and always gives
the same answer (`addOnce_eq`). What a key holds after a run of additions, with reads between
them, is a fold over the multiset of its deltas (`play_eq`), as long as no counter expires while
the run lasts. Every order succeeds when what a key counts at first, together with any part of its
deltas, fits a signed word (`play_isSome`).
-/

namespace Kivi.State.ObjectStore

open Library.CheckedArith

/-! ### One counter -/

/-- What a key counts; none when it holds something else. -/
def counted : Option StoredObject → Option Int64
  | none => some 0
  | some object => counterValue .commutativeCounter object.value

/-- The versions a key has used. -/
def age : Option StoredObject → UInt64
  | none => 0
  | some object => object.version.asU64

/-- The entry a successful addition leaves. -/
def tally (live : Option StoredObject) (delta : Int64) : Option StoredObject :=
  some ⟨.commutativeCounter ((counted live).getD 0 + delta), ⟨age live + 1⟩,
    (live.map StoredObject.expiry).getD .never⟩

instance : RightCommutative tally where
  right_comm live first second := by
    simp [tally, counted, age, counterValue, Int64.add_assoc, Int64.add_comm first]

variable {live entry stored : Option StoredObject} {deltas : Multiset Int64} {delta : Int64}
  {now : WallTimestamp} {key : Key} {outcome : ApplyOutcome} {store : ObjectStore}

/-- A counter that was visible stays so, and a new one never expires. -/
theorem liveObject_tally (hlive : liveObject stored now = live) :
    liveObject (tally live delta) now = tally live delta := by
  refine liveObject_eq_some_iff.mpr ⟨rfl, ?_⟩
  cases live with
  | none => rfl
  | some object => exact (liveObject_eq_some_iff.mp hlive).2

theorem checkedAddI64_eq (a b : Int64) : checkedAddI64 a b =
    if -2 ^ 63 ≤ a.toInt + b.toInt ∧ a.toInt + b.toInt < 2 ^ 63 then some (a + b) else none := by
  rw [checkedAddI64, i64OfInt, Int64.ofInt_add, Int64.ofInt_toInt, Int64.ofInt_toInt]

theorem tally_of_objectStep (h : objectStep stored (localCommitMutation key
    (.commutativeAdd delta)) now = .ok (outcome, entry)) :
    entry = tally (liveObject stored now) delta ∧
      outcomeForSemantic (.commutativeAdd key delta) outcome = some .commutativeApplied := by
  cases entryStep_of_ok h with
  | written hversion hwrites =>
    cases hwrites with
    | commutativeAdd hadds =>
      refine ⟨?_, rfl⟩
      cases hadds with
      | first hlive =>
        rw [entryNextVersion_of_absent hlive] at hversion
        cases hversion
        simp [hlive, tally, counted, age, ObjectVersion.first]
      | more hlive hheld hsum =>
        rw [entryNextVersion_of_live hlive] at hversion
        obtain ⟨word, hword, rfl⟩ := Option.map_eq_some_iff.mp hversion
        rw [checkedAddU64] at hword
        rw [checkedAddI64_eq] at hsum
        split_ifs at hword hsum
        cases hword
        cases hsum
        simp [hlive, tally, counted, age, hheld]

/-- One addition as its client sees it; none when it is refused. -/
def addOnce (store : ObjectStore) (key : Key) (delta : Int64) (now : WallTimestamp) :
    Option (OperationResult × ObjectStore) :=
  match store.apply (.commutativeAdd key delta) now with
  | (.ok outcome, after) =>
    (outcomeForSemantic (.commutativeAdd key delta) outcome).map fun answer ↦ (answer, after)
  | _ => none

theorem addOnce_eq (store : ObjectStore) (key : Key) (delta : Int64) (now : WallTimestamp) :
    store.addOnce key delta now =
      if store.intents[key]? = none ∧
          WriteReady (.commutativeAdd delta) store.objects[key]? now then
        some (.commutativeApplied,
          store.place key (tally (liveObject store.objects[key]? now) delta))
      else none := by
  change (match store.apply (localCommitMutation key (.commutativeAdd delta)) now with
    | (.ok outcome, after) => (outcomeForSemantic _ outcome).map fun answer ↦ (answer, after)
    | _ => none) = _
  rw [apply_localCommitMutation]
  cases hintent : store.intents[key]? with
  | some intent => simp [applyOrdinary_of_reserved hintent]
  | none =>
    rcases localCommit_step_cases key (.commutativeAdd delta) store.objects[key]? now with
      ⟨hready, outcome, entry, hstep⟩ | ⟨hnot, error, hstep⟩
    · obtain ⟨rfl, hanswer⟩ := tally_of_objectStep hstep
      rw [applyOrdinary_localCommit hintent hstep, if_pos ⟨rfl, hready⟩]
      exact congrArg (Option.map _) hanswer
    · rw [applyOrdinary_of_free rfl hintent, hstep, if_neg fun h ↦ hnot h.2]

/-! ### Runs -/

/-- A request of a run: an addition, or a read, which takes the store as it is. -/
inductive CounterCall where
  | add (key : Key) (delta : Int64)
  | read (op : Operation)

/-- The answers of the additions, and the store the run leaves; none when one is refused. -/
def play (store : ObjectStore) :
    List (WallTimestamp × CounterCall) → Option (List OperationResult × ObjectStore)
  | [] => some ([], store)
  | (_, .read _) :: calls => store.play calls
  | (now, .add key delta) :: calls => do
    let (answer, after) ← store.addOnce key delta now
    let (answers, last) ← after.play calls
    return (answer :: answers, last)

/-- The additions of a run, in no order. -/
def additions : List (WallTimestamp × CounterCall) → Multiset (Key × Int64)
  | [] => 0
  | (_, .read _) :: calls => additions calls
  | (_, .add key delta) :: calls => (key, delta) ::ₘ additions calls

/-- What is added to `key`. -/
def deltasOf (key : Key) (adds : Multiset (Key × Int64)) : Multiset Int64 :=
  (adds.filter fun add ↦ add.1 = key).map Prod.snd

theorem deltasOf_cons (key other : Key) (delta : Int64) (adds : Multiset (Key × Int64)) :
    deltasOf other ((key, delta) ::ₘ adds) =
      if other = key then delta ::ₘ deltasOf other adds else deltasOf other adds := by
  by_cases heq : other = key <;> simp [deltasOf, heq, @eq_comm _ key]

/-- Every addition finds its key to hold what `lives` says. -/
def Steady (store : ObjectStore) (lives : Key → Option StoredObject)
    (calls : List (WallTimestamp × CounterCall)) : Prop :=
  ∀ time key delta, (time, .add key delta) ∈ calls → liveObject store.objects[key]? time = lives key

variable {calls : List (WallTimestamp × CounterCall)} {lives : Key → Option StoredObject}
  {call : WallTimestamp × CounterCall}

theorem Steady.tail (h : Steady store lives (call :: calls)) : Steady store lives calls :=
  fun time key delta hmem ↦ h time key delta (List.mem_cons_of_mem _ hmem)

theorem Steady.place (h : Steady store lives calls) (key : Key) (delta : Int64) :
    Steady (store.place key (tally (lives key) delta))
      (Function.update lives key (tally (lives key) delta)) calls := by
  intro time other delta' hmem
  have hlive := h time other delta' hmem
  rw [getElem?_place]
  split_ifs with heq
  · rw [heq] at hlive
    rw [heq, Function.update_self, liveObject_tally hlive]
  · rwa [Function.update_of_ne heq]

/-- What a run leaves does not depend on its order. -/
theorem play_eq {answers : List OperationResult} {last : ObjectStore}
    (hsteady : Steady store lives calls) (h : store.play calls = some (answers, last)) :
    answers = List.replicate (additions calls).card .commutativeApplied ∧
      ∀ key, last.objects[key]? =
        if deltasOf key (additions calls) = 0 then store.objects[key]?
        else (deltasOf key (additions calls)).foldl tally (lives key) := by
  induction calls generalizing store lives answers with
  | nil =>
    cases h
    exact ⟨rfl, fun _ ↦ rfl⟩
  | cons call calls ih =>
    obtain ⟨time, ⟨key, delta⟩ | op⟩ := call
    · rw [play, addOnce_eq, hsteady time key delta List.mem_cons_self] at h
      split_ifs at h
      · simp only [Option.bind_eq_bind, Option.bind_some] at h
        obtain ⟨⟨rest, _⟩, hplay, hrest⟩ := Option.bind_eq_some_iff.mp h
        cases hrest
        obtain ⟨rfl, hends⟩ := ih (hsteady.tail.place key delta) hplay
        refine ⟨by simp [additions, List.replicate_succ], fun other ↦ ?_⟩
        rw [hends other, getElem?_place, additions, deltasOf_cons]
        by_cases heq : other = key
        · subst heq
          simp only [if_pos, Function.update_self, Multiset.cons_ne_zero, if_false,
            Multiset.foldl_cons]
          split_ifs with hnone
          · rw [hnone, Multiset.foldl_zero]
          · rfl
        · rw [if_neg heq, if_neg heq, Function.update_of_ne heq]
      · cases h
    · exact ih hsteady.tail h

/-- What a key counts and the versions it has used leave room for `deltas` in any order. -/
def HasRoom (live : Option StoredObject) (deltas : Multiset Int64) : Prop :=
  (age live).toNat + deltas.card < 2 ^ 64 ∧ ∃ base, counted live = some base ∧
    ∀ part ≤ deltas, -2 ^ 63 ≤ base.toInt + (part.map Int64.toInt).sum ∧
      base.toInt + (part.map Int64.toInt).sum < 2 ^ 63

/-- The first addition is made, and the others still have room. -/
theorem HasRoom.step (h : HasRoom live (delta ::ₘ deltas)) (hlive : liveObject stored now = live) :
    WriteReady (.commutativeAdd delta) stored now ∧ HasRoom (tally live delta) deltas := by
  obtain ⟨hage, base, hbase, hparts⟩ := h
  have hfirst := hparts {delta} (by simp)
  rw [Multiset.card_cons] at hage
  rw [Multiset.map_singleton, Multiset.sum_singleton] at hfirst
  have hsum : checkedAddI64 base delta = some (base + delta) := by
    rw [checkedAddI64_eq, if_pos hfirst]
  constructor
  · rw [WriteReady, (checkTxnWritable_add _ delta).2, entryNextVersion, hlive]
    cases live with
    | none => exact ⟨rfl, Or.inr rfl⟩
    | some object =>
      have hheld : counterValue .commutativeCounter object.value = some base := hbase
      simp only [age] at hage
      simp [previewCounterAdd, hheld, hsum, ObjectVersion.next, checkedAddU64]
      omega
  · refine ⟨?_, base + delta, by rw [tally, hbase]; rfl, fun part hpart ↦ ?_⟩
    · have hword : (age live + 1).toNat = (age live).toNat + 1 := by
        rw [UInt64.toNat_add]
        exact Nat.mod_eq_of_lt (by simp; omega)
      rw [tally, age, hword]
      omega
    · have hwhole := hparts (delta ::ₘ part) (by simpa)
      rwa [Multiset.map_cons, Multiset.sum_cons, ← add_assoc, ← i64OfInt_eq_some_iff.mp hsum]
        at hwhole

/-- Where there is room, every order succeeds. -/
theorem play_isSome (hsteady : Steady store lives calls)
    (hroom : ∀ add ∈ additions calls, store.intents[add.1]? = none ∧
      HasRoom (lives add.1) (deltasOf add.1 (additions calls))) :
    ∃ answers last, store.play calls = some (answers, last) := by
  induction calls generalizing store lives with
  | nil => exact ⟨_, _, rfl⟩
  | cons call calls ih =>
    obtain ⟨time, ⟨key, delta⟩ | op⟩ := call
    · have hlive := hsteady time key delta List.mem_cons_self
      simp only [additions, deltasOf_cons, Multiset.forall_mem_cons, if_true] at hroom
      obtain ⟨⟨hfree, hkey⟩, hrest⟩ := hroom
      obtain ⟨hready, hnext⟩ := hkey.step hlive
      obtain ⟨answers, last, hplay⟩ := ih (hsteady.tail.place key delta) fun add hadd ↦ by
        obtain ⟨hother, hbounds⟩ := hrest add hadd
        refine ⟨by rwa [place_intents], ?_⟩
        split_ifs at hbounds with heq
        · rwa [heq, Function.update_self]
        · rwa [Function.update_of_ne heq]
      refine ⟨.commutativeApplied :: answers, last, ?_⟩
      rw [play, addOnce_eq, if_pos ⟨hfree, hready⟩, hlive]
      simp [hplay]
    · exact ih hsteady.tail hroom

/-- Orders of one multiset of additions, with reads between them, at times between which none of
their counters expires: those that succeed leave the same objects and give every addition the same
answer, and all succeed where every key has room. -/
theorem commutativeAdds_commute (store : ObjectStore) (lives : Key → Option StoredObject)
    (adds : Multiset (Key × Int64)) :
    (∀ calls calls' answers answers' last last', additions calls = adds →
      additions calls' = adds → Steady store lives calls → Steady store lives calls' →
      store.play calls = some (answers, last) → store.play calls' = some (answers', last') →
      last.objects = last'.objects ∧
        answers = List.replicate adds.card .commutativeApplied ∧ answers' = answers) ∧
    ((∀ add ∈ adds, store.intents[add.1]? = none ∧
        HasRoom (lives add.1) (deltasOf add.1 adds)) →
      ∀ calls, additions calls = adds → Steady store lives calls →
        ∃ answers last, store.play calls = some (answers, last)) := by
  constructor
  · rintro calls calls' answers answers' last last' hcalls hcalls' hsteady hsteady' hplay hplay'
    obtain ⟨hanswers, hobjects⟩ := play_eq hsteady hplay
    obtain ⟨hanswers', hobjects'⟩ := play_eq hsteady' hplay'
    rw [hcalls] at hanswers hobjects
    rw [hcalls'] at hanswers' hobjects'
    refine ⟨Std.ExtTreeMap.ext_getElem? fun key ↦ ?_, hanswers, hanswers'.trans hanswers.symm⟩
    rw [hobjects, hobjects']
  · rintro hroom calls rfl hsteady
    exact play_isSome hsteady hroom

/-- Two additions in both orders, once with a read between them. -/
theorem commutativeAdds_commute_two : ∃ answers last answers' last',
    ObjectStore.new.play [(5, .add [1] 1), (6, .read (.get [1])), (7, .add [1] 2)] =
        some (answers, last) ∧
      ObjectStore.new.play [(5, .add [1] 2), (6, .add [1] 1)] = some (answers', last') ∧
      last.objects = last'.objects := by
  obtain ⟨hsame, hsome⟩ := commutativeAdds_commute .new (fun _ ↦ none) {([1], 1), ([1], 2)}
  have hsteady (calls : List (WallTimestamp × CounterCall)) :
      Steady .new (fun _ ↦ none) calls := fun _ _ _ _ ↦ by simp [ObjectStore.new, liveObject]
  have hparts : ∀ part ∈ Multiset.powerset {1, 2}, -2 ^ 63 ≤ 0 + (part.map Int64.toInt).sum ∧
      0 + (part.map Int64.toInt).sum < 2 ^ 63 := by decide
  have hroom := hsome fun add hadd ↦ by
    obtain rfl | rfl : add = ([1], 1) ∨ add = ([1], 2) := by simpa using hadd
    all_goals exact ⟨by simp [ObjectStore.new], by decide, 0, rfl,
      fun part hpart ↦ hparts part (Multiset.mem_powerset.mpr hpart)⟩
  have hswap : additions [(5, .add [1] 2), (6, .add [1] 1)] = {([1], 1), ([1], 2)} :=
    Multiset.cons_swap _ _ _
  obtain ⟨answers, last, hplay⟩ :=
    hroom [(5, .add [1] 1), (6, .read (.get [1])), (7, .add [1] 2)] rfl (hsteady _)
  obtain ⟨answers', last', hplay'⟩ := hroom _ hswap (hsteady _)
  exact ⟨_, _, _, _, hplay, hplay',
    (hsame _ _ _ _ _ _ rfl hswap (hsteady _) (hsteady _) hplay hplay').1⟩

/-- A store that counts `value` under one key until `expiry`. -/
def counterStore (value : Int64) (expiry : Expiry) : ObjectStore :=
  ⟨(∅ : Std.ExtTreeMap Key StoredObject).insert [1] ⟨.commutativeCounter value, .first, expiry⟩,
    none, ∅⟩

/-- A counter at the top refuses a sum that fits, and one that expires between two additions
keeps the later one. -/
theorem counter_orders_differ :
    ((∀ part ≤ ({1} : Multiset Int64), -2 ^ 63 ≤ (part.map Int64.toInt).sum ∧
        (part.map Int64.toInt).sum < 2 ^ 63) ∧
      (counterStore maxI64 .never).play [(5, .add [1] 1)] = none) ∧
    let left (calls : List (WallTimestamp × CounterCall)) :=
      ((counterStore 0 (.expiresAt 10)).play calls).map fun result ↦
        result.2.objects.toList.map fun entry ↦ entry.2.value
    left [(5, .add [1] 1), (15, .add [1] 2)] = some [.commutativeCounter 2] ∧
      left [(5, .add [1] 2), (15, .add [1] 1)] = some [.commutativeCounter 1] := by
  refine ⟨⟨fun part hpart ↦ ?_, rfl⟩, rfl, rfl⟩
  obtain rfl | rfl := Multiset.le_singleton.mp hpart <;> decide

end Kivi.State.ObjectStore
