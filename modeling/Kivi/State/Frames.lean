import Kivi.State.Cells

/-!
# An apply reads and writes the keys of its mutation

`apply_frame` is the frame theorem of `ObjectStore.apply`: two stores with the same cells on the
keys a mutation declares answer it alike and have the same cells there afterwards. No other cell
changes (`apply_cell_of_not_mem`). Whatever prepares a mutation on a partial copy of a store
rests on these two.
-/

namespace Kivi.State

open Library

/-- Two stores hold the same entries and the same reservations on these keys. -/
def SameOn (first second : ObjectStore) (keys : List Key) : Prop :=
  ∀ key ∈ keys, first.cell key = second.cell key

/-- Two applies answer alike and leave the same cells on these keys. -/
def SameApplied (first second : Applied) (keys : List Key) : Prop :=
  first.1 = second.1 ∧ SameOn first.2 second.2 keys

variable {mutation : Mutation} {key : Key}

/-- The key of an ordinary mutation is the one it names. -/
theorem Mutation.keys_of_ordinaryKey (h : mutation.ordinaryKey = some key) :
    mutation.keys = [key] := by
  cases mutation <;> simp_all [Mutation.ordinaryKey, Mutation.key, Mutation.keys]

theorem Mutation.key_of_ordinaryKey (h : mutation.ordinaryKey = some key) :
    mutation.key = some key := by
  cases mutation <;> simp_all [Mutation.ordinaryKey]

/-- A mutation changes nothing under keys it does not name. -/
theorem CellStep.eq_of_not_mem_keys {now : WallTimestamp} {before after : Cell}
    (h : CellStep key mutation now before after) (hkey : key ∉ mutation.keys) : after = before := by
  cases h with
  | same => rfl
  | ordinary hordinary =>
    rw [Mutation.keys_of_ordinaryKey hordinary] at hkey
    exact absurd List.mem_cons_self hkey
  | localCommit hmem hnamed =>
    refine absurd ?_ hkey
    rw [← hnamed]
    exact List.mem_dedup.mpr (List.mem_map_of_mem hmem)
  | prepare | drop | finalize => exact absurd List.mem_cons_self hkey

namespace ObjectStore

variable {first second : ObjectStore} {now : WallTimestamp} {key : Key}

/-- Cells outside the mutation's keys stay as they are. -/
theorem apply_cell_of_not_mem (store : ObjectStore) (hkey : key ∉ mutation.keys) :
    (store.apply mutation now).2.cell key = store.cell key :=
  (apply_cell store mutation now key).eq_of_not_mem_keys hkey

/-- A sweep passes over the keys it is told to skip. -/
theorem sweepLoop_cell_of_skip {limit : Nat} {skip : Std.ExtTreeSet Key} (hskip : key ∈ skip)
    (keys : List Key) (store : ObjectStore) (reclaimed : List (Key × ApplyOutcome)) :
    (sweepLoop now limit skip keys store reclaimed).2.cell key = store.cell key := by
  induction keys generalizing store reclaimed with
  | nil => rfl
  | cons other rest ih =>
    unfold sweepLoop
    split_ifs with hdone hother
    · rfl
    · exact ih store reclaimed
    · have hne : key ∉ (Mutation.delete other).keys := by
        intro hmem
        rw [List.mem_singleton.mp hmem] at hskip
        exact hother (Std.ExtTreeSet.contains_iff_mem.mpr hskip)
      have hcell : (store.apply (.delete other) now).2.cell key = store.cell key :=
        store.apply_cell_of_not_mem hne
      split
      next heq => rw [ih, ← hcell, heq]
      next heq => rw [ih, ← hcell, heq]

theorem sweepExpired_cell_of_skip {store : ObjectStore} {limit : Nat}
    {skip : Std.ExtTreeSet Key} (hskip : key ∈ skip) :
    (store.sweepExpired now limit skip).2.cell key = store.cell key :=
  sweepLoop_cell_of_skip hskip _ store []

theorem sameOn_singleton : SameOn first second [key] ↔ first.cell key = second.cell key := by
  simp [SameOn]

section

variable (h : first.cell key = second.cell key)
include h

theorem entry_eq_of_cell : first.objects[key]? = second.objects[key]? :=
  congrArg Cell.entry h

theorem intent_eq_of_cell : first.intents[key]? = second.intents[key]? :=
  congrArg Cell.intent h

theorem get_eq_of_cell : first.get key now = second.get key now := by
  rw [get_eq, get_eq, entry_eq_of_cell h]

theorem foreignReservation_eq_of_cell (txn : TxnId) (digest : Digest) :
    first.foreignReservation key txn digest = second.foreignReservation key txn digest := by
  rw [foreignReservation, foreignReservation, intent_eq_of_cell h]

end

/-! ### Each kind of mutation -/

theorem applyOrdinary_frame (hkey : mutation.ordinaryKey = some key)
    (h : first.cell key = second.cell key) :
    SameApplied (first.applyOrdinary mutation key now) (second.applyOrdinary mutation key now)
      [key] := by
  have hintent := intent_eq_of_cell h
  cases hheld : second.intents[key]? with
  | some intent =>
    rw [applyOrdinary_of_reserved hheld, applyOrdinary_of_reserved (hintent.trans hheld)]
    exact ⟨rfl, sameOn_singleton.mpr h⟩
  | none =>
    have hfree := hintent.trans hheld
    rw [applyOrdinary_of_free hkey hheld, applyOrdinary_of_free hkey hfree, entry_eq_of_cell h]
    rcases objectStep second.objects[key]? mutation now with ⟨outcome, entry⟩ | error | _
    · refine ⟨rfl, sameOn_singleton.mpr ?_⟩
      simp [cell, getElem?_setEntry, hheld, hfree]
    · exact ⟨rfl, sameOn_singleton.mpr h⟩
    · exact ⟨rfl, sameOn_singleton.mpr h⟩

theorem applyTxnPrepare_frame (txn : TxnId) (coordinator : TabletId) (write : TxnWrite)
    (digest : Digest) (h : first.cell write.key = second.cell write.key) :
    SameApplied (first.applyTxnPrepare txn coordinator write digest now)
      (second.applyTxnPrepare txn coordinator write digest now) [write.key] := by
  simp only [applyTxnPrepare, foreignReservation_eq_of_cell h, get_eq_of_cell h]
  split_ifs
  · exact ⟨rfl, sameOn_singleton.mpr h⟩
  split
  · exact ⟨rfl, sameOn_singleton.mpr h⟩
  split
  · exact ⟨rfl, sameOn_singleton.mpr h⟩
  · refine ⟨rfl, sameOn_singleton.mpr ?_⟩
    simp [cell, getElem?_insertIntent, entry_eq_of_cell h]

theorem applyTxnFinalize_frame (txn : TxnId) (commit : Bool) (write : TxnWrite)
    (digest : Digest) (h : first.cell key = second.cell key) :
    SameApplied (first.applyTxnFinalize txn key commit write digest now)
      (second.applyTxnFinalize txn key commit write digest now) [key] := by
  have herased : (first.eraseIntent key).cell key = (second.eraseIntent key).cell key := by
    simp [cell, getElem?_eraseIntent, entry_eq_of_cell h]
  simp only [applyTxnFinalize, foreignReservation_eq_of_cell h]
  split_ifs
  · exact ⟨rfl, sameOn_singleton.mpr herased⟩
  · exact ⟨rfl, sameOn_singleton.mpr herased⟩
  · -- A commit applies its write to the key once the reservation is gone.
    have hframe : SameApplied
        ((first.eraseIntent key).applyOrdinary (localCommitMutation key write.kind) key now)
        ((second.eraseIntent key).applyOrdinary (localCommitMutation key write.kind) key now)
        [key] :=
      applyOrdinary_frame (localCommitMutation_ordinaryKey key write.kind) herased
    revert hframe
    rcases (first.eraseIntent key).applyOrdinary (localCommitMutation key write.kind) key now
      with ⟨answer, after⟩
    rcases (second.eraseIntent key).applyOrdinary (localCommitMutation key write.kind) key now
      with ⟨answer', after'⟩
    rintro ⟨rfl, hcells⟩
    cases answer <;> exact ⟨rfl, hcells⟩

/-! ### Local commits -/

variable {writes : List TxnWrite}

section

variable (h : SameOn first second (writes.map TxnWrite.key).dedup)

include h

theorem SameOn.of_write {write : TxnWrite} (hmem : write ∈ writes) :
    first.cell write.key = second.cell write.key :=
  h write.key (List.mem_dedup.mpr (List.mem_map_of_mem hmem))

/-- The keys a local commit looks at are those of its writes. -/
theorem SameOn.agreeOn : AgreeOn first second (collapse writes).keys := by
  intro key hkey
  rw [Std.ExtTreeMap.mem_keys, Std.ExtTreeMap.mem_iff_isSome_getElem?] at hkey
  obtain ⟨write, hwrite⟩ := Option.isSome_iff_exists.mp hkey
  obtain ⟨hmem, rfl⟩ := collapse_mem hwrite
  have hcell := SameOn.of_write h hmem
  exact ⟨entry_eq_of_cell hcell, by rw [intent_eq_of_cell hcell]⟩

theorem LocalEffect.sameOn {first' second' : ObjectStore}
    (heffect : LocalEffect first writes now first')
    (heffect' : LocalEffect second writes now second') :
    SameOn first' second' (writes.map TxnWrite.key).dedup := by
  intro key hkey
  obtain ⟨write, hmem, rfl⟩ := List.mem_map.mp (List.mem_dedup.mp hkey)
  have hcell := SameOn.of_write h hmem
  obtain ⟨last, hlast⟩ : ∃ last, (collapse writes)[write.key]? = some last :=
    LastWins.getElem?_lastWins_isSome hmem
  have hfirst := heffect.2 write.key
  have hsecond := heffect'.2 write.key
  rw [hlast] at hfirst hsecond
  obtain ⟨-, outcome, hstep⟩ := hfirst
  obtain ⟨-, outcome', hstep'⟩ := hsecond
  rw [entry_eq_of_cell hcell, hstep'] at hstep
  simp only [Result.ok.injEq, Prod.mk.injEq] at hstep
  simp only [cell, hstep.2, heffect.1, heffect'.1, intent_eq_of_cell hcell]

theorem localVersions_congr : first.localVersions writes now = second.localVersions writes now := by
  refine List.map_congr_left fun write hmem ↦ ?_
  rw [get_eq_of_cell (SameOn.of_write h hmem)]

theorem applyLocalCommit_frame :
    SameApplied (first.applyLocalCommit writes now) (second.applyLocalCommit writes now)
      (writes.map TxnWrite.key).dedup := by
  have hverdict : first.validateLocal writes now = second.validateLocal writes now :=
    validateLocal_congr (SameOn.agreeOn h)
  rw [applyLocalCommit, applyLocalCommit]
  rcases commitLocal_cases first writes now with
    ⟨error, hinvalid, hcommit, -⟩ | ⟨hvalid, results, after, hcommit, heffect⟩
  · rw [hcommit, (commitLocal_of_invalid (hverdict ▸ hinvalid)).1]
    cases error <;> exact ⟨rfl, h⟩
  · have hvalid' : second.validateLocal writes now = .ok () := hverdict ▸ hvalid
    obtain ⟨results', hcommit'⟩ := commitLocal_of_valid hvalid'
    have hafter := heffect.sameOn h (localEffect_of_valid hvalid')
    rw [hcommit, hcommit']
    refine ⟨?_, hafter⟩
    simp only [localVersions_congr hafter]

end

/-- Stores with the same cells on a mutation's keys answer it alike and have the same cells there
afterwards. -/
theorem apply_frame (h : SameOn first second mutation.keys) :
    SameApplied (first.apply mutation now) (second.apply mutation now) mutation.keys := by
  cases hordinary : mutation.ordinaryKey with
  | some own =>
    rw [Mutation.keys_of_ordinaryKey hordinary] at h ⊢
    rw [apply_of_ordinary hordinary, apply_of_ordinary hordinary]
    exact applyOrdinary_frame hordinary (sameOn_singleton.mp h)
  | none =>
    cases mutation with
    | txnPrepare txn coordinator own expect kind digest =>
      exact applyTxnPrepare_frame txn coordinator ⟨own, kind, expect⟩ digest
        (sameOn_singleton.mp h)
    | txnFinalize txn own commit write digest =>
      exact applyTxnFinalize_frame txn commit write digest (sameOn_singleton.mp h)
    | txnCommitLocal txn writes => exact applyLocalCommit_frame h
    | _ => simp [Mutation.ordinaryKey, Mutation.key, Mutation.keys] at hordinary

/-! ### Unrelated mutations -/

open Runs

/-- Mutations of which no two name a common key do not influence each other: each answers as if it
came first, and leaves under its keys what it would leave alone. -/
theorem apart_independent {steps : List Timed}
    (h : steps.Pairwise fun first second ↦ first.1.keys.Disjoint second.1.keys)
    (store : ObjectStore) :
    collect applyStep (fun store timed ↦ some (store.apply timed.1 timed.2).1) store steps =
        steps.map (fun timed ↦ (store.apply timed.1 timed.2).1) ∧
      ∀ timed ∈ steps, SameOn (run applyStep store steps) (applyStep store timed)
        timed.1.keys := by
  induction steps generalizing store with
  | nil => exact ⟨rfl, List.forall_mem_nil _⟩
  | cons first rest ih =>
    obtain ⟨hfirst, hrest⟩ := List.pairwise_cons.mp h
    obtain ⟨hanswers, hcells⟩ := ih hrest (applyStep store first)
    -- The first mutation leaves the keys of every other one alone.
    have hframe (timed : Timed) (hmem : timed ∈ rest) :
        SameApplied ((applyStep store first).apply timed.1 timed.2)
          (store.apply timed.1 timed.2) timed.1.keys :=
      apply_frame fun key hkey ↦
        store.apply_cell_of_not_mem fun hown ↦ hfirst timed hmem hown hkey
    constructor
    · rw [collect, hanswers, List.map_cons,
        List.map_congr_left fun timed hmem ↦ (hframe timed hmem).1]
      rfl
    · intro timed hmem key hkey
      rcases List.mem_cons.mp hmem with rfl | hmem
      · change (run applyStep (applyStep store timed) rest).cell key = _
        refine run_invariant_along (P := fun last : ObjectStore ↦ last.cell key = _)
          (fun last _ hother hlast ↦ ?_) rfl (along_of_forall _ hfirst)
        exact (last.apply_cell_of_not_mem fun hown ↦ hother hkey hown).trans hlast
      · exact (hcells timed hmem key hkey).trans ((hframe timed hmem).2 key hkey)

/-- A prepare and a put of another key. -/
theorem apart_independent_prepare_put :
    let prepare : Timed := (.txnPrepare (.zero _) 1 [1] .any (.put [7]) (.zero _), 1)
    let put : Timed := (.putBytes [2] [8], 1)
    let store := run applyStep .new [prepare, put]
    (store.cell [1]).intent.isSome = true ∧
      store.cell [2] = ⟨some ⟨.bytes [8], .first, .never⟩, none⟩ := by
  intro prepare put store
  have hapart : [prepare, put].Pairwise fun first second ↦
      first.1.keys.Disjoint second.1.keys := by
    simp [prepare, put, Mutation.keys]
  have hcells := (apart_independent hapart .new).2
  constructor
  · rw [hcells prepare (by simp) [1] (by simp [prepare, Mutation.keys])]
    decide
  · rw [hcells put (by simp) [2] (by simp [put, Mutation.keys])]
    decide

end ObjectStore

end Kivi.State
