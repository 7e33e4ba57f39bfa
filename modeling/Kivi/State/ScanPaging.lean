import Kivi.Library.SortedLists
import Kivi.State.OrderedIndex
import Kivi.State.Scan

/-!
# Reading a range page by page

A client reads a range by asking for pages and resuming after the last key of each. `scanAll` is
that loop. A page that reports more to come is followed by exactly the keys it has not listed; a
page that reports the range exhausted has looked at one key more than it may list, so it ends the
scan too early when some of those keys are passed over and others lie behind them (`PageClear`).
-/

namespace Kivi.State

open Library Library.Runs Library.SortedLists
open Std (ExtTreeSet)

/-! ### The order of keys -/

theorem bytesLt_asymm {first second : Bytes} (h : bytesLt first second = true) :
    bytesLt second first = false := by
  unfold bytesLt at h ⊢
  have hlt : compare first second = .lt := by simpa using h
  have hgt : compare second first = .gt := Std.OrientedCmp.gt_iff_lt.mpr hlt
  simp [hgt]

theorem bytesLt_trans {first second third : Bytes} (h : bytesLt first second = true)
    (h' : bytesLt second third = true) : bytesLt first third = true := by
  unfold bytesLt at h h' ⊢
  have hlt : compare first second = .lt := by simpa using h
  have hlt' : compare second third = .lt := by simpa using h'
  have htrans : compare first third = .lt := Std.TransCmp.lt_trans hlt hlt'
  simp [htrans]

/-- Nothing lies between a key and its successor. -/
theorem not_bytesLt_successor (key last : Bytes) :
    (!bytesLt key (last ++ [0])) = bytesLt last key := by
  induction last generalizing key with
  | nil =>
    cases key with
    | nil => rfl
    | cons byte rest =>
      have hzero : compare byte 0 ≠ .lt := fun hlt ↦
        absurd (compareOfLessAndEq_eq_lt.mp hlt) UInt8.not_lt_zero
      have hrest : compare rest [] ≠ .lt := by cases rest <;> simp
      simp only [bytesLt, List.nil_append, List.compare_cons_cons, List.compare_nil_cons]
      rcases hbyte : compare byte 0 with _ | _ | _
      · exact absurd hbyte hzero
      · simpa using hrest
      · rfl
  | cons first others ih =>
    cases key with
    | nil => rfl
    | cons byte rest =>
      have hothers := ih rest
      simp only [bytesLt, List.cons_append, List.compare_cons_cons] at hothers ⊢
      have hswap : compare first byte = (compare byte first).swap := Std.OrientedCmp.eq_swap
      rw [hswap]
      rcases compare byte first with _ | _ | _
      · rfl
      · exact hothers
      · rfl

namespace ScanSpec

/-- One key comes before another in the direction of the scan. -/
def before (spec : ScanSpec) (first second : Key) : Bool :=
  match spec.direction with
  | .forward => bytesLt first second
  | .reverse => bytesLt second first

variable (spec : ScanSpec)

theorem before_asymm (first second : Key)
    (h : spec.before first second = true) : spec.before second first = false := by
  unfold before at h ⊢
  split at h <;> exact bytesLt_asymm h

theorem fromStart_mono {first second : Key} (hlt : bytesLt first second = true)
    (h : spec.fromStart first = true) : spec.fromStart second = true := by
  unfold fromStart at h ⊢
  split at h
  next lower _ =>
    by_cases hbelow : bytesLt second lower = true
    · rw [bytesLt_trans hlt hbelow] at h
      cases h
    · simpa using hbelow
  next => rfl

theorem beforeStop_mono {first second : Key}
    (hlt : bytesLt first second = true) (h : spec.beforeStop second = true) :
    spec.beforeStop first = true := by
  unfold beforeStop at h ⊢
  split at h
  · exact bytesLt_trans hlt h
  · rfl

/-- The smallest key above a key. -/
def keySuccessor (key : Key) : Key := key ++ [0]

/-- The window that is left after a page that ended with `last`. -/
def resume (spec : ScanSpec) (last : Key) : ScanSpec :=
  match spec.direction with
  | .forward => { spec with start := some (keySuccessor last) }
  | .reverse => { spec with stop := some last }

/-- The window that is left holds the keys of the range behind the last one. -/
theorem contains_resume {last : Key} (hlast : spec.contains last = true)
    (key : Key) :
    (spec.resume last).contains key = (spec.contains key && spec.before last key) := by
  obtain ⟨hfrom, hstop⟩ : spec.fromStart last = true ∧ spec.beforeStop last = true := by
    simpa [contains] using hlast
  rcases hdirection : spec.direction with _ | _
  · have hresumed : (spec.resume last).contains key =
        (bytesLt last key && spec.beforeStop key) := by
      rw [← not_bytesLt_successor]
      simp only [resume, hdirection, contains, fromStart, beforeStop, keySuccessor]
    rw [hresumed, contains, before, hdirection]
    by_cases hafter : bytesLt last key = true
    · simp [hafter, spec.fromStart_mono hafter hfrom]
    · simp [hafter]
  · have hresumed : (spec.resume last).contains key = (spec.fromStart key && bytesLt key last) := by
      simp only [resume, hdirection, contains, fromStart, beforeStop]
    rw [hresumed, contains, before, hdirection]
    by_cases hafter : bytesLt key last = true
    · simp [hafter, spec.beforeStop_mono hafter hstop]
    · simp [hafter]

@[simp] theorem resume_direction (last : Key) :
    (spec.resume last).direction = spec.direction := by
  unfold resume
  split <;> rfl

@[simp] theorem resume_maxItems (last : Key) :
    (spec.resume last).maxItems = spec.maxItems := by
  unfold resume
  split <;> rfl

end ScanSpec

/-! ### The keys of a range -/

namespace ObjectStore

/-- All keys in the direction of the scan. -/
def keysInOrder (spec : ScanSpec) (keys : List Key) : List Key :=
  match spec.direction with
  | .forward => keys
  | .reverse => keys.reverse

theorem pairwise_toList (ordered : ExtTreeSet Key) :
    ordered.toList.Pairwise fun first second ↦ bytesLt first second = true :=
  ExtTreeSet.ordered_toList.imp fun h ↦ by simp [bytesLt, h]

/-- The keys of a range are those that the request contains, in its order. -/
theorem rangeKeys_eq (ordered : ExtTreeSet Key) (spec : ScanSpec) :
    rangeKeys ordered spec = (keysInOrder spec ordered.toList).filter spec.contains := by
  have hsorted := pairwise_toList ordered
  rcases hdirection : spec.direction with _ | _
  · simp only [rangeKeys, keysInOrder, hdirection]
    rw [takeWhile_eq_filter bytesLt (hsorted.filter _) fun _ _ ↦ spec.beforeStop_mono,
      List.filter_filter]
    congr 1
    funext key
    rw [ScanSpec.contains, Bool.and_comm]
  · simp only [rangeKeys, keysInOrder, hdirection]
    rw [← List.filter_reverse, takeWhile_eq_filter (fun first second ↦ bytesLt second first)
      ((List.pairwise_reverse.mpr hsorted).filter _) fun _ _ ↦ spec.fromStart_mono,
      List.filter_filter]
    rfl

/-- The keys of a range that a scan lists, in its order. -/
def listedKeys (store : ObjectStore) (spec : ScanSpec) (now : WallTimestamp) : List Key :=
  (keysInOrder spec store.objects.keys).filter fun key ↦
    spec.contains key && (store.listed now key).isSome

/-- A right index has the stored keys in order. -/
theorem toList_of_mirrors {store : ObjectStore} (h : store.Mirrors) {ordered : ExtTreeSet Key}
    (hordered : store.ordered = some ordered) : ordered.toList = store.objects.keys := by
  have hlisted : ordered.toList.Pairwise fun a b ↦ compare a b = .lt :=
    ExtTreeSet.ordered_toList
  have hkeys : store.objects.keys.Pairwise fun a b ↦ compare a b = .lt :=
    Std.ExtTreeMap.ordered_keys
  refine @Kivi.Library.OrderedMaps.eq_of_ascending Key Key _ _ id _ _ hlisted hkeys fun key ↦ ?_
  rw [ExtTreeSet.mem_toList, Std.ExtTreeMap.mem_keys, h ordered hordered key]

variable {store : ObjectStore} {ordered : ExtTreeSet Key} {now : WallTimestamp}

theorem listedKeys_eq (hkeys : ordered.toList = store.objects.keys) (spec : ScanSpec) :
    store.listedKeys spec now =
      (rangeKeys ordered spec).filter fun key ↦ (store.listed now key).isSome := by
  rw [rangeKeys_eq, List.filter_filter, listedKeys, hkeys]
  congr 1
  funext key
  rw [Bool.and_comm]

/-- Behind the last key of a page lies what the resumed window holds. -/
theorem rangeKeys_resume (spec : ScanSpec) {last : Key} (hlast : spec.contains last = true) :
    rangeKeys ordered (spec.resume last) = (rangeKeys ordered spec).filter (spec.before last) := by
  have horder : keysInOrder (spec.resume last) ordered.toList =
      keysInOrder spec ordered.toList := by
    rw [keysInOrder, keysInOrder, ScanSpec.resume_direction]
  rw [rangeKeys_eq, rangeKeys_eq, List.filter_filter, horder]
  congr 1
  funext key
  rw [spec.contains_resume hlast, Bool.and_comm]

end ObjectStore

/-! ### One page -/

namespace ScanSpec

variable {spec : ScanSpec} {candidates : List (Key × Option StoredObject)}
  {entries : List ScanEntry} {used : Nat} {lastKey : Option Key}

/-- The first value of a page always finds a place. -/
theorem project_first_ne_none (used : Nat) (value : LogicalValue) :
    spec.project true used value ≠ none := by
  unfold project
  split
  · simp
  · cases value <;> simp [LogicalValue.scanDescriptor]
    split <;> simp

/-- A value that finds a place does so in the same way on an empty page. -/
theorem project_true_of_some {first : Bool} {value : LogicalValue}
    {projected : Option ScannedValue × Nat} (h : spec.project first used value = some projected) :
    spec.project true used value = some projected := by
  cases first with
  | true => exact h
  | false =>
    unfold project at h ⊢
    split at h
    · exact h
    · cases value with
      | bytes bytes =>
        dsimp only at h ⊢
        split at h
        next hfits => rw [if_pos hfits, h]
        next => cases h
      | _ => exact h

/-- Behind the entries a page lists an initial part of the candidates that are not skipped: all of
them if it reports the range exhausted, and it is not empty otherwise. -/
def Lists (page : ScanPage) (candidates : List (Key × Option StoredObject))
    (entries : List ScanEntry) : Prop :=
  page.lastKey = page.entries.getLast?.map ScanEntry.key ∧
    ∃ front back, candidates = front ++ back ∧
      page.entries.map ScanEntry.key =
        entries.map ScanEntry.key ++
          (front.filter fun candidate ↦ candidate.2.isSome).map Prod.fst ∧
      (page.exhausted = true → back = []) ∧ (page.exhausted = false → page.entries ≠ [])

/-- What a page lists of its candidates, and where it stops. -/
theorem fillPage_spec (hmax : 0 < spec.maxItems)
    (hlast : lastKey = entries.getLast?.map ScanEntry.key) :
    Lists (spec.fillPage candidates entries used lastKey) candidates entries := by
  induction candidates generalizing entries used lastKey with
  | nil => exact ⟨hlast, [], [], rfl, by simp [fillPage], fun _ ↦ rfl, nofun⟩
  | cons candidate rest ih =>
    obtain ⟨key, listed⟩ := candidate
    unfold fillPage
    -- Where the page stops, it has listed nothing of what is left.
    have hstops (hentries : entries ≠ []) :
        Lists ⟨entries, false, lastKey⟩ ((key, listed) :: rest) entries :=
      ⟨hlast, [], (key, listed) :: rest, rfl, by simp, nofun, fun _ ↦ hentries⟩
    split_ifs with hfull
    · exact hstops (List.ne_nil_of_length_pos (lt_of_lt_of_le hmax hfull))
    · cases listed with
      | none =>
        obtain ⟨hkey, front, back, rfl, hentries, hall, hsome⟩ := ih hlast
        exact ⟨hkey, (key, none) :: front, back, rfl, by simpa using hentries, hall, hsome⟩
      | some object =>
        dsimp only
        rcases hproject : spec.project entries.isEmpty used object.value with _ | ⟨value, after⟩
        · refine hstops fun hempty ↦ ?_
          rw [hempty] at hproject
          exact project_first_ne_none used object.value hproject
        · obtain ⟨hkey, front, back, rfl, hentries, hall, hsome⟩ :=
            @ih (entries ++ [⟨key, value⟩]) after (some key) (by simp)
          exact ⟨hkey, (key, some object) :: front, back, rfl, by simpa using hentries, hall,
            hsome⟩

/-- The inline bytes used once a value is listed. -/
def usedAfter (spec : ScanSpec) (used : Nat) (value : LogicalValue) : Nat :=
  ((spec.project true used value).map Prod.snd).getD used

/-- Some object finds no place in what the ones before it leave of the byte budget. On an empty
page the first object always does. -/
def OverBudget (spec : ScanSpec) (empty : Bool) (used : Nat) (objects : List StoredObject) :
    Prop :=
  ∃ front object back, objects = front ++ object :: back ∧ (empty = true → front ≠ []) ∧
    spec.project false (front.foldl (fun used listed ↦ spec.usedAfter used listed.value) used)
      object.value = none

theorem overBudget_cons_iff {empty : Bool} {object : StoredObject} {rest : List StoredObject}
    {value : Option ScannedValue} {after : Nat}
    (hproject : spec.project empty used object.value = some (value, after)) :
    OverBudget spec empty used (object :: rest) ↔ OverBudget spec false after rest := by
  have hafter : spec.usedAfter used object.value = after := by
    simp [usedAfter, project_true_of_some hproject]
  constructor
  · rintro ⟨front, other, back, hobjects, hfirst, hnone⟩
    rcases List.append_eq_cons_iff.mp hobjects.symm with ⟨rfl, hcons⟩ | ⟨others, rfl, hcons⟩
    · obtain ⟨rfl, rfl⟩ := List.cons.inj hcons
      cases empty with
      | true => exact absurd rfl (hfirst rfl)
      | false =>
        rw [List.foldl_nil, hproject] at hnone
        cases hnone
    · rw [List.foldl_cons, hafter] at hnone
      exact ⟨others, other, back, hcons, nofun, hnone⟩
  · rintro ⟨front, other, back, rfl, -, hnone⟩
    refine ⟨object :: front, other, back, rfl, nofun, ?_⟩
    rw [List.foldl_cons, hafter]
    exact hnone

/-- Some candidate is left when the page, with `count` entries so far, is full. -/
def LeftOver (spec : ScanSpec) (count : Nat) (candidates : List (Key × Option StoredObject)) :
    Prop :=
  ∃ front candidate back, candidates = front ++ candidate :: back ∧
    spec.maxItems ≤ count + (front.filter fun candidate ↦ candidate.2.isSome).length

theorem leftOver_cons_iff {count : Nat} {candidate : Key × Option StoredObject}
    (hroom : ¬ spec.maxItems ≤ count) :
    LeftOver spec count (candidate :: candidates) ↔
      LeftOver spec (count + if candidate.2.isSome then 1 else 0) candidates := by
  have hcount (front : List (Key × Option StoredObject)) :
      count + ((candidate :: front).filter fun candidate ↦ candidate.2.isSome).length =
        (count + if candidate.2.isSome then 1 else 0) +
          (front.filter fun candidate ↦ candidate.2.isSome).length := by
    rw [List.filter_cons]
    split
    · rw [List.length_cons]
      omega
    · rfl
  constructor
  · rintro ⟨front, other, back, hsplit, hfull⟩
    rcases List.append_eq_cons_iff.mp hsplit.symm with ⟨rfl, -⟩ | ⟨others, rfl, hrest⟩
    · exact absurd hfull hroom
    · rw [hcount] at hfull
      exact ⟨others, other, back, hrest, hfull⟩
  · rintro ⟨front, other, back, rfl, hfull⟩
    rw [← hcount] at hfull
    exact ⟨candidate :: front, other, back, rfl, hfull⟩

/-- A page reports more to come when a candidate is left over after it is full, or when a value
exceeds the byte budget. -/
theorem fillPage_exhausted_iff :
    (spec.fillPage candidates entries used lastKey).exhausted = false ↔
      LeftOver spec entries.length candidates ∨
        OverBudget spec entries.isEmpty used (candidates.filterMap Prod.snd) := by
  induction candidates generalizing entries used lastKey with
  | nil => simp [fillPage, OverBudget, LeftOver]
  | cons candidate rest ih =>
    obtain ⟨key, listed⟩ := candidate
    unfold fillPage
    by_cases hfull : spec.maxItems ≤ entries.length
    · rw [if_pos hfull]
      exact ⟨fun _ ↦ Or.inl ⟨[], (key, listed), rest, rfl, by simpa using hfull⟩, fun _ ↦ rfl⟩
    · rw [if_neg hfull, leftOver_cons_iff hfull]
      cases listed with
      | none => exact ih
      | some object =>
        dsimp only
        rcases hproject : spec.project entries.isEmpty used object.value with _ | ⟨value, after⟩
        · have hempty : entries.isEmpty = false := by
            by_contra htrue
            rw [Bool.not_eq_false] at htrue
            rw [htrue] at hproject
            exact project_first_ne_none used object.value hproject
          rw [hempty] at hproject ⊢
          exact ⟨fun _ ↦ Or.inr ⟨[], object, rest.filterMap Prod.snd, rfl, nofun, hproject⟩,
            fun _ ↦ rfl⟩
        · have hlisted : (entries ++ [(⟨key, value⟩ : ScanEntry)]).isEmpty = false := by simp
          rw [ih, hlisted, List.length_append]
          change _ ∨ _ ↔ _ ∨ OverBudget spec entries.isEmpty used
            (object :: rest.filterMap Prod.snd)
          rw [overBudget_cons_iff hproject]
          rfl

end ScanSpec

namespace ObjectStore

variable {store : ObjectStore} {ordered : ExtTreeSet Key} {now : WallTimestamp}
  {spec : ScanSpec}

/-- The page of a window that names no index term. -/
def plainPage (store : ObjectStore) (ordered : ExtTreeSet Key) (spec : ScanSpec)
    (now : WallTimestamp) : ScanPage :=
  spec.fillPage ((scanCandidates ordered spec).map fun key ↦ (key, store.listed now key)) [] 0 none

/-- The listed keys of a page are those of an initial part of its candidates. -/
theorem plainPage_spec (hmax : 0 < spec.maxItems) :
    let page := store.plainPage ordered spec now
    page.lastKey = (page.entries.map ScanEntry.key).getLast? ∧
      ∃ front back, rangeKeys ordered spec = front ++ back ∧
        page.entries.map ScanEntry.key =
          front.filter (fun key ↦ (store.listed now key).isSome) ∧
        (page.exhausted = true → front = scanCandidates ordered spec) ∧
        (page.exhausted = false → page.entries ≠ []) := by
  intro page
  obtain ⟨hlast, frontPairs, backPairs, hsplit, hentries, hall, hsome⟩ :=
    @ScanSpec.fillPage_spec spec ((scanCandidates ordered spec).map fun key ↦
      (key, store.listed now key)) [] 0 none hmax rfl
  obtain ⟨front, back, hcandidates, rfl, rfl⟩ := List.map_eq_append_iff.mp hsplit
  refine ⟨hlast.trans List.getLast?_map.symm, front,
    back ++ (rangeKeys ordered spec).drop (spec.maxItems + 1), ?_, ?_, ?_, hsome⟩
  · rw [← List.append_assoc, ← hcandidates, scanCandidates, List.take_append_drop]
  · refine hentries.trans ?_
    rw [List.filter_map, List.map_map]
    simp [Function.comp_def]
  · intro hexhausted
    have hback : back = [] := by simpa using hall hexhausted
    rw [hcandidates, hback, List.append_nil]

/-- After a page that reports more to come, the resumed window holds exactly what it has not
listed, and fewer keys. -/
theorem plainPage_resume (hkeys : ordered.toList = store.objects.keys) (hmax : 0 < spec.maxItems)
    (hmore : (store.plainPage ordered spec now).exhausted = false) :
    ∃ last, (store.plainPage ordered spec now).lastKey = some last ∧
      store.listedKeys spec now =
        (store.plainPage ordered spec now).entries.map ScanEntry.key ++
          store.listedKeys (spec.resume last) now ∧
      (rangeKeys ordered (spec.resume last)).length < (rangeKeys ordered spec).length := by
  obtain ⟨hlast, front, back, hrange, hentries, -, hsome⟩ :=
    @plainPage_spec store ordered now spec hmax
  set entries := (store.plainPage ordered spec now).entries.map ScanEntry.key with hdef
  have hne : entries ≠ [] := by simpa [hdef] using hsome hmore
  obtain ⟨earlier, last, hsplit⟩ : ∃ earlier last, entries = earlier ++ [last] :=
    ⟨entries.dropLast, entries.getLast hne, (List.dropLast_append_getLast hne).symm⟩
  have hmem : last ∈ rangeKeys ordered spec := by
    rw [hrange]
    have hlisted : last ∈ front.filter fun key ↦ (store.listed now key).isSome := by
      rw [← hentries, hsplit]
      simp
    exact List.mem_append_left _ (List.mem_of_mem_filter hlisted)
  have hcontains : spec.contains last = true := by
    rw [rangeKeys_eq] at hmem
    exact (List.mem_filter.mp hmem).2
  have hsorted : (rangeKeys ordered spec).Pairwise fun first second ↦
      spec.before first second = true := by
    rw [rangeKeys_eq]
    refine List.Pairwise.filter _ ?_
    unfold keysInOrder ScanSpec.before
    split
    · exact pairwise_toList ordered
    · exact List.pairwise_reverse.mpr (pairwise_toList ordered)
  have hlisted : store.listedKeys spec now = earlier ++ last ::
      back.filter (fun key ↦ (store.listed now key).isSome) := by
    rw [listedKeys_eq hkeys, hrange, List.filter_append, ← hentries, hsplit, List.append_assoc]
    rfl
  refine ⟨last, ?_, ?_, ?_⟩
  · rw [hlast, hsplit, List.getLast?_append]
    rfl
  · have hrest : store.listedKeys (spec.resume last) now =
        (store.listedKeys spec now).filter (spec.before last) := by
      rw [listedKeys_eq hkeys, listedKeys_eq hkeys, rangeKeys_resume spec hcontains,
        List.filter_filter, List.filter_filter]
      congr 1
      funext key
      rw [Bool.and_comm]
    have hlistedSorted : (store.listedKeys spec now).Pairwise fun first second ↦
        spec.before first second = true := by
      rw [listedKeys_eq hkeys]
      exact hsorted.filter _
    rw [hrest, hlisted, filter_after spec.before_asymm (hlisted ▸ hlistedSorted), hsplit,
      List.append_assoc]
    rfl
  · rw [rangeKeys_resume spec hcontains, List.length_filter_lt_length_iff_exists]
    refine ⟨last, hmem, ?_⟩
    intro hself
    have hasymm := spec.before_asymm last last hself
    rw [hself] at hasymm
    cases hasymm

/-- A page with every candidate up to its item budget listed reports more to come when there is
one candidate more. -/
theorem leftOver_candidates_iff :
    ScanSpec.LeftOver spec 0
        ((scanCandidates ordered spec).map fun key ↦ (key, store.listed now key)) ↔
      spec.maxItems < (rangeKeys ordered spec).length ∧
        ∀ key ∈ (rangeKeys ordered spec).take spec.maxItems,
          (store.listed now key).isSome = true := by
  have hcount (front : List Key) :
      ((front.map fun key ↦ (key, store.listed now key)).filter fun candidate ↦
        candidate.2.isSome).length =
          (front.filter fun key ↦ (store.listed now key).isSome).length := by
    rw [List.filter_map, List.length_map]
    rfl
  constructor
  · rintro ⟨frontPairs, candidate, backPairs, hsplit, hfull⟩
    obtain ⟨front, others, hcandidates, rfl, hothers⟩ := List.map_eq_append_iff.mp hsplit
    obtain ⟨next, back, rfl, -, -⟩ := List.map_eq_cons_iff.mp hothers
    rw [hcount, Nat.zero_add] at hfull
    have hfilter := List.length_filter_le (fun key ↦ (store.listed now key).isSome) front
    have hlength := congrArg List.length hcandidates
    rw [scanCandidates, List.length_take, List.length_append, List.length_cons] at hlength
    have hfront : front.length = spec.maxItems := by omega
    have htake : (rangeKeys ordered spec).take spec.maxItems = front := by
      have htakes := congrArg (List.take spec.maxItems) hcandidates
      rw [scanCandidates, List.take_take, ← hfront, List.take_left] at htakes
      rwa [Nat.min_eq_left (Nat.le_succ _), hfront] at htakes
    refine ⟨by omega, ?_⟩
    rw [htake]
    exact List.length_filter_eq_length_iff.mp (by omega)
  · rintro ⟨hmore, hlisted⟩
    refine ⟨((rangeKeys ordered spec).take spec.maxItems).map fun key ↦
      (key, store.listed now key), ((rangeKeys ordered spec)[spec.maxItems],
        store.listed now (rangeKeys ordered spec)[spec.maxItems]), [], ?_, ?_⟩
    · rw [scanCandidates, List.take_add_one, List.getElem?_eq_getElem hmore, List.map_append]
      rfl
    · rw [hcount, List.length_filter_eq_length_iff.mpr hlisted, List.length_take]
      omega

/-- A plain page reports more to come when its item budget is used up with a key left, or when a
value exceeds the byte budget. -/
theorem plainPage_more_iff :
    (store.plainPage ordered spec now).exhausted = false ↔
      (spec.maxItems < (rangeKeys ordered spec).length ∧
        ∀ key ∈ (rangeKeys ordered spec).take spec.maxItems,
          (store.listed now key).isSome = true) ∨
      ScanSpec.OverBudget spec true 0
        (((rangeKeys ordered spec).take (spec.maxItems + 1)).filterMap (store.listed now)) := by
  unfold plainPage
  rw [ScanSpec.fillPage_exhausted_iff, List.length_nil, leftOver_candidates_iff,
    List.filterMap_map]
  rfl

/-- What a window that names index terms matches, in the order of its pages. -/
def termMatches (store : ObjectStore) (ordered : ExtTreeSet Key) (spec : ScanSpec)
    (now : WallTimestamp) : Option (List (Key × StoredObject)) :=
  match spec.indexTerm, spec.indexTermRange with
  | some cursor, _ =>
    some ((store.liveEntries ordered cursor.names now).map fun (key, _, object) ↦ (key, object))
  | none, some cursor =>
    some (((store.liveEntries ordered cursor.names now).mergeSort fun first second ↦
      (compare first.2.1 second.2.1).then (compare first.1 second.1) |>.isLE).map
        fun (key, _, object) ↦ (key, object))
  | none, none => none

theorem scanRange_eq (hordered : store.ordered = some ordered) :
    store.scanRange spec now = .ok (match store.termMatches ordered spec now with
      | some matched => spec.pageSortedMatches matched
      | none => store.plainPage ordered spec now) := by
  unfold scanRange termMatches
  rw [hordered]
  rcases spec.indexTerm with _ | cursor
  · rcases spec.indexTermRange with _ | cursor <;> rfl
  · rfl

/-- What a term matches is an index entry, and no range scan lists it. -/
theorem listed_of_termMatches {matched : List (Key × StoredObject)}
    (hmatched : store.termMatches ordered spec now = some matched) {key : Key}
    (hkey : key ∈ matched.map Prod.fst) : store.listed now key = none := by
  have hentry (names : IndexId → Bytes → Bool) (term : Bytes) (object : StoredObject)
      (hmem : (key, term, object) ∈ store.liveEntries ordered names now) :
      store.listed now key = none := by
    obtain ⟨other, -, hother⟩ := List.mem_filterMap.mp hmem
    split at hother
    · cases hother
    · split at hother
      · cases hother
      next index found primary hdecode =>
        split at hother
        · obtain ⟨live, -, hlive⟩ := Option.map_eq_some_iff.mp hother
          obtain ⟨rfl, -⟩ := Prod.mk.inj hlive
          obtain ⟨hindex, hprimary⟩ := isIndexKey_of_decode hdecode
          simp [listed, hindex, hprimary]
        · cases hother
  obtain ⟨⟨found, object⟩, hmem, rfl⟩ := List.mem_map.mp hkey
  unfold termMatches at hmatched
  split at hmatched
  · cases hmatched
    obtain ⟨⟨first, term, live⟩, hlive, hsame⟩ := List.mem_map.mp hmem
    obtain ⟨rfl, rfl⟩ := Prod.mk.inj hsame
    exact hentry _ term live hlive
  · cases hmatched
    obtain ⟨⟨first, term, live⟩, hlive, hsame⟩ := List.mem_map.mp hmem
    obtain ⟨rfl, rfl⟩ := Prod.mk.inj hsame
    exact hentry _ term live (List.mem_mergeSort.mp hlive)
  · cases hmatched

/-- The entries of the pages that a client reads until one is exhausted; none if there are more
pages than `fuel`. -/
def scanAll (store : ObjectStore) (now : WallTimestamp) : Nat → ScanSpec → Option (List ScanEntry)
  | 0, _ => none
  | fuel + 1, window =>
    match store.scanRange window now with
    | .error _ => none
    | .ok page =>
      if page.exhausted then some page.entries
      else match page.lastKey with
      -- The client gives up on a page without a place to resume from.
      | none => none
      | some last => (store.scanAll now fuel (window.resume last)).map (page.entries ++ ·)

/-- The client reads the page of `next` after that of `window`. -/
def Resumes (store : ObjectStore) (now : WallTimestamp) (window next : ScanSpec) : Prop :=
  ∃ page last, store.scanRange window now = .ok page ∧ page.exhausted = false ∧
    page.lastKey = some last ∧ next = window.resume last

/-- One page of the window ends the scan only if nothing is left to list. Either the keys it looks
at leave nothing listed behind them, or the ones it may list are all listed, or a value among
them exceeds the byte budget. A window that names index terms has to hold nothing at all. -/
def PageClear (store : ObjectStore) (ordered : ExtTreeSet Key) (now : WallTimestamp)
    (window : ScanSpec) : Prop :=
  match store.termMatches ordered window now with
  | some matched => matched = [] ∧ store.listedKeys window now = []
  | none =>
    let keys := rangeKeys ordered window
    (∀ key ∈ keys.drop (window.maxItems + 1), store.listed now key = none) ∨
      (∀ key ∈ keys.take window.maxItems, (store.listed now key).isSome = true) ∨
      ScanSpec.OverBudget window true 0
        ((keys.take (window.maxItems + 1)).filterMap (store.listed now))

/-- What a page with a matched term lists is none of the keys of a range scan. -/
theorem pageSortedMatches_keys {matched : List (Key × StoredObject)}
    (hmatched : store.termMatches ordered spec now = some matched) (hmax : 0 < spec.maxItems)
    (hne : matched ≠ []) :
    ∃ key ∈ (spec.pageSortedMatches matched).entries.map ScanEntry.key,
      store.listed now key = none := by
  obtain ⟨-, front, back, hsplit, hentries, hall, hsome⟩ :=
    @ScanSpec.fillPage_spec spec ((matched.take (spec.maxItems + 1)).map fun entry ↦
      (entry.1, some entry.2)) [] 0 none hmax rfl
  have hkeys : (spec.pageSortedMatches matched).entries.map ScanEntry.key ≠ [] := by
    rcases hexhausted : (spec.pageSortedMatches matched).exhausted with _ | _
    · exact mt List.map_eq_nil_iff.mp (hsome hexhausted)
    · intro hnil
      rw [hall hexhausted, List.append_nil] at hsplit
      rw [← hsplit] at hentries
      have hempty := hentries.symm.trans hnil
      simp only [List.map_nil, List.nil_append, List.map_eq_nil_iff,
        List.filter_eq_nil_iff] at hempty
      obtain ⟨⟨key, object⟩, rest, rfl⟩ := List.exists_cons_of_ne_nil hne
      exact hempty (key, some object) (by simp) rfl
  obtain ⟨key, rest, hcons⟩ := List.exists_cons_of_ne_nil hkeys
  refine ⟨key, hcons ▸ List.mem_cons_self, listed_of_termMatches hmatched ?_⟩
  have hmem : key ∈ (spec.pageSortedMatches matched).entries.map ScanEntry.key :=
    hcons ▸ List.mem_cons_self
  rw [show (spec.pageSortedMatches matched).entries.map ScanEntry.key = _ from hentries] at hmem
  obtain ⟨candidate, hcandidate, rfl⟩ := List.mem_map.mp hmem
  have hfront : candidate ∈ (matched.take (spec.maxItems + 1)).map fun entry ↦
      (entry.1, some entry.2) := by
    rw [hsplit]
    exact List.mem_append_left _ (List.mem_of_mem_filter hcandidate)
  obtain ⟨source, hsource, rfl⟩ := List.mem_map.mp hfront
  exact List.mem_map.mpr ⟨source, List.mem_of_mem_take hsource, rfl⟩

theorem listed_of_mem_listedKeys {key : Key} (h : key ∈ store.listedKeys spec now) :
    store.listed now key ≠ none := by
  intro hnone
  have hlisted := (List.mem_filter.mp h).2
  rw [hnone] at hlisted
  simp at hlisted

/-- A plain page that reports the range exhausted has listed it exactly if the page is clear. -/
theorem plainPage_exhausted (hkeys : ordered.toList = store.objects.keys)
    (hmax : 0 < spec.maxItems) (hplain : store.termMatches ordered spec now = none)
    (hexhausted : (store.plainPage ordered spec now).exhausted = true) :
    (store.plainPage ordered spec now).entries.map ScanEntry.key = store.listedKeys spec now ↔
      store.PageClear ordered now spec := by
  obtain ⟨-, front, back, hrange, hentries, hall, -⟩ :=
    @plainPage_spec store ordered now spec hmax
  have hfront := hall hexhausted
  have hback : (rangeKeys ordered spec).drop (spec.maxItems + 1) = back := by
    have hsplit : (rangeKeys ordered spec).take (spec.maxItems + 1) ++
        (rangeKeys ordered spec).drop (spec.maxItems + 1) = front ++ back := by
      rw [List.take_append_drop, hrange]
    rw [hfront] at hsplit
    exact List.append_cancel_left hsplit
  have hexact : (store.plainPage ordered spec now).entries.map ScanEntry.key =
      store.listedKeys spec now ↔
        ∀ key ∈ (rangeKeys ordered spec).drop (spec.maxItems + 1), store.listed now key = none := by
    rw [hback, hentries, listedKeys_eq hkeys, hrange, List.filter_append, List.self_eq_append_right,
      List.filter_eq_nil_iff]
    simp
  have hstopped : ¬ (store.plainPage ordered spec now).exhausted = false := by simp [hexhausted]
  rw [plainPage_more_iff] at hstopped
  rw [hexact, PageClear, hplain]
  constructor
  · exact Or.inl
  · rintro (hbehind | hlisted | hbudget)
    · exact hbehind
    · by_cases hmore : spec.maxItems < (rangeKeys ordered spec).length
      · exact absurd (Or.inl ⟨hmore, hlisted⟩) hstopped
      · rw [List.drop_eq_nil_of_le (by omega)]
        exact List.forall_mem_nil _
    · exact absurd (Or.inr hbudget) hstopped

/-- What one page may be. -/
theorem scanRange_cases (hkeys : ordered.toList = store.objects.keys)
    (hordered : store.ordered = some ordered) (hmax : 0 < spec.maxItems) :
    ∃ page, store.scanRange spec now = .ok page ∧
      ((page.exhausted = true ∧
          (page.entries.map ScanEntry.key = store.listedKeys spec now ↔
            store.PageClear ordered now spec)) ∨
        (page.exhausted = false ∧ ∃ last, page.lastKey = some last ∧
          ((store.PageClear ordered now spec ∧
              store.listedKeys spec now = page.entries.map ScanEntry.key ++
                store.listedKeys (spec.resume last) now ∧
              (rangeKeys ordered (spec.resume last)).length <
                (rangeKeys ordered spec).length) ∨
            (¬ store.PageClear ordered now spec ∧
              ∃ key ∈ page.entries.map ScanEntry.key, store.listed now key = none)))) := by
  refine ⟨_, scanRange_eq hordered, ?_⟩
  rcases hterm : store.termMatches ordered spec now with _ | matched
  · rcases hexhausted : (store.plainPage ordered spec now).exhausted with _ | _
    · obtain ⟨last, hlast, hresume⟩ := plainPage_resume hkeys hmax hexhausted
      refine Or.inr ⟨rfl, last, hlast, Or.inl ⟨?_, hresume⟩⟩
      rw [PageClear, hterm]
      rcases plainPage_more_iff.mp hexhausted with ⟨-, hlisted⟩ | hbudget
      · exact Or.inr (Or.inl hlisted)
      · exact Or.inr (Or.inr hbudget)
    · exact Or.inl ⟨rfl, plainPage_exhausted hkeys hmax hterm hexhausted⟩
  · by_cases hnil : matched = []
    · subst hnil
      refine Or.inl ⟨rfl, ?_⟩
      rw [PageClear, hterm]
      exact ⟨fun hempty ↦ ⟨rfl, hempty.symm⟩, fun hclear ↦ hclear.2.symm⟩
    · obtain ⟨key, hmem, hskipped⟩ := pageSortedMatches_keys hterm hmax hnil
      have hnot : ¬ store.PageClear ordered now spec := by
        rw [PageClear, hterm]
        exact fun hclear ↦ hnil hclear.1
      rcases hexhausted : (spec.pageSortedMatches matched).exhausted with _ | _
      · refine Or.inr ⟨rfl, ?_⟩
        have hlast := (@ScanSpec.fillPage_spec spec ((matched.take (spec.maxItems + 1)).map
          fun entry ↦ (entry.1, some entry.2)) [] 0 none hmax rfl).1
        obtain ⟨entry, hentry⟩ := List.getLast?_isSome.mpr
          (List.map_eq_nil_iff.not.mp (List.ne_nil_of_mem hmem)) |> Option.isSome_iff_exists.mp
        refine ⟨entry.key, ?_, Or.inr ⟨hnot, key, hmem, hskipped⟩⟩
        exact hlast.trans (congrArg (Option.map ScanEntry.key) hentry)
      · refine Or.inl ⟨rfl, iff_of_false ?_ hnot⟩
        intro hsame
        exact listed_of_mem_listedKeys (hsame ▸ hmem) hskipped

variable {page : ScanPage}

theorem scanAll_exhausted (hpage : store.scanRange spec now = .ok page)
    (hexhausted : page.exhausted = true) (fuel : Nat) :
    store.scanAll now (fuel + 1) spec = some page.entries := by
  rw [scanAll, hpage]
  exact if_pos hexhausted

theorem scanAll_more (hpage : store.scanRange spec now = .ok page) (hmore : page.exhausted = false)
    {last : Key} (hlast : page.lastKey = some last) (fuel : Nat) :
    store.scanAll now (fuel + 1) spec =
      (store.scanAll now fuel (spec.resume last)).map (page.entries ++ ·) := by
  rw [scanAll, hpage]
  dsimp only
  rw [if_neg (by simp [hmore]), hlast]

section

variable {window : ScanSpec} (hpage : store.scanRange spec now = .ok page)
  (hwindow : Relation.ReflTransGen (store.Resumes now) spec window)
include hpage hwindow

/-- A client that is told the end asks for no other window. -/
theorem window_eq_of_exhausted (hexhausted : page.exhausted = true) : window = spec := by
  rcases hwindow.cases_head with rfl | ⟨next, ⟨other, _, hother, hfalse, -⟩, -⟩
  · rfl
  · cases hpage.symm.trans hother
    cases hexhausted.symm.trans hfalse

/-- The other windows are those of the client that has resumed. -/
theorem window_of_lastKey {last : Key} (hlast : page.lastKey = some last) :
    window = spec ∨ Relation.ReflTransGen (store.Resumes now) (spec.resume last) window := by
  rcases hwindow.cases_head with rfl | ⟨next, ⟨other, found, hother, -, hfound, rfl⟩, hnext⟩
  · exact Or.inl rfl
  · cases hpage.symm.trans hother
    cases hlast.symm.trans hfound
    exact Or.inr hnext

end

section

variable (hkeys : ordered.toList = store.objects.keys) (hordered : store.ordered = some ordered)
  (hmax : 0 < spec.maxItems)
include hkeys hordered hmax

/-- A scan that lists its range exactly has met clear pages only. -/
theorem pageClear_of_scanAll {fuel : Nat} {entries : List ScanEntry}
    (hscan : store.scanAll now fuel spec = some entries)
    (hlisted : entries.map ScanEntry.key = store.listedKeys spec now) {window : ScanSpec}
    (hwindow : Relation.ReflTransGen (store.Resumes now) spec window) :
    store.PageClear ordered now window := by
  induction fuel generalizing spec entries with
  | zero => cases hscan
  | succ fuel ih =>
    obtain ⟨page, hpage, hcases⟩ := @scanRange_cases store ordered now spec hkeys hordered hmax
    rcases hcases with ⟨hexhausted, hiff⟩ | ⟨hmore, last, hlast, hpages⟩
    · rw [scanAll_exhausted hpage hexhausted] at hscan
      cases hscan
      rw [window_eq_of_exhausted hpage hwindow hexhausted]
      exact hiff.mp hlisted
    · rw [scanAll_more hpage hmore hlast] at hscan
      obtain ⟨rest, hrest, rfl⟩ := Option.map_eq_some_iff.mp hscan
      rw [List.map_append] at hlisted
      rcases hpages with ⟨hclear, hsplit, -⟩ | ⟨-, key, hmem, hskipped⟩
      · rcases window_of_lastKey hpage hwindow hlast with rfl | hnext
        · exact hclear
        · refine ih ?_ hrest ?_ hnext
          · rwa [ScanSpec.resume_maxItems]
          · exact List.append_cancel_left (hlisted.trans hsplit)
      · have hkey : key ∈ store.listedKeys spec now := by
          rw [← hlisted]
          exact List.mem_append_left _ hmem
        exact absurd hskipped (listed_of_mem_listedKeys hkey)

/-- A scan whose pages are all clear comes to its end and lists its range exactly. -/
theorem scanAll_of_pageClear
    (hclear : ∀ window, Relation.ReflTransGen (store.Resumes now) spec window →
      store.PageClear ordered now window) :
    ∃ fuel entries, store.scanAll now fuel spec = some entries ∧
      entries.map ScanEntry.key = store.listedKeys spec now := by
  -- Each resumed window holds fewer keys.
  induction hlength : (rangeKeys ordered spec).length using Nat.strongRecOn generalizing spec with
  | ind length ih =>
    obtain ⟨page, hpage, hcases⟩ := @scanRange_cases store ordered now spec hkeys hordered hmax
    have hself := hclear spec Relation.ReflTransGen.refl
    rcases hcases with ⟨hexhausted, hiff⟩ | ⟨hmore, last, hlast, hpages⟩
    · exact ⟨1, page.entries, scanAll_exhausted hpage hexhausted 0, hiff.mpr hself⟩
    · rcases hpages with ⟨-, hsplit, hshorter⟩ | ⟨hnot, -⟩
      · have hmaxNext : 0 < (spec.resume last).maxItems := by rwa [ScanSpec.resume_maxItems]
        have hclearNext (window : ScanSpec)
            (hwindow : Relation.ReflTransGen (store.Resumes now) (spec.resume last) window) :
            store.PageClear ordered now window :=
          hclear window (hwindow.head ⟨page, last, hpage, hmore, hlast, rfl⟩)
        obtain ⟨fuel, rest, hrest, hlisted⟩ :=
          ih _ (hlength ▸ hshorter) hmaxNext hclearNext rfl
        refine ⟨fuel + 1, page.entries ++ rest, ?_, ?_⟩
        · rw [scanAll_more hpage hmore hlast, hrest]
          rfl
        · rw [List.map_append, hlisted, hsplit]
      · exact absurd hself hnot

end

/-- Reading a range to its end lists every live key that a scan may list, in order and once, if
and only if every page on the way is clear. The keys a scan may list are the user keys and the
unique index entries; non-unique entries are read by term. -/
theorem scanAll_complete_iff (hmirrors : store.Mirrors) (hordered : store.ordered = some ordered)
    (hmax : 0 < spec.maxItems) :
    (∃ fuel entries, store.scanAll now fuel spec = some entries ∧
        entries.map ScanEntry.key = store.listedKeys spec now) ↔
      ∀ window, Relation.ReflTransGen (store.Resumes now) spec window →
        store.PageClear ordered now window := by
  have hkeys := toList_of_mirrors hmirrors hordered
  constructor
  · rintro ⟨fuel, entries, hscan, hlisted⟩ window hwindow
    exact pageClear_of_scanAll hkeys hordered hmax hscan hlisted hwindow
  · exact scanAll_of_pageClear hkeys hordered hmax

/-- The keys `[1]` and `[2]` expire at 5, and `[3]` stays. -/
def expiringKeys : ObjectStore :=
  (run applyStep ObjectStore.new
    [(.putBytesWithExpiry [1] [7] (.expiresAt ⟨5⟩), ⟨0⟩),
      (.putBytesWithExpiry [2] [8] (.expiresAt ⟨5⟩), ⟨0⟩),
      (.putBytes [3] [9], ⟨0⟩)]).rebuildOrderedIndex

/-- All keys, one to a page. -/
def oneByOne : ScanSpec := ⟨none, none, .forward, 1, 64, .keysOnly⟩

/-- Before anything expires, the three pages of the three keys are clear, so all of them are
listed. -/
theorem expiringKeys_listed :
    (∀ window, Relation.ReflTransGen (expiringKeys.Resumes ⟨0⟩) oneByOne window →
        expiringKeys.PageClear (expiringKeys.ordered.getD ∅) ⟨0⟩ window) ∧
      ∃ fuel entries, expiringKeys.scanAll ⟨0⟩ fuel oneByOne = some entries ∧
        entries.map ScanEntry.key = [[1], [2], [3]] := by
  have hclear (window : ScanSpec)
      (hwindow : Relation.ReflTransGen (expiringKeys.Resumes ⟨0⟩) oneByOne window) :
      expiringKeys.PageClear (expiringKeys.ordered.getD ∅) ⟨0⟩ window := by
    have hfirst : expiringKeys.scanRange oneByOne ⟨0⟩ = .ok ⟨[⟨[1], none⟩], false, some [1]⟩ := by
      rfl
    have hsecond : expiringKeys.scanRange (oneByOne.resume [1]) ⟨0⟩ =
        .ok ⟨[⟨[2], none⟩], false, some [2]⟩ := by rfl
    have hthird : expiringKeys.scanRange ((oneByOne.resume [1]).resume [2]) ⟨0⟩ =
        .ok ⟨[⟨[3], none⟩], true, some [3]⟩ := by rfl
    rcases window_of_lastKey hfirst hwindow rfl with rfl | hwindow
    · exact Or.inr (Or.inl (by decide))
    rcases window_of_lastKey hsecond hwindow rfl with rfl | hwindow
    · exact Or.inr (Or.inl (by decide))
    rw [window_eq_of_exhausted hthird hwindow rfl]
    exact Or.inr (Or.inl (by decide))
  have hkeys : expiringKeys.listedKeys oneByOne ⟨0⟩ = [[1], [2], [3]] := by decide
  rw [← hkeys]
  exact ⟨hclear, (scanAll_complete_iff (mirrors_rebuildOrderedIndex _) rfl Nat.zero_lt_one).mpr
    hclear⟩

/-- Once two keys have expired, the first page looks at those two only and ends the scan with the
third key unread. -/
theorem expired_keys_end_scan :
    expiringKeys.ordered.isSome = true ∧ expiringKeys.listedKeys oneByOne ⟨9⟩ = [[3]] ∧
      ¬ ∃ fuel entries, expiringKeys.scanAll ⟨9⟩ fuel oneByOne = some entries ∧
        entries.map ScanEntry.key = expiringKeys.listedKeys oneByOne ⟨9⟩ := by
  have hkeys : expiringKeys.listedKeys oneByOne ⟨9⟩ = [[3]] := by decide
  have hpage : expiringKeys.scanRange oneByOne ⟨9⟩ = .ok ⟨[], true, none⟩ := by rfl
  refine ⟨rfl, hkeys, ?_⟩
  rintro ⟨fuel, entries, hscan, hlisted⟩
  cases fuel with
  | zero => cases hscan
  | succ fuel =>
    rw [scanAll_exhausted hpage rfl] at hscan
    cases hscan
    cases hlisted.trans hkeys

end ObjectStore

end Kivi.State
