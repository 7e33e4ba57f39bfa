import Kivi.State.IndexOrder

/-!
# Reading the entries of index terms page by page

A window that names one term, or a range of terms, of an index is recognised by its exact ends, and
its page lists the entries of those terms. The client resumes as it does any scan, behind the last
key of the page, and the resumed window no longer has that shape: it starts inside an entry
(`termPrefixParts_resumed`). It is read as a plain range, and plain ranges pass over index entries.
So whatever the first page leaves out is never listed, and reading a term is complete exactly if its
entries fit one page (`term_scan_complete_iff`).

Entries are recognised by decoding their keys. One whose primary begins with the escape byte does
not decode, so a term with such an entry is not complete either.
-/

namespace Kivi.State

open Library Library.EscapedFields Kivi.Library.Runs
open ScanSpec

/-! ### Queries -/

/-- What a client asks of an index. -/
inductive TermQuery where
  | term (cursor : IndexTermCursor)
  | range (cursor : IndexTermRangeCursor)
deriving DecidableEq

variable {term : Bytes}

namespace TermQuery

def names : TermQuery → IndexId → Bytes → Bool
  | .term cursor => cursor.names
  | .range cursor => cursor.names

/-- A range of terms is not empty. -/
def WellFormed : TermQuery → Prop
  | .term _ => True
  | .range cursor => bytesLt cursor.startTerm cursor.endTerm = true

/-- The window that asks for the terms, with a page budget. -/
def window (query : TermQuery) (maxItems maxBytes : Nat) (projection : ScanProjection) :
    ScanSpec :=
  match query with
  | .term cursor =>
    ⟨some (termPrefix cursor.index cursor.term),
      prefixSuccessor (termPrefix cursor.index cursor.term), .forward, maxItems, maxBytes,
      projection⟩
  | .range cursor =>
    ⟨some (termPrefix cursor.index cursor.startTerm),
      some (termPrefix cursor.index cursor.endTerm), .forward, maxItems, maxBytes, projection⟩

variable {query : TermQuery} {maxItems maxBytes : Nat} {projection : ScanProjection}

@[simp] theorem window_maxItems :
    (query.window maxItems maxBytes projection).maxItems = maxItems := by
  cases query <;> rfl

@[simp] theorem window_direction :
    (query.window maxItems maxBytes projection).direction = .forward := by
  cases query <;> rfl

/-- All terms that a query names are of one index. -/
theorem index_eq_of_names {index other : IndexId} {field : Bytes}
    (h : query.names index term = true) (h' : query.names other field = true) :
    index = other := by
  cases query with
  | term cursor =>
    simp only [names, IndexTermCursor.names, decide_eq_true_eq] at h h'
    exact h.1.trans h'.1.symm
  | range cursor =>
    simp only [names, IndexTermRangeCursor.names, Bool.and_eq_true, decide_eq_true_eq] at h h'
    exact h.1.1.trans h'.1.1.symm

end TermQuery

theorem termPrefixParts_termPrefix (index : IndexId) (term : Bytes) :
    termPrefixParts (termPrefix index term) = some (index, term) := by
  rw [termPrefixParts, termPrefix_eq, takeIndexHeader_append]
  dsimp only
  rw [takeEscaped_single]

/-- A term prefix ends with a terminator, which no successor does. -/
theorem termPrefix_ne_successor {index other : IndexId} {field : Bytes} :
    prefixSuccessor (termPrefix index term) ≠ some (termPrefix other field) := by
  obtain ⟨front, hfront⟩ := pushEscaped_eq_concat term
  obtain ⟨front', hfront'⟩ := pushEscaped_eq_concat field
  rw [termPrefix_eq, termPrefix_eq, hfront, hfront', ← List.append_assoc, ← List.append_assoc,
    prefixSuccessor, List.reverse_append]
  intro heq
  have hlast := (List.append_inj' (Option.some.inj heq) rfl).2
  cases hlast

/-- Behind an entry, no window starts with a term. -/
theorem termPrefixParts_resumed (entry : IndexEntry) :
    termPrefixParts (keySuccessor entry.key) = none := by
  rw [termPrefixParts, keySuccessor, IndexEntry.key, encodeNonUniqueKey_eq,
    List.append_assoc, takeIndexHeader_append]
  dsimp only
  by_cases hescape : entry.primary.head? = some 0xFF
  · obtain ⟨rest, hrest⟩ := List.head?_eq_some_iff.mp hescape
    have hread : takeEscaped (pushEscaped (entry.term ++ 0 :: rest) ++ [0]) =
        .ok (entry.term ++ 0 :: rest, [0]) := takeEscaped_pushEscaped (by simp)
    rw [hrest, pushEscaped_append_escape, hread]
  · have hread : takeEscaped (pushEscaped entry.term ++ (pushEscaped entry.primary ++ [0])) =
        .ok (entry.term, pushEscaped entry.primary ++ [0]) := by
      refine takeEscaped_pushEscaped fun hhead ↦ hescape (head?_pushEscaped.mp ?_)
      rwa [List.head?_append_of_ne_nil] at hhead
      rw [pushEscaped_eq]
      exact terminated_ne_nil entry.primary
    rw [List.append_assoc, hread]
    split
    next term hnil =>
      have hempty := (Prod.mk.inj (Except.ok.inj hnil)).2
      simp at hempty
    next => rfl

variable {spec : ScanSpec}

/-- A window that starts behind an entry names no term. -/
theorem termMatches_resumed {store : ObjectStore} {ordered : Std.ExtTreeSet Key}
    {now : WallTimestamp} (hforward : spec.direction = .forward) (entry : IndexEntry) :
    store.termMatches ordered (spec.resume entry.key) now = none := by
  have hstart : (spec.resume entry.key).start = some (keySuccessor entry.key) := by
    rw [ScanSpec.resume, hforward]
  have hdirection : (spec.resume entry.key).direction = .forward := by
    rw [resume_direction, hforward]
  have hterm : (spec.resume entry.key).indexTerm = none := by
    rw [indexTerm, hstart, hdirection]
    cases (spec.resume entry.key).stop with
    | none => rfl
    | some stop =>
      dsimp only
      rw [termPrefixParts_resumed]
  have hrange : (spec.resume entry.key).indexTermRange = none := by
    rw [indexTermRange, hstart, hdirection]
    cases (spec.resume entry.key).stop with
    | none => rfl
    | some stop =>
      dsimp only
      rw [termPrefixParts_resumed]
  rw [ObjectStore.termMatches, hterm, hrange]

/-! ### The entries of a query -/

variable {key : Key}

namespace ObjectStore

variable {store : ObjectStore} {ordered : Std.ExtTreeSet Key} {query : TermQuery}
  {now : WallTimestamp}

/-- The key is that of an entry under a term that the query names. -/
def EntryOf (query : TermQuery) (key : Key) : Prop :=
  ∃ entry : IndexEntry, query.names entry.index entry.term = true ∧ entry.key = key

open Classical in
/-- The live entries under the terms of a query, in key order. -/
noncomputable def termKeys (store : ObjectStore) (query : TermQuery) (now : WallTimestamp) :
    List Key :=
  store.objects.keys.filter fun key ↦ decide (EntryOf query key) && (store.get key now).isSome

/-- What the pages of a query are filled from. -/
def matchedEntries (store : ObjectStore) (ordered : Std.ExtTreeSet Key) (query : TermQuery)
    (now : WallTimestamp) : List (Key × StoredObject) :=
  (store.liveEntries ordered query.names now).map fun (key, _, object) ↦ (key, object)

/-- What one key contributes to the entries of a query. -/
def liveEntry (store : ObjectStore) (names : IndexId → Bytes → Bool) (now : WallTimestamp)
    (key : Key) : Option (Key × Bytes × StoredObject) :=
  if Key.isSystem key then none
  else match decodeNonUniqueKey key with
  | .error _ => none
  | .ok (index, term, _) =>
    if names index term then (store.get key now).map fun object ↦ (key, term, object) else none

theorem liveEntries_eq (names : IndexId → Bytes → Bool) :
    store.liveEntries ordered names now =
      ordered.toList.filterMap (store.liveEntry names now) := rfl

variable {names : IndexId → Bytes → Bool}

/-- A live entry is stored and was written for a term that is asked for. -/
theorem liveEntry_eq_some_iff {found : Key} {object : StoredObject} :
    store.liveEntry names now key = some (found, term, object) ↔
      found = key ∧ store.get key now = some object ∧
        ∃ entry : IndexEntry, entry.key = key ∧ entry.term = term ∧ entry.Unescaped ∧
          names entry.index entry.term = true := by
  unfold liveEntry
  constructor
  · intro hlisted
    split at hlisted
    · cases hlisted
    · split at hlisted
      · cases hlisted
      next index foundTerm primary hdecode =>
        split at hlisted
        next hnames =>
          obtain ⟨live, hlive, hsame⟩ := Option.map_eq_some_iff.mp hlisted
          cases hsame
          obtain ⟨hkey, hclear⟩ := decodeNonUniqueKey_eq_ok_iff.mp hdecode
          exact ⟨rfl, hlive, ⟨index, term, primary⟩, hkey.symm, rfl, hclear, hnames⟩
        next => cases hlisted
  · rintro ⟨rfl, hlive, entry, rfl, rfl, hclear, hnames⟩
    have hdecode : decodeNonUniqueKey entry.key = .ok (entry.index, entry.term, entry.primary) :=
      (decodeNonUniqueKey_encode_iff _ _ _).mpr hclear
    have hsystem : Key.isSystem entry.key = false := rfl
    rw [hsystem, hdecode]
    simp [hnames, hlive]

theorem mem_liveEntries_iff {object : StoredObject} :
    (key, term, object) ∈ store.liveEntries ordered names now ↔
      key ∈ ordered.toList ∧ store.get key now = some object ∧
        ∃ entry : IndexEntry, entry.key = key ∧ entry.term = term ∧ entry.Unescaped ∧
          names entry.index entry.term = true := by
  rw [liveEntries_eq, List.mem_filterMap]
  constructor
  · rintro ⟨found, hfound, hlisted⟩
    obtain ⟨rfl, hentry⟩ := liveEntry_eq_some_iff.mp hlisted
    exact ⟨hfound, hentry⟩
  · rintro ⟨hmem, hentry⟩
    exact ⟨key, hmem, liveEntry_eq_some_iff.mpr ⟨rfl, hentry⟩⟩

/-- Entries are matched in key order. -/
theorem pairwise_liveEntries (names : IndexId → Bytes → Bool) :
    (store.liveEntries ordered names now).Pairwise fun first second ↦
      bytesLt first.1 second.1 = true := by
  rw [liveEntries_eq, List.pairwise_filterMap]
  refine (pairwise_toList ordered).imp ?_
  intro key key' hlt first hfirst second hsecond
  rw [(liveEntry_eq_some_iff.mp hfirst).1, (liveEntry_eq_some_iff.mp hsecond).1]
  exact hlt

/-- Sorting the entries of a query by term changes nothing: their keys already do. -/
theorem mergeSort_liveEntries :
    (store.liveEntries ordered query.names now).mergeSort (fun first second ↦
      (compare first.2.1 second.2.1).then (compare first.1 second.1) |>.isLE) =
        store.liveEntries ordered query.names now := by
  refine List.mergeSort_of_pairwise ((pairwise_liveEntries _).imp_of_mem ?_)
  rintro ⟨key, term, object⟩ ⟨key', term', object'⟩ hmem hmem' hlt
  obtain ⟨-, -, entry, rfl, rfl, hclear, hnames⟩ := mem_liveEntries_iff.mp hmem
  obtain ⟨-, -, other, rfl, rfl, hclear', hnames'⟩ := mem_liveEntries_iff.mp hmem'
  have hcompare : compare entry.key other.key = .lt := by simpa [bytesLt] using hlt
  have hfields : compare entry.key other.key =
      (compare entry.term other.term).then (compare entry.primary other.primary) := by
    rw [IndexEntry.key, IndexEntry.key, query.index_eq_of_names hnames hnames']
    exact compare_encodeNonUniqueKey _ hclear hclear'
  dsimp only
  rw [hcompare]
  rcases hterm : compare entry.term other.term with _ | _ | _
  · rfl
  · rfl
  · rw [hterm, hcompare] at hfields
    cases hfields

/-- The window of a query is recognised as what it is. -/
theorem termMatches_window (hquery : query.WellFormed) (maxItems maxBytes : Nat)
    (projection : ScanProjection) :
    store.termMatches ordered (query.window maxItems maxBytes projection) now =
      some (store.matchedEntries ordered query now) := by
  cases query with
  | term cursor =>
    obtain ⟨stop, hstop⟩ := prefixSuccessor_termPrefix cursor.index cursor.term
    have hterm : ((TermQuery.term cursor).window maxItems maxBytes projection).indexTerm =
        some cursor := by
      rw [indexTerm, TermQuery.window, hstop]
      dsimp only
      rw [termPrefixParts_termPrefix]
      dsimp only
      rw [if_pos ⟨rfl, hstop.symm⟩]
    rw [termMatches, hterm]
    rfl
  | range cursor =>
    have hterm : ((TermQuery.range cursor).window maxItems maxBytes projection).indexTerm =
        none := by
      rw [indexTerm, TermQuery.window]
      dsimp only
      rw [termPrefixParts_termPrefix]
      dsimp only
      rw [if_neg]
      rintro ⟨-, hstop⟩
      exact termPrefix_ne_successor hstop.symm
    have hrange : ((TermQuery.range cursor).window maxItems maxBytes projection).indexTermRange =
        some cursor := by
      rw [indexTermRange, TermQuery.window]
      dsimp only
      rw [termPrefixParts_termPrefix, termPrefixParts_termPrefix]
      dsimp only
      rw [if_pos ⟨rfl, rfl, rfl, hquery⟩]
    rw [termMatches, hterm, hrange]
    dsimp only
    have hsorted := @mergeSort_liveEntries store ordered (.range cursor) now
    rw [TermQuery.names] at hsorted
    rw [hsorted]
    rfl

/-! ### The page of a query -/

end ObjectStore

variable {entries : List ScanEntry}

namespace ScanSpec

variable {spec : ScanSpec}

/-- A page that reports more to come has stopped in front of a candidate. -/
theorem fillPage_stops {candidates : List (Key × Option StoredObject)} {used : Nat}
    {lastKey : Option Key} (h : (spec.fillPage candidates entries used lastKey).exhausted = false) :
    ∃ front candidate back, candidates = front ++ candidate :: back ∧
      (spec.fillPage candidates entries used lastKey).entries.map ScanEntry.key =
        entries.map ScanEntry.key ++
          (front.filter fun candidate ↦ candidate.2.isSome).map Prod.fst := by
  induction candidates generalizing entries used lastKey with
  | nil => cases h
  | cons candidate rest ih =>
    obtain ⟨key, listed⟩ := candidate
    unfold fillPage at h ⊢
    split at h
    next hfull =>
      rw [if_pos hfull]
      exact ⟨[], (key, listed), rest, rfl, by simp⟩
    next hroom =>
      rw [if_neg hroom]
      cases listed with
      | none =>
        obtain ⟨front, candidate, back, rfl, hentries⟩ := ih h
        exact ⟨(key, none) :: front, candidate, back, rfl, by simpa using hentries⟩
      | some object =>
        dsimp only at h ⊢
        cases hproject : spec.project entries.isEmpty used object.value with
        | none => exact ⟨[], (key, some object), rest, rfl, by simp⟩
        | some projected =>
          rw [hproject] at h
          obtain ⟨front, candidate, back, rfl, hentries⟩ := ih h
          exact ⟨(key, some object) :: front, candidate, back, rfl, by simpa using hentries⟩

/-- The candidates of a page of matches. -/
def matchCandidates (spec : ScanSpec) (matched : List (Key × StoredObject)) :
    List (Key × Option StoredObject) :=
  (matched.take (spec.maxItems + 1)).map fun (key, object) ↦ (key, some object)

section

variable (matched : List (Key × StoredObject))

theorem pageSortedMatches_eq :
    spec.pageSortedMatches matched = spec.fillPage (spec.matchCandidates matched) [] 0 none := rfl

theorem filter_matchCandidates :
    (spec.matchCandidates matched).filter (fun candidate ↦ candidate.2.isSome) =
      spec.matchCandidates matched := by
  refine List.filter_eq_self.mpr fun candidate hmem ↦ ?_
  obtain ⟨pair, -, rfl⟩ := List.mem_map.mp hmem
  rfl

theorem map_fst_matchCandidates :
    (spec.matchCandidates matched).map Prod.fst =
      (matched.take (spec.maxItems + 1)).map Prod.fst := by
  rw [matchCandidates, List.map_map]
  rfl

theorem leftOver_matchCandidates_iff :
    LeftOver spec 0 (spec.matchCandidates matched) ↔ spec.maxItems < matched.length := by
  have hlength : (spec.matchCandidates matched).length =
      min (spec.maxItems + 1) matched.length := by
    rw [matchCandidates, List.length_map, List.length_take]
  constructor
  · rintro ⟨front, candidate, back, hsplit, hfull⟩
    have hfilter := List.length_filter_le (fun candidate : Key × Option StoredObject ↦
      candidate.2.isSome) front
    rw [hsplit, List.length_append, List.length_cons] at hlength
    omega
  · intro hmore
    have hlong : spec.maxItems < (spec.matchCandidates matched).length := by omega
    refine ⟨(spec.matchCandidates matched).take spec.maxItems,
      (spec.matchCandidates matched)[spec.maxItems], (spec.matchCandidates matched).drop
        (spec.maxItems + 1), ?_, ?_⟩
    · rw [← List.drop_eq_getElem_cons hlong, List.take_append_drop]
    · rw [List.filter_eq_self.mpr, List.length_take]
      · omega
      · intro candidate hmem
        rw [← filter_matchCandidates] at hmem
        exact (List.mem_filter.mp (List.mem_of_mem_take hmem)).2

/-- A page of matches ends the scan exactly if it has room for all of them. -/
theorem pageSortedMatches_exhausted_iff :
    (spec.pageSortedMatches matched).exhausted = true ↔
      matched.length ≤ spec.maxItems ∧ ¬OverBudget spec true 0 (matched.map Prod.snd) := by
  have hmore := @fillPage_exhausted_iff spec (spec.matchCandidates matched) [] 0 none
  have hobjects : (spec.matchCandidates matched).filterMap Prod.snd =
      (matched.take (spec.maxItems + 1)).map Prod.snd := by
    rw [matchCandidates, List.filterMap_map, ← List.filterMap_eq_map]
    rfl
  rw [List.length_nil, leftOver_matchCandidates_iff, hobjects] at hmore
  rw [← Bool.not_eq_false, pageSortedMatches_eq, hmore, not_or, Nat.not_lt]
  refine and_congr_right fun hfits ↦ ?_
  rw [List.take_of_length_le (Nat.le_succ_of_le hfits)]
  rfl

end

variable {matched : List (Key × StoredObject)}

theorem pageSortedMatches_keys_of_exhausted (hmax : 0 < spec.maxItems)
    (h : (spec.pageSortedMatches matched).exhausted = true) :
    (spec.pageSortedMatches matched).entries.map ScanEntry.key = matched.map Prod.fst := by
  obtain ⟨hfits, -⟩ := (pageSortedMatches_exhausted_iff matched).mp h
  obtain ⟨-, front, back, hsplit, hentries, hall, -⟩ :=
    @fillPage_spec spec (spec.matchCandidates matched) [] 0 none hmax rfl
  rw [hall h, List.append_nil] at hsplit
  rw [pageSortedMatches_eq, hentries, ← hsplit, filter_matchCandidates, map_fst_matchCandidates,
    List.take_of_length_le (Nat.le_succ_of_le hfits)]
  rfl

/-- A page of matches that reports more to come has left one out. -/
theorem exists_unlisted_match (hnodup : (matched.map Prod.fst).Nodup)
    (h : (spec.pageSortedMatches matched).exhausted = false) :
    ∃ key ∈ matched.map Prod.fst,
      key ∉ (spec.pageSortedMatches matched).entries.map ScanEntry.key := by
  rw [pageSortedMatches_eq] at h ⊢
  obtain ⟨front, candidate, back, hsplit, hentries⟩ := fillPage_stops h
  have htaken := @map_fst_matchCandidates spec matched
  rw [hsplit, List.map_append, List.map_cons] at htaken
  have hdistinct : (front.map Prod.fst ++ candidate.1 :: back.map Prod.fst).Nodup := by
    rw [htaken, List.map_take]
    exact hnodup.sublist (List.take_sublist _ _)
  refine ⟨candidate.1, ?_, ?_⟩
  · have hmem : candidate.1 ∈ (matched.take (spec.maxItems + 1)).map Prod.fst := by
      rw [← htaken]
      simp
    rw [List.map_take] at hmem
    exact List.mem_of_mem_take hmem
  · rw [hentries]
    intro hmem
    have hfront : candidate.1 ∈ front.map Prod.fst := by
      obtain ⟨other, hother, hkey⟩ := List.mem_map.mp hmem
      exact hkey ▸ List.mem_map_of_mem (List.mem_of_mem_filter hother)
    exact (List.nodup_append.mp hdistinct).2.2 _ hfront _ List.mem_cons_self rfl

end ScanSpec

namespace ObjectStore

variable {store : ObjectStore} {ordered : Std.ExtTreeSet Key} {query : TermQuery}
  {now : WallTimestamp}

theorem mem_termKeys_iff :
    key ∈ store.termKeys query now ↔ EntryOf query key ∧ (store.get key now).isSome = true := by
  rw [termKeys, List.mem_filter, Std.ExtTreeMap.mem_keys]
  simp only [Bool.and_eq_true, decide_eq_true_eq]
  constructor
  · exact And.right
  · intro hlive
    refine ⟨?_, hlive⟩
    rw [Std.ExtTreeMap.mem_iff_isSome_getElem?]
    cases hstored : store.objects[key]? with
    | some object => rfl
    | none =>
      rw [get, hstored] at hlive
      exact absurd hlive.2 Bool.false_ne_true

theorem map_fst_matchedEntries :
    (store.matchedEntries ordered query now).map Prod.fst =
      ordered.toList.filter fun key ↦ (store.liveEntry query.names now key).isSome := by
  rw [matchedEntries, liveEntries_eq, List.map_map, List.map_filterMap, ← List.filterMap_eq_filter]
  congr 1
  funext key
  rcases hentry : store.liveEntry query.names now key with _ | ⟨found, term, object⟩
  · simp [Option.guard, hentry]
  · obtain ⟨rfl, -⟩ := liveEntry_eq_some_iff.mp hentry
    simp [Option.guard, hentry]

theorem map_snd_matchedEntries :
    (store.matchedEntries ordered query now).map Prod.snd =
      ((store.matchedEntries ordered query now).map Prod.fst).filterMap (store.get · now) := by
  rw [List.filterMap_map, ← List.filterMap_eq_map]
  refine List.filterMap_congr fun pair hmem ↦ ?_
  obtain ⟨⟨key, term, object⟩, hlive, rfl⟩ := List.mem_map.mp hmem
  exact (mem_liveEntries_iff.mp hlive).2.1.symm

theorem mem_matchedEntries_iff {key : Key} :
    key ∈ (store.matchedEntries ordered query now).map Prod.fst ↔
      key ∈ ordered.toList ∧ (store.get key now).isSome = true ∧
        ∃ entry : IndexEntry, entry.key = key ∧ entry.Unescaped ∧
          query.names entry.index entry.term = true := by
  rw [map_fst_matchedEntries, List.mem_filter]
  refine and_congr_right fun _ ↦ ?_
  constructor
  · intro hlisted
    obtain ⟨⟨found, term, object⟩, hentry⟩ := Option.isSome_iff_exists.mp hlisted
    obtain ⟨-, hlive, entry, hkey, -, hclear, hnames⟩ := liveEntry_eq_some_iff.mp hentry
    exact ⟨by rw [hlive]; rfl, entry, hkey, hclear, hnames⟩
  · rintro ⟨hlive, entry, hkey, hclear, hnames⟩
    obtain ⟨object, hobject⟩ := Option.isSome_iff_exists.mp hlive
    rw [liveEntry_eq_some_iff.mpr ⟨rfl, hobject, entry, hkey, rfl, hclear, hnames⟩]
    rfl

/-- A query matches all its live entries exactly if none of them has an escaped primary. -/
theorem map_fst_matchedEntries_eq_iff (hkeys : ordered.toList = store.objects.keys) :
    (store.matchedEntries ordered query now).map Prod.fst = store.termKeys query now ↔
      ∀ entry : IndexEntry, query.names entry.index entry.term = true →
        (store.get entry.key now).isSome = true → entry.Unescaped := by
  constructor
  · intro hall entry hnames hlive
    have hmem : entry.key ∈ store.termKeys query now :=
      mem_termKeys_iff.mpr ⟨⟨entry, hnames, rfl⟩, hlive⟩
    rw [← hall] at hmem
    obtain ⟨-, -, other, hkey, hclear, -⟩ := mem_matchedEntries_iff.mp hmem
    intro hescape
    obtain ⟨index, term, hunique⟩ := (exists_encodeUniqueKey_iff _ _ _).mpr hescape
    exact hclear ((exists_encodeUniqueKey_iff _ _ _).mp ⟨index, term, hunique.trans hkey.symm⟩)
  · intro hclear
    classical
    rw [map_fst_matchedEntries, termKeys, hkeys]
    refine List.filter_congr fun key hmem ↦ ?_
    rw [Bool.eq_iff_iff, Bool.and_eq_true, decide_eq_true_eq]
    have hmatched := @mem_matchedEntries_iff store ordered query now key
    rw [map_fst_matchedEntries, List.mem_filter, hkeys] at hmatched
    constructor
    · intro hlisted
      obtain ⟨-, hlive, entry, hkey, -, hnames⟩ := hmatched.mp ⟨hmem, hlisted⟩
      exact ⟨⟨entry, hnames, hkey⟩, hlive⟩
    · rintro ⟨⟨entry, hnames, rfl⟩, hlive⟩
      exact (hmatched.mpr ⟨hmem, hlive, entry, rfl, hclear entry hnames hlive, hnames⟩).2

theorem nodup_matchedEntries : ((store.matchedEntries ordered query now).map Prod.fst).Nodup := by
  rw [map_fst_matchedEntries]
  refine List.Nodup.filter _ ((pairwise_toList ordered).imp ?_)
  rintro first second hlt rfl
  simp [bytesLt] at hlt

/-! ### Reading on -/

section

variable (hordered : store.ordered = some ordered) (hmax : 0 < spec.maxItems)
  (hforward : spec.direction = .forward) {fuel : Nat}

include hordered hmax hforward

/-- Reading on from a plain window stays with plain windows as long as it meets entries only, so
all that it lists is what plain windows list. -/
theorem scanAll_plain (hplain : store.termMatches ordered spec now = none)
    (hscan : store.scanAll now fuel spec = some entries)
    (hentries : ∀ key ∈ entries.map ScanEntry.key, ∃ entry : IndexEntry, entry.key = key) :
    ∀ key ∈ entries.map ScanEntry.key, store.listed now key ≠ none := by
  induction fuel generalizing spec entries with
  | zero => cases hscan
  | succ fuel ih =>
    have hpage := @scanRange_eq store ordered now spec hordered
    rw [hplain] at hpage
    obtain ⟨hlast, front, back, -, hlisted, -⟩ := @plainPage_spec store ordered now spec hmax
    have hfirst : ∀ key ∈ (store.plainPage ordered spec now).entries.map ScanEntry.key,
        store.listed now key ≠ none := by
      intro key hmem
      rw [hlisted] at hmem
      exact Option.isSome_iff_ne_none.mp (List.mem_filter.mp hmem).2
    cases hmore : (store.plainPage ordered spec now).exhausted with
    | true =>
      rw [scanAll_exhausted hpage hmore] at hscan
      cases hscan
      exact hfirst
    | false =>
      cases hkey : (store.plainPage ordered spec now).lastKey with
      | none =>
        rw [scanAll, hpage] at hscan
        dsimp only at hscan
        rw [if_neg (by simp [hmore]), hkey] at hscan
        cases hscan
      | some last =>
        rw [scanAll_more hpage hmore hkey] at hscan
        obtain ⟨rest, hrest, rfl⟩ := Option.map_eq_some_iff.mp hscan
        rw [List.map_append] at hentries ⊢
        have hmem : last ∈ (store.plainPage ordered spec now).entries.map ScanEntry.key :=
          List.mem_of_getLast? (hlast.symm.trans hkey)
        obtain ⟨entry, rfl⟩ := hentries last (List.mem_append_left _ hmem)
        have hresumed : 0 < (spec.resume entry.key).maxItems := by rwa [resume_maxItems]
        have hdirection : (spec.resume entry.key).direction = .forward := by
          rw [resume_direction, hforward]
        have hbehind := ih hresumed hdirection (termMatches_resumed hforward entry) hrest
          fun key hkey ↦ hentries key (List.mem_append_right _ hkey)
        intro key hkey
        rcases List.mem_append.mp hkey with hkey | hkey
        · exact hfirst key hkey
        · exact hbehind key hkey

/-- Reading a query to its end lists its live entries only if one page does. -/
theorem exhausted_of_scanAll
    (hmatched : store.termMatches ordered spec now = some (store.matchedEntries ordered query now))
    (hscan : store.scanAll now fuel spec = some entries)
    (hlisted : entries.map ScanEntry.key = store.termKeys query now) :
    (spec.pageSortedMatches (store.matchedEntries ordered query now)).exhausted = true := by
  by_contra hmore
  rw [Bool.not_eq_true] at hmore
  have hpage := @scanRange_eq store ordered now spec hordered
  rw [hmatched] at hpage
  have hentry : ∀ key ∈ entries.map ScanEntry.key, ∃ entry : IndexEntry, entry.key = key := by
    intro key hmem
    rw [hlisted] at hmem
    obtain ⟨⟨entry, -, hkey⟩, -⟩ := mem_termKeys_iff.mp hmem
    exact ⟨entry, hkey⟩
  obtain ⟨key, hmem, hleft⟩ := exists_unlisted_match nodup_matchedEntries hmore
  obtain ⟨hlast, -, -, -, -, -, hsome⟩ := @fillPage_spec spec
    (spec.matchCandidates (store.matchedEntries ordered query now)) [] 0 none hmax rfl
  cases fuel with
  | zero => cases hscan
  | succ fuel =>
    obtain ⟨final, hfinal⟩ := Option.isSome_iff_exists.mp
      (List.getLast?_isSome.mpr (hsome hmore))
    have hlastKey : (spec.pageSortedMatches
        (store.matchedEntries ordered query now)).lastKey = some final.key :=
      hlast.trans (congrArg (Option.map ScanEntry.key) hfinal)
    rw [scanAll_more hpage hmore hlastKey] at hscan
    obtain ⟨rest, hrest, rfl⟩ := Option.map_eq_some_iff.mp hscan
    rw [List.map_append] at hentry hlisted
    have hfinalMem : final.key ∈ (spec.pageSortedMatches
        (store.matchedEntries ordered query now)).entries.map ScanEntry.key :=
      List.mem_map_of_mem (List.mem_of_getLast? hfinal)
    obtain ⟨entry, hkey⟩ := hentry final.key (List.mem_append_left _ hfinalMem)
    rw [← hkey] at hrest
    have hresumed : 0 < (spec.resume entry.key).maxItems := by rwa [resume_maxItems]
    have hdirection : (spec.resume entry.key).direction = .forward := by
      rw [resume_direction, hforward]
    -- The entry left out is an entry that no plain window lists.
    have hbehind := scanAll_plain hordered hresumed hdirection
      (termMatches_resumed hforward entry) hrest
      fun other hother ↦ hentry other (List.mem_append_right _ hother)
    obtain ⟨-, hlive, other, hother, -, hnames⟩ := mem_matchedEntries_iff.mp hmem
    have hlater : key ∈ store.termKeys query now :=
      mem_termKeys_iff.mpr ⟨⟨other, hnames, hother⟩, hlive⟩
    rw [← hlisted] at hlater
    rcases List.mem_append.mp hlater with hpageMem | hrestMem
    · exact hleft hpageMem
    · exact hbehind key hrestMem (listed_of_termMatches hmatched hmem)

end

/-- Reading the terms of a query page by page lists their live entries, in order and once, exactly
if no live entry of them has a primary that begins with the escape byte and all of them fit one
page. -/
theorem term_scan_complete_iff (hmirrors : store.Mirrors) (hordered : store.ordered = some ordered)
    (hquery : query.WellFormed) {maxItems : Nat} (hmax : 0 < maxItems) (maxBytes : Nat)
    (projection : ScanProjection) :
    (∃ fuel entries,
        store.scanAll now fuel (query.window maxItems maxBytes projection) = some entries ∧
          entries.map ScanEntry.key = store.termKeys query now) ↔
      (∀ entry : IndexEntry, query.names entry.index entry.term = true →
          (store.get entry.key now).isSome = true → entry.Unescaped) ∧
        (store.termKeys query now).length ≤ maxItems ∧
        ¬OverBudget (query.window maxItems maxBytes projection) true 0
          ((store.termKeys query now).filterMap (store.get · now)) := by
  have hkeys := toList_of_mirrors hmirrors hordered
  have hmaxWindow : 0 < (query.window maxItems maxBytes projection).maxItems := by
    rwa [TermQuery.window_maxItems]
  have hmatched : store.termMatches ordered (query.window maxItems maxBytes projection) now =
      some (store.matchedEntries ordered query now) :=
    termMatches_window hquery maxItems maxBytes projection
  have hfits (hall : (store.matchedEntries ordered query now).map Prod.fst =
      store.termKeys query now) :
      ((query.window maxItems maxBytes projection).pageSortedMatches
          (store.matchedEntries ordered query now)).exhausted = true ↔
        (store.termKeys query now).length ≤ maxItems ∧
          ¬OverBudget (query.window maxItems maxBytes projection) true 0
            ((store.termKeys query now).filterMap (store.get · now)) := by
    rw [pageSortedMatches_exhausted_iff, TermQuery.window_maxItems, ← hall,
      List.length_map, map_snd_matchedEntries]
  have hpage := @scanRange_eq store ordered now (query.window maxItems maxBytes projection) hordered
  rw [hmatched] at hpage
  rw [← map_fst_matchedEntries_eq_iff hkeys]
  constructor
  · rintro ⟨fuel, entries, hscan, hlisted⟩
    have hexhausted := exhausted_of_scanAll hordered hmaxWindow TermQuery.window_direction hmatched
      hscan hlisted
    cases fuel with
    | zero => cases hscan
    | succ fuel =>
      rw [scanAll_exhausted hpage hexhausted] at hscan
      cases hscan
      have hall := (pageSortedMatches_keys_of_exhausted hmaxWindow hexhausted).symm.trans
        hlisted
      exact ⟨hall, (hfits hall).mp hexhausted⟩
  · rintro ⟨hall, hroom⟩
    have hexhausted := (hfits hall).mpr hroom
    refine ⟨1, _, scanAll_exhausted hpage hexhausted 0, ?_⟩
    rw [pageSortedMatches_keys_of_exhausted hmaxWindow hexhausted, hall]

/-- The primaries `p` and `q` under the term `a` of one index. -/
def twoPrimaries : ObjectStore :=
  (run applyStep ObjectStore.new
    [(.putBytes (encodeNonUniqueKey 1 [97] [112]) [], ⟨0⟩),
      (.putBytes (encodeNonUniqueKey 1 [97] [113]) [], ⟨0⟩)]).rebuildOrderedIndex

def underTermA : TermQuery := .term ⟨1, [97]⟩

theorem underTermA_wellFormed : underTermA.WellFormed := trivial

theorem termKeys_twoPrimaries :
    twoPrimaries.termKeys underTermA ⟨0⟩ =
      [encodeNonUniqueKey 1 [97] [112], encodeNonUniqueKey 1 [97] [113]] := by
  classical
  have hkeys : twoPrimaries.objects.keys =
      [encodeNonUniqueKey 1 [97] [112], encodeNonUniqueKey 1 [97] [113]] := by decide +kernel
  rw [termKeys, hkeys, List.filter_eq_self]
  intro key hmem
  have hentry (primary : Bytes) : EntryOf underTermA (encodeNonUniqueKey 1 [97] primary) :=
    ⟨⟨1, [97], primary⟩, rfl, rfl⟩
  rw [Bool.and_eq_true, decide_eq_true_eq]
  simp only [List.mem_cons, List.not_mem_nil, or_false] at hmem
  rcases hmem with rfl | rfl
  · exact ⟨hentry [112], by decide +kernel⟩
  · exact ⟨hentry [113], by decide +kernel⟩

/-- A page of two entries is enough for the two primaries. -/
theorem term_scan_two_fit :
    (twoPrimaries.termKeys underTermA ⟨0⟩).length ≤ 2 ∧
      ∀ entry : IndexEntry, underTermA.names entry.index entry.term = true →
        (twoPrimaries.get entry.key ⟨0⟩).isSome = true → entry.Unescaped := by
  have hscan : twoPrimaries.scanAll ⟨0⟩ 1 (underTermA.window 2 64 .keysOnly) =
      some [⟨encodeNonUniqueKey 1 [97] [112], none⟩, ⟨encodeNonUniqueKey 1 [97] [113], none⟩] := by
    decide +kernel
  have hfit := (term_scan_complete_iff (mirrors_rebuildOrderedIndex _) rfl underTermA_wellFormed
    Nat.zero_lt_two 64 .keysOnly).mp ⟨1, _, hscan, termKeys_twoPrimaries.symm⟩
  exact ⟨hfit.2.1, hfit.1⟩

/-- With one entry to a page, the client resumes behind the first primary, and the scan ends
without the second. -/
theorem second_primary_unread :
    twoPrimaries.ordered.isSome = true ∧
      twoPrimaries.termKeys underTermA ⟨0⟩ =
        [encodeNonUniqueKey 1 [97] [112], encodeNonUniqueKey 1 [97] [113]] ∧
      twoPrimaries.scanAll ⟨0⟩ 2 (underTermA.window 1 64 .keysOnly) =
        some [⟨encodeNonUniqueKey 1 [97] [112], none⟩] ∧
      ¬∃ fuel entries, twoPrimaries.scanAll ⟨0⟩ fuel (underTermA.window 1 64 .keysOnly) =
          some entries ∧
        entries.map ScanEntry.key = twoPrimaries.termKeys underTermA ⟨0⟩ := by
  refine ⟨rfl, termKeys_twoPrimaries, by decide +kernel, ?_⟩
  rintro ⟨fuel, entries, hscan, hlisted⟩
  have hexhausted := exhausted_of_scanAll rfl Nat.zero_lt_one TermQuery.window_direction
    (termMatches_window underTermA_wellFormed 1 64 .keysOnly) hscan hlisted
  have hmore : ((underTermA.window 1 64 .keysOnly).pageSortedMatches
      (twoPrimaries.matchedEntries (twoPrimaries.ordered.getD ∅) underTermA ⟨0⟩)).exhausted =
        false := by decide +kernel
  exact Bool.false_ne_true (hmore.symm.trans hexhausted)

end ObjectStore

end Kivi.State
