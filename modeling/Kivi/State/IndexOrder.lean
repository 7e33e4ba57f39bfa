import Kivi.Library.EscapedFields
import Kivi.State.ScanPaging

/-!
# What the bytes of index keys preserve

An index key writes its term and its primary as terminated fields with an escaped terminator
(`EscapedFields`). The escape is the byte `0xFF`, and nothing keeps a field from beginning with it.
If the primary does, the terminator of the term reads as an escaped zero: the key does not decode,
and it is the unique key of a longer term. If the primary does not, the key decodes and keys of one
index compare as their terms and then their primaries do.

The window of a term holds the keys that start with its prefix (`inTermWindow_iff`). These are the
entries of the term and, since an escaped zero starts with a terminator, also the entries of every
term that goes on with a zero byte. `IndexEntry.index_keys_faithful_iff` puts both together for two
entries.
-/

namespace Kivi.State

open Library Library.Bytes Library.EscapedFields

/-! ### Fields -/

variable (field : Bytes) (index : IndexId) (term primary : Bytes)

theorem pushEscaped_eq : pushEscaped field = terminated 0 0xFF field := by
  induction field with
  | nil => rfl
  | cons byte rest ih => rw [pushEscaped, terminated, ih]

theorem head?_pushEscaped {field : Bytes} :
    (pushEscaped field).head? = some 0xFF ↔ field.head? = some 0xFF := by
  rw [pushEscaped_eq]
  exact head?_terminated (by decide) field

theorem compare_zero_lt (byte : UInt8) (h : byte ≠ 0) : compare 0 byte = .lt :=
  Std.compare_eq_lt.mpr (UInt8.pos_iff_ne_zero.mpr h)

theorem compare_lt_top (byte : UInt8) (h : byte ≠ 0xFF) : compare byte 0xFF = .lt := by
  refine Std.compare_eq_lt.mpr (UInt8.lt_iff_toNat_lt.mpr ?_)
  have hne : byte.toNat ≠ 255 := fun htop ↦ h (UInt8.toNat_inj.mp htop)
  have hlt := byte.toNat_lt
  have htop : (0xFF : UInt8).toNat = 255 := rfl
  omega

theorem takeEscaped_pushEscaped {field rest : Bytes} (h : rest.head? ≠ some 0xFF) :
    takeEscaped (pushEscaped field ++ rest) = .ok (field, rest) := by
  induction field with
  | nil =>
    cases rest with
    | nil => rfl
    | cons next tail =>
      have hnext : next ≠ 0xFF := fun htop ↦ h (by rw [htop, List.head?_cons])
      simp [pushEscaped, takeEscaped, hnext]
  | cons byte field ih =>
    by_cases hbyte : byte = 0
    · subst hbyte
      simp [pushEscaped, takeEscaped, ih]
    · rw [pushEscaped, if_neg hbyte, List.cons_append, takeEscaped.eq_def]
      dsimp only
      rw [if_neg hbyte, ih]

/-- What is read as a field was written as one, in front of anything but the escape byte. -/
theorem takeEscaped_eq_ok {input field rest : Bytes}
    (h : takeEscaped input = .ok (field, rest)) :
    input = pushEscaped field ++ rest ∧ rest.head? ≠ some 0xFF := by
  fun_induction takeEscaped input generalizing field rest with
  | case1 => cases h
  | case2 =>
    cases h
    exact ⟨rfl, nofun⟩
  | case3 tail error hread ih => cases h
  | case4 tail inner after hread ih =>
    cases h
    obtain ⟨rfl, hafter⟩ := ih hread
    exact ⟨rfl, hafter⟩
  | case5 next tail hnext =>
    cases h
    exact ⟨rfl, fun htop ↦ hnext (Option.some.inj htop)⟩
  | case6 byte tail hbyte error hread ih => cases h
  | case7 byte tail hbyte inner after hread ih =>
    cases h
    obtain ⟨rfl, hafter⟩ := ih hread
    rw [pushEscaped, if_neg hbyte]
    exact ⟨rfl, hafter⟩

/-- A term and a primary that begins with the escape byte are written as one longer field. -/
theorem pushEscaped_append_escape :
    pushEscaped term ++ pushEscaped (0xFF :: primary) = pushEscaped (term ++ 0 :: primary) := by
  have hprimary : pushEscaped (0xFF :: primary) = 0xFF :: pushEscaped primary := rfl
  rw [hprimary]
  simp only [pushEscaped_eq, terminated_append_mark]

/-- A field with nothing behind it. -/
theorem takeEscaped_single :
    takeEscaped (pushEscaped field) = .ok (field, []) := by
  have hread : takeEscaped (pushEscaped field ++ []) = .ok (field, []) :=
    takeEscaped_pushEscaped nofun
  rwa [List.append_nil] at hread

/-! ### Headers -/

/-- What every key of an index begins with. -/
def indexHeader (index : IndexId) : Bytes :=
  indexFormatTag ++ (leU64 index).bytes.reverse ++ [0]

theorem length_indexHeader : (indexHeader index).length = 18 := by
  simp [indexHeader, indexFormatTag, FixedBytes.length_eq]

theorem ofBeBytes_reverse : ofBeBytes (leU64 index).bytes.reverse = index := by
  have hword : ofLeBytes (leU64 index).bytes = index.toNat :=
    ofLeBytes_leBytes 8 _ index.toNat_lt
  rw [ofBeBytes, List.reverse_reverse, hword, UInt64.ofNat_toNat]

theorem reverse_leU64_ofBeBytes {word : Bytes} (h : word.length = 8) :
    (leU64 (ofBeBytes word)).bytes.reverse = word := by
  have hreverse : word.reverse.length = 8 := by rw [List.length_reverse, h]
  have hpow : 256 ^ 8 = 2 ^ 64 := by norm_num
  have hlt : ofLeBytes word.reverse < 2 ^ 64 := by
    rw [← hpow, ← hreverse]
    exact ofLeBytes_lt word.reverse
  have hvalue : (ofBeBytes word).toNat = ofLeBytes word.reverse := UInt64.toNat_ofNat_of_lt' hlt
  have hbytes : leBytes 8 (ofLeBytes word.reverse) = word.reverse := by
    rw [← hreverse]
    exact leBytes_ofLeBytes word.reverse
  have hword : (leU64 (ofBeBytes word)).bytes = word.reverse := by
    rw [← hbytes, ← hvalue]
    rfl
  rw [hword, List.reverse_reverse]

theorem takeIndexHeader_append (fields : Bytes) :
    takeIndexHeader (indexHeader index ++ fields) = some (index, fields) := by
  have hlength := length_indexHeader index
  have hword : (leU64 index).bytes.reverse.length = 8 := by simp [FixedBytes.length_eq]
  have hlong : ¬(indexHeader index ++ fields).length < 18 := by
    rw [List.length_append, hlength]
    omega
  have htag : (indexHeader index ++ fields).take 9 = indexFormatTag := by
    simp [indexHeader, indexFormatTag]
  have hzero : (indexHeader index ++ fields)[17]? = some 0 := by
    simp [indexHeader, indexFormatTag, FixedBytes.length_eq]
  have hindex : ((indexHeader index ++ fields).drop 9).take 8 = (leU64 index).bytes.reverse := by
    simp [indexHeader, indexFormatTag, List.take_left' hword]
  have hfields : (indexHeader index ++ fields).drop 18 = fields := List.drop_left' hlength
  have hshape : ¬((indexHeader index ++ fields).length < 18 ∨
      (indexHeader index ++ fields).take 9 ≠ indexFormatTag ∨
      (indexHeader index ++ fields)[17]? ≠ some 0) := by
    simp only [not_or, not_not]
    exact ⟨hlong, htag, hzero⟩
  rw [takeIndexHeader, if_neg hshape, hindex, hfields, ofBeBytes_reverse]

theorem takeIndexHeader_eq_some {input fields : Bytes} {index : IndexId}
    (h : takeIndexHeader input = some (index, fields)) : input = indexHeader index ++ fields := by
  unfold takeIndexHeader at h
  split at h
  · cases h
  next hshape =>
    simp only [not_or, not_lt, not_not] at hshape
    obtain ⟨hlength, htag, hzero⟩ := hshape
    obtain ⟨rfl, rfl⟩ := Prod.mk.inj (Option.some.inj h)
    have hword : ((input.drop 9).take 8).length = 8 := by
      rw [List.length_take, List.length_drop]
      omega
    have hbyte : (input.drop 17).take 1 = [0] := by
      rw [List.take_one, List.head?_drop, hzero]
      rfl
    rw [indexHeader, reverse_leU64_ofBeBytes hword, ← htag, ← hbyte, List.append_assoc,
      List.append_assoc]
    have hrest : (input.drop 17).take 1 ++ input.drop 18 = input.drop 17 := by
      rw [← List.drop_drop (i := 1) (j := 17), List.take_append_drop]
    have hfields : (input.drop 9).take 8 ++ input.drop 17 = input.drop 9 := by
      rw [← List.drop_drop (i := 8) (j := 9), List.take_append_drop]
    rw [hrest, hfields, List.take_append_drop]

theorem indexHeader_inj {index other : IndexId} {fields fields' : Bytes} :
    indexHeader index ++ fields = indexHeader other ++ fields' ↔
      index = other ∧ fields = fields' := by
  constructor
  · intro h
    have hparts := takeIndexHeader_append index fields
    rw [h, takeIndexHeader_append] at hparts
    obtain ⟨rfl, rfl⟩ := Prod.mk.inj (Option.some.inj hparts)
    exact ⟨rfl, rfl⟩
  · rintro ⟨rfl, rfl⟩
    rfl

theorem indexHeader_isPrefix_iff {index other : IndexId} {fields fields' : Bytes} :
    indexHeader index ++ fields <+: indexHeader other ++ fields' ↔
      index = other ∧ fields <+: fields' := by
  constructor
  · rintro ⟨rest, h⟩
    rw [List.append_assoc] at h
    obtain ⟨rfl, hfields⟩ := indexHeader_inj.mp h
    exact ⟨rfl, rest, hfields⟩
  · rintro ⟨rfl, hfields⟩
    exact (List.prefix_append_right_inj _).mpr hfields

theorem encodeNonUniqueKey_eq :
    encodeNonUniqueKey index term primary =
      indexHeader index ++ (pushEscaped term ++ pushEscaped primary) := by
  simp only [encodeNonUniqueKey, indexHeader, List.append_assoc]

theorem encodeUniqueKey_eq (term : Bytes) :
    encodeUniqueKey index term = indexHeader index ++ pushEscaped term := rfl

theorem termPrefix_eq (term : Bytes) :
    termPrefix index term = indexHeader index ++ pushEscaped term := rfl

/-! ### Decoding -/

/-- A non-unique key is decoded exactly if its primary does not begin with the escape byte. -/
theorem decodeNonUniqueKey_encode_iff :
    decodeNonUniqueKey (encodeNonUniqueKey index term primary) = .ok (index, term, primary) ↔
      primary.head? ≠ some 0xFF := by
  rw [encodeNonUniqueKey_eq, decodeNonUniqueKey, takeIndexHeader_append]
  dsimp only
  by_cases hescape : primary.head? = some 0xFF
  · obtain ⟨rest, rfl⟩ := List.head?_eq_some_iff.mp hescape
    rw [pushEscaped_append_escape, takeEscaped_single]
    simp [takeEscaped]
  · have hterm : takeEscaped (pushEscaped term ++ pushEscaped primary) =
        .ok (term, pushEscaped primary) :=
      takeEscaped_pushEscaped fun h ↦ hescape (head?_pushEscaped.mp h)
    rw [hterm]
    dsimp only
    rw [takeEscaped_single]
    simp [hescape]

/-- What decodes is the key of an entry whose primary does not begin with the escape byte. -/
theorem decodeNonUniqueKey_eq_ok_iff {key : Key} {index : IndexId} {term primary : Bytes} :
    decodeNonUniqueKey key = .ok (index, term, primary) ↔
      key = encodeNonUniqueKey index term primary ∧ primary.head? ≠ some 0xFF := by
  constructor
  · intro h
    unfold decodeNonUniqueKey at h
    split at h
    · cases h
    next found fields hheader =>
      split at h
      · cases h
      next foundTerm after hterm =>
        split at h
        · cases h
        next foundPrimary hprimary =>
          cases h
          obtain ⟨rfl, hclear⟩ := takeEscaped_eq_ok hterm
          obtain ⟨rfl, -⟩ := takeEscaped_eq_ok hprimary
          rw [List.append_nil] at hheader hclear
          rw [takeIndexHeader_eq_some hheader, encodeNonUniqueKey_eq]
          exact ⟨rfl, mt head?_pushEscaped.mpr hclear⟩
        · cases h
  · rintro ⟨rfl, hclear⟩
    exact (decodeNonUniqueKey_encode_iff index term primary).mpr hclear

/-- A non-unique key is the unique key of some term exactly if its primary begins with the escape
byte. -/
theorem exists_encodeUniqueKey_iff :
    (∃ other field, encodeUniqueKey other field = encodeNonUniqueKey index term primary) ↔
      primary.head? = some 0xFF := by
  constructor
  · rintro ⟨other, field, h⟩
    by_contra hclear
    rw [encodeUniqueKey_eq, encodeNonUniqueKey_eq] at h
    obtain ⟨-, hfields⟩ := indexHeader_inj.mp h
    -- The unique key ends behind one field, the other key behind two.
    have hone := takeEscaped_single field
    have htwo : takeEscaped (pushEscaped term ++ pushEscaped primary) =
        .ok (term, pushEscaped primary) :=
      takeEscaped_pushEscaped fun h ↦ hclear (head?_pushEscaped.mp h)
    rw [hfields, htwo] at hone
    have hempty : pushEscaped primary = [] := (Prod.mk.inj (Except.ok.inj hone)).2
    rw [pushEscaped_eq] at hempty
    exact terminated_ne_nil primary hempty
  · intro hescape
    obtain ⟨rest, rfl⟩ := List.head?_eq_some_iff.mp hescape
    refine ⟨index, term ++ 0 :: rest, ?_⟩
    rw [encodeUniqueKey_eq, encodeNonUniqueKey_eq, pushEscaped_append_escape]

/-! ### Order -/

theorem compare_encodeNonUniqueKey {term term' primary primary' : Bytes}
    (h : primary.head? ≠ some 0xFF) (h' : primary'.head? ≠ some 0xFF) :
    compare (encodeNonUniqueKey index term primary) (encodeNonUniqueKey index term' primary') =
      (compare term term').then (compare primary primary') := by
  have hprimary : compare (pushEscaped primary ++ []) (pushEscaped primary' ++ []) =
      (compare primary primary').then (compare ([] : Bytes) []) := by
    rw [pushEscaped_eq, pushEscaped_eq]
    exact compare_terminated compare_zero_lt compare_lt_top nofun nofun
  rw [List.append_nil, List.append_nil] at hprimary
  rw [encodeNonUniqueKey_eq, encodeNonUniqueKey_eq, compare_append_left, pushEscaped_eq term,
    pushEscaped_eq term', compare_terminated compare_zero_lt compare_lt_top
      (mt head?_pushEscaped.mp h) (mt head?_pushEscaped.mp h'), hprimary]
  simp

/-! ### Windows -/

theorem prefixSuccessor_eq_some {bytes stop : Bytes} (h : prefixSuccessor bytes = some stop) :
    ∃ front last count, last ≠ 0xFF ∧ bytes = front ++ last :: List.replicate count 0xFF ∧
      stop = front ++ [last + 1] := by
  unfold prefixSuccessor at h
  split at h
  · cases h
  next last front hdrop =>
    have hlast : ¬(last == 0xFF) = true := by
      have hhead := List.head?_dropWhile_not (· == (0xFF : UInt8)) bytes.reverse
      rw [hdrop] at hhead
      simpa using hhead
    obtain ⟨count, htops⟩ : ∃ count, bytes.reverse.takeWhile (· == (0xFF : UInt8)) =
        List.replicate count 0xFF :=
      ⟨_, List.eq_replicate_of_mem fun byte hmem ↦ by simpa using List.mem_takeWhile_imp hmem⟩
    have hsplit := List.takeWhile_append_dropWhile (p := (· == (0xFF : UInt8)))
      (l := bytes.reverse)
    rw [hdrop, htops] at hsplit
    have hbytes := congrArg List.reverse hsplit
    refine ⟨front.reverse, last, count, by simpa using hlast, ?_, (Option.some.inj h).symm⟩
    simpa using hbytes.symm

/-- Nothing is above a run of top bytes but what starts with it. -/
theorem not_bytesLt_replicate_iff (key : Bytes) (count : Nat) :
    bytesLt key (List.replicate count 0xFF) = false ↔ List.replicate count 0xFF <+: key := by
  induction count generalizing key with
  | zero => cases key <;> simp [bytesLt]
  | succ count ih =>
    rw [List.replicate_succ]
    cases key with
    | nil => simp [bytesLt]
    | cons byte rest =>
      by_cases htop : byte = 0xFF
      · subst htop
        have hrest := ih rest
        simp only [bytesLt] at hrest ⊢
        simpa [List.compare_cons_cons] using hrest
      · simp [bytesLt, List.compare_cons_cons, compare_lt_top byte htop, Ne.symm htop]

theorem toNat_add_one_of_ne {byte : UInt8} (h : byte ≠ 0xFF) :
    (byte + 1).toNat = byte.toNat + 1 := by
  have hne : byte.toNat ≠ 255 := fun htop ↦ h (UInt8.toNat_inj.mp htop)
  have hlt := byte.toNat_lt
  rw [UInt8.toNat_add, UInt8.toNat_one]
  omega

theorem compare_succ_lt {byte : UInt8} (h : byte ≠ 0xFF) : compare byte (byte + 1) = .lt := by
  rw [Std.compare_eq_lt, UInt8.lt_iff_toNat_lt, toNat_add_one_of_ne h]
  exact Nat.lt_succ_self _

/-- What begins with a larger byte is not below the successor of a byte. -/
theorem not_bytesLt_succ {byte last : UInt8} (h : last < byte) (rest : Bytes) :
    bytesLt (byte :: rest) [last + 1] = false := by
  have hlast : last ≠ 0xFF := by
    rintro rfl
    exact absurd (UInt8.lt_iff_toNat_lt.mp h) (Nat.not_lt.mpr (Nat.le_of_lt_succ byte.toNat_lt))
  have hle : (last + 1).toNat ≤ byte.toNat := by
    rw [toNat_add_one_of_ne hlast]
    exact UInt8.lt_iff_toNat_lt.mp h
  rcases hle.lt_or_eq with hlt | heq
  · have hgt : compare byte (last + 1) = .gt :=
      Std.compare_eq_gt.mpr (UInt8.lt_iff_toNat_lt.mpr hlt)
    simp [bytesLt, List.compare_cons_cons, hgt]
  · obtain rfl := UInt8.toNat_inj.mp heq
    cases rest <;> simp [bytesLt, List.compare_cons_cons]

/-- The window from some bytes to their successor holds the keys that start with them. -/
theorem inWindow_iff {bytes stop key : Bytes} (h : prefixSuccessor bytes = some stop) :
    bytesLt key bytes = false ∧ bytesLt key stop = true ↔ bytes <+: key := by
  obtain ⟨front, last, count, hlast, rfl, rfl⟩ := prefixSuccessor_eq_some h
  clear h
  induction front generalizing key with
  | nil =>
    cases key with
    | nil => simp [bytesLt]
    | cons byte rest =>
      rcases hbyte : compare byte last with _ | _ | _
      · have hne : last ≠ byte := fun heq ↦ by simp [heq] at hbyte
        simp [bytesLt, List.compare_cons_cons, hbyte, hne]
      · obtain rfl := Std.compare_eq_iff_eq.mp hbyte
        have hrest := not_bytesLt_replicate_iff rest count
        simp only [bytesLt] at hrest ⊢
        simpa [List.compare_cons_cons, compare_succ_lt hlast] using hrest
      · have hne : last ≠ byte := fun heq ↦ by simp [heq] at hbyte
        simp [not_bytesLt_succ (Std.compare_eq_gt.mp hbyte), hne]
  | cons first front ih =>
    cases key with
    | nil => simp [bytesLt]
    | cons byte rest =>
      rcases hbyte : compare byte first with _ | _ | _
      · have hne : first ≠ byte := fun heq ↦ by simp [heq] at hbyte
        simp [bytesLt, List.compare_cons_cons, hbyte, hne]
      · obtain rfl := Std.compare_eq_iff_eq.mp hbyte
        have hrest := @ih rest
        simp only [bytesLt] at hrest ⊢
        simpa [List.compare_cons_cons] using hrest
      · have hne : first ≠ byte := fun heq ↦ by simp [heq] at hbyte
        simp [bytesLt, List.compare_cons_cons, hbyte, hne]

/-- A key lies in the window that an equality scan of a term asks for. -/
def InTermWindow (index : IndexId) (term : Bytes) (key : Key) : Prop :=
  ∃ stop, prefixSuccessor (termPrefix index term) = some stop ∧
    bytesLt key (termPrefix index term) = false ∧ bytesLt key stop = true

theorem pushEscaped_eq_concat :
    ∃ front, pushEscaped field = front ++ [0] := by
  induction field with
  | nil => exact ⟨[], rfl⟩
  | cons byte rest ih =>
    obtain ⟨front, hfront⟩ := ih
    rw [pushEscaped, hfront]
    split
    · exact ⟨0 :: 0xFF :: front, rfl⟩
    · exact ⟨byte :: front, rfl⟩

/-- A term prefix ends with its terminator, so it has a successor. -/
theorem prefixSuccessor_termPrefix (term : Bytes) :
    ∃ stop, prefixSuccessor (termPrefix index term) = some stop := by
  obtain ⟨front, hfront⟩ := pushEscaped_eq_concat term
  rw [termPrefix_eq, hfront, ← List.append_assoc, prefixSuccessor, List.reverse_append]
  exact ⟨_, rfl⟩

theorem inTermWindow_iff (term : Bytes) (key : Key) :
    InTermWindow index term key ↔ termPrefix index term <+: key := by
  constructor
  · rintro ⟨stop, hstop, hwindow⟩
    exact (inWindow_iff hstop).mp hwindow
  · intro hprefix
    obtain ⟨stop, hstop⟩ := prefixSuccessor_termPrefix index term
    exact ⟨stop, hstop, (inWindow_iff hstop).mpr hprefix⟩

/-- Which keys of fields that do not begin with the escape byte lie in the window of a term. -/
theorem inTermWindow_fields_iff {index other : IndexId} {term field after : Bytes}
    (hafter : after.head? ≠ some 0xFF) :
    InTermWindow index term (indexHeader other ++ (pushEscaped field ++ after)) ↔
      index = other ∧ (term = field ∨ term ++ [0] <+: field) := by
  rw [inTermWindow_iff, termPrefix_eq, indexHeader_isPrefix_iff, pushEscaped_eq, pushEscaped_eq,
    terminated_isPrefix_iff hafter]

/-! ### Two entries -/

structure IndexEntry where
  index : IndexId
  term : Bytes
  primary : Bytes
deriving DecidableEq

namespace IndexEntry

def key (entry : IndexEntry) : Key := encodeNonUniqueKey entry.index entry.term entry.primary

/-- The keys of two entries, and the window of the first one's term, say what the entries are. -/
structure Faithful (first second : IndexEntry) : Prop where
  decodes : ∀ entry ∈ [first, second],
    decodeNonUniqueKey entry.key = .ok (entry.index, entry.term, entry.primary)
  distinct : ∀ entry ∈ [first, second], ∀ index term, encodeUniqueKey index term ≠ entry.key
  ordered : first.index = second.index → compare first.key second.key =
    (compare first.term second.term).then (compare first.primary second.primary)
  window : InTermWindow first.index first.term second.key ↔
    first.index = second.index ∧ first.term = second.term
  uniqueWindow : InTermWindow first.index first.term (encodeUniqueKey second.index second.term) ↔
    first.index = second.index ∧ first.term = second.term

/-- The primary does not begin with the escape byte. -/
def Unescaped (entry : IndexEntry) : Prop := entry.primary.head? ≠ some 0xFF

/-- The second entry is under a longer term of the same index, which goes on with a zero byte. -/
def ExtendsByZero (first second : IndexEntry) : Prop :=
  first.index = second.index ∧ first.term ++ [0] <+: second.term

theorem not_extendsByZero_iff {first second : IndexEntry} :
    ((first.index = second.index ∧
        (first.term = second.term ∨ first.term ++ [0] <+: second.term)) ↔
      first.index = second.index ∧ first.term = second.term) ↔
      ¬first.ExtendsByZero second := by
  have hproper : first.term ++ [0] <+: second.term → first.term ≠ second.term := by
    intro hprefix heq
    have hlength := hprefix.length_le
    rw [heq, List.length_append, List.length_singleton] at hlength
    omega
  constructor
  · rintro hiff ⟨hindex, hprefix⟩
    exact hproper hprefix (hiff.mp ⟨hindex, Or.inr hprefix⟩).2
  · intro hnot
    constructor
    · rintro ⟨hindex, heq | hprefix⟩
      · exact ⟨hindex, heq⟩
      · exact absurd ⟨hindex, hprefix⟩ hnot
    · rintro ⟨hindex, heq⟩
      exact ⟨hindex, Or.inl heq⟩

theorem window_iff {first second : IndexEntry} (hsecond : second.Unescaped) :
    InTermWindow first.index first.term second.key ↔ first.index = second.index ∧
      (first.term = second.term ∨ first.term ++ [0] <+: second.term) := by
  rw [key, encodeNonUniqueKey_eq]
  exact inTermWindow_fields_iff (mt head?_pushEscaped.mp hsecond)

/-- Index keys are faithful exactly for primaries that do not begin with the escape byte and, in
the window of a term, for terms that do not go on with a zero byte. -/
theorem index_keys_faithful_iff (first second : IndexEntry) :
    first.Faithful second ↔
      first.Unescaped ∧ second.Unescaped ∧ ¬first.ExtendsByZero second := by
  constructor
  · intro hfaithful
    have hfirst : first.Unescaped := (decodeNonUniqueKey_encode_iff _ _ _).mp
      (hfaithful.decodes first (by simp))
    have hsecond : second.Unescaped := (decodeNonUniqueKey_encode_iff _ _ _).mp
      (hfaithful.decodes second (by simp))
    refine ⟨hfirst, hsecond, not_extendsByZero_iff.mp ?_⟩
    rw [← window_iff hsecond]
    exact hfaithful.window
  · rintro ⟨hfirst, hsecond, hterms⟩
    have hboth : ∀ entry ∈ [first, second], entry.Unescaped := by
      simp [hfirst, hsecond]
    constructor
    · intro entry hmem
      exact (decodeNonUniqueKey_encode_iff _ _ _).mpr (hboth entry hmem)
    · intro entry hmem index term heq
      exact hboth entry hmem ((exists_encodeUniqueKey_iff _ _ _).mp ⟨index, term, heq⟩)
    · intro hindex
      rw [key, key, hindex]
      exact compare_encodeNonUniqueKey _ hfirst hsecond
    · rw [window_iff hsecond]
      exact not_extendsByZero_iff.mpr hterms
    · have hwindow :=
        @inTermWindow_fields_iff first.index second.index first.term second.term [] nofun
      rw [List.append_nil] at hwindow
      exact hwindow.trans (not_extendsByZero_iff.mpr hterms)

end IndexEntry

/-- A primary that begins with the escape byte makes a key that does not decode and that is also a
unique key; and the window of a term holds an entry of another one. -/
theorem escaped_primary_and_zero_term_misread :
    decodeNonUniqueKey (encodeNonUniqueKey 1 [97] [0xFF, 98]) = .error .truncated ∧
      encodeUniqueKey 1 [97, 0, 98] = encodeNonUniqueKey 1 [97] [0xFF, 98] ∧
      InTermWindow 1 [97] (encodeNonUniqueKey 1 [97, 0, 98] [112]) := by
  refine ⟨by decide, by decide, (inTermWindow_iff _ _ _).mpr ?_⟩
  decide

end Kivi.State
