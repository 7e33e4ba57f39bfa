import Kivi.State.Object

/-!
# Secondary-index keys

An index entry is an ordinary key in a pinned format: a tag, the index id in big-endian order, and
zero-terminated fields in which a zero byte is escaped. A non-unique entry carries the term and
the primary key, a unique one only the term. Range scans use the format to leave out the entries
that ride beside their primaries, and to recognise windows that ask for one term.
-/

namespace Kivi.State

open Library Library.Bytes

abbrev IndexId := UInt64

/-- The bytes of `KIVI-IDX1`. -/
def indexFormatTag : Bytes := [75, 73, 86, 73, 45, 73, 68, 88, 49]

inductive IndexCodecError where
  | notAnIndexKey
  | truncated
deriving DecidableEq

/-- A field with its zero bytes escaped, and its terminator. -/
def pushEscaped : Bytes → Bytes
  | [] => [0]
  | byte :: rest => if byte = 0 then 0 :: 0xFF :: pushEscaped rest else byte :: pushEscaped rest

/-- Read one escaped field, with what follows its terminator. -/
def takeEscaped : Bytes → Except IndexCodecError (Bytes × Bytes)
  | [] => .error .truncated
  | byte :: rest =>
    if byte = 0 then
      match rest with
      | [] => .ok ([], [])
      | next :: tail =>
        if next = 0xFF then
          match takeEscaped tail with
          | .error error => .error error
          | .ok (field, after) => .ok (0 :: field, after)
        else .ok ([], next :: tail)
    else
      match takeEscaped rest with
      | .error error => .error error
      | .ok (field, after) => .ok (byte :: field, after)

/-- The word whose big-endian bytes are given. -/
def ofBeBytes (bytes : Bytes) : UInt64 := UInt64.ofNat (ofLeBytes bytes.reverse)

/-- The key of an entry of a non-unique index. -/
def encodeNonUniqueKey (index : IndexId) (term primary : Bytes) : Bytes :=
  indexFormatTag ++ (leU64 index).bytes.reverse ++ [0] ++ pushEscaped term ++ pushEscaped primary

/-- The key of an entry of a unique index. -/
def encodeUniqueKey (index : IndexId) (term : Bytes) : Bytes :=
  indexFormatTag ++ (leU64 index).bytes.reverse ++ [0] ++ pushEscaped term

/-- The prefix shared by every entry of one term of an index. -/
def termPrefix (index : IndexId) (term : Bytes) : Bytes :=
  indexFormatTag ++ (leU64 index).bytes.reverse ++ [0] ++ pushEscaped term

/-- The exclusive end of the keys that start with the given bytes; none if every byte is at its
top. -/
def prefixSuccessor (bytes : Bytes) : Option Bytes :=
  match bytes.reverse.dropWhile (· == 0xFF) with
  | [] => none
  | last :: front => some (front.reverse ++ [last + 1])

/-- The index id and the fields after the fixed header of an index key. -/
def takeIndexHeader (input : Bytes) : Option (IndexId × Bytes) :=
  if input.length < 18 ∨ input.take 9 ≠ indexFormatTag ∨ input[17]? ≠ some 0 then none
  else some (ofBeBytes ((input.drop 9).take 8), input.drop 18)

/-- The index and term of a bare term prefix. -/
def termPrefixParts (input : Bytes) : Option (IndexId × Bytes) :=
  match takeIndexHeader input with
  | none => none
  | some (index, fields) =>
    match takeEscaped fields with
    | .ok (term, []) => some (index, term)
    | _ => none

/-- The index, term and primary of a non-unique entry. -/
def decodeNonUniqueKey (input : Bytes) :
    Except IndexCodecError (IndexId × Bytes × Bytes) :=
  match takeIndexHeader input with
  | none => .error .notAnIndexKey
  | some (index, fields) =>
    match takeEscaped fields with
    | .error error => .error error
    | .ok (term, fields) =>
      match takeEscaped fields with
      | .error error => .error error
      | .ok (primary, []) => .ok (index, term, primary)
      | .ok (_, _ :: _) => .error .notAnIndexKey

/-- The primary that a non-unique entry rides beside. -/
def parseIndexPrimary (key : Key) : Option Bytes :=
  match decodeNonUniqueKey key with
  | .ok (_, _, primary) => some primary
  | .error _ => none

/-- Whether a key carries the reserved tag. -/
def isIndexKey (key : Key) : Bool :=
  decide (indexFormatTag.length ≤ key.length) && key.take indexFormatTag.length == indexFormatTag

def Key.isSystem (key : Key) : Bool :=
  match key.head? with
  | some byte => byte == Key.systemPrefix
  | none => false

/-- Whatever decodes as a non-unique entry carries the tag and names a primary. -/
theorem isIndexKey_of_decode {key : Key} {parts : IndexId × Bytes × Bytes}
    (h : decodeNonUniqueKey key = .ok parts) :
    isIndexKey key = true ∧ (parseIndexPrimary key).isSome = true := by
  constructor
  · unfold decodeNonUniqueKey at h
    split at h
    · cases h
    next header hheader =>
      unfold takeIndexHeader at hheader
      split at hheader
      · cases hheader
      next htag =>
        simp only [not_or, not_lt, not_not] at htag
        obtain ⟨hlength, htake, -⟩ := htag
        have hfits : indexFormatTag.length ≤ key.length := le_trans (by decide) hlength
        have htag : key.take indexFormatTag.length = indexFormatTag := htake
        simp [isIndexKey, hfits, htag]
  · unfold parseIndexPrimary
    rw [h]
    rfl

end Kivi.State
