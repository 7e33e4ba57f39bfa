import Mathlib

/-!
# Checked and saturating 64-bit arithmetic

Overflow-aware operations on `UInt64` and `Int64`, with lemmas that read them as exact
arithmetic on `Nat` or `Int`: `checkedAddU64_eq_some_iff`, `toNat_saturatingAddU64` and
`i64OfInt_eq_some_iff`. A saturating sum of a list of words is
the true sum cut off at the top word (`toNat_saturatingSumU64`).
-/

namespace Kivi.Library.CheckedArith

/-! ### Unsigned words -/

/-- The largest 64-bit unsigned word. -/
def maxU64 : UInt64 := 0xFFFFFFFFFFFFFFFF

/-- The largest 64-bit signed word. -/
def maxI64 : Int64 := 0x7FFFFFFFFFFFFFFF

/-- The smallest 64-bit signed word. -/
def minI64 : Int64 := Int64.ofInt (-2 ^ 63)

/-- Addition that fails when the exact sum does not fit. -/
def checkedAddU64 (a b : UInt64) : Option UInt64 :=
  if a.toNat + b.toNat < 2 ^ 64 then some (a + b) else none

/-- Addition that stops at the largest word. -/
def saturatingAddU64 (a b : UInt64) : UInt64 :=
  if a.toNat + b.toNat < 2 ^ 64 then a + b else maxU64

@[simp] theorem toNat_maxU64 : maxU64.toNat = 2 ^ 64 - 1 := by decide

theorem checkedAddU64_eq_some_iff {a b c : UInt64} :
    checkedAddU64 a b = some c ↔ a.toNat + b.toNat = c.toNat := by
  unfold checkedAddU64
  have hc := c.toNat_lt
  split_ifs with h
  · rw [Option.some.injEq, ← UInt64.toNat_inj, UInt64.toNat_add, Nat.mod_eq_of_lt h]
  · simp only [false_iff]
    omega

theorem checkedAddU64_eq_none_iff {a b : UInt64} :
    checkedAddU64 a b = none ↔ 2 ^ 64 ≤ a.toNat + b.toNat := by
  unfold checkedAddU64
  split_ifs with h <;> simp <;> omega

theorem toNat_saturatingAddU64 (a b : UInt64) :
    (saturatingAddU64 a b).toNat = min (a.toNat + b.toNat) (2 ^ 64 - 1) := by
  unfold saturatingAddU64
  split_ifs with h
  · rw [UInt64.toNat_add, Nat.mod_eq_of_lt h]
    omega
  · rw [toNat_maxU64]
    omega

/-- Left-to-right saturating sum. -/
def saturatingSumU64 (words : List UInt64) : UInt64 :=
  words.foldl saturatingAddU64 0

/-- The exact sum of a list of words. -/
def exactSum (words : List UInt64) : Nat :=
  (words.map UInt64.toNat).sum

theorem toNat_foldl_saturatingAddU64 (words : List UInt64) (start : UInt64) :
    (words.foldl saturatingAddU64 start).toNat =
      min (start.toNat + exactSum words) (2 ^ 64 - 1) := by
  induction words generalizing start with
  | nil =>
    have := start.toNat_lt
    simp only [List.foldl_nil, exactSum, List.map_nil, List.sum_nil]
    omega
  | cons word rest ih =>
    rw [List.foldl_cons, ih, toNat_saturatingAddU64]
    simp only [exactSum, List.map_cons, List.sum_cons]
    omega

/-- Saturating once at the end gives the same word as saturating at every addition. -/
theorem toNat_saturatingSumU64 (words : List UInt64) :
    (saturatingSumU64 words).toNat = min (exactSum words) (2 ^ 64 - 1) := by
  rw [saturatingSumU64, toNat_foldl_saturatingAddU64]
  simp

/-! ### Signed words -/

/-- The signed word of an exact integer, when there is one. -/
def i64OfInt (n : Int) : Option Int64 :=
  if -2 ^ 63 ≤ n ∧ n < 2 ^ 63 then some (Int64.ofInt n) else none

/-- Addition that fails when the exact sum does not fit. -/
def checkedAddI64 (a b : Int64) : Option Int64 := i64OfInt (a.toInt + b.toInt)

/-- Subtraction that fails when the exact difference does not fit. -/
def checkedSubI64 (a b : Int64) : Option Int64 := i64OfInt (a.toInt - b.toInt)

/-- Addition that stops at the nearest end of the range. -/
def saturatingAddI64 (a b : Int64) : Int64 :=
  match checkedAddI64 a b with
  | some sum => sum
  | none => if 0 ≤ b.toInt then maxI64 else minI64

/-- Subtraction that stops at the nearest end of the range. -/
def saturatingSubI64 (a b : Int64) : Int64 :=
  match checkedSubI64 a b with
  | some difference => difference
  | none => if 0 ≤ b.toInt then minI64 else maxI64

/-- The signed word of an unsigned one, when its value fits. -/
def i64OfU64 (n : UInt64) : Option Int64 :=
  if n.toNat < 2 ^ 63 then some (Int64.ofInt n.toNat) else none

theorem i64OfInt_eq_some_iff {n : Int} {word : Int64} :
    i64OfInt n = some word ↔ word.toInt = n := by
  unfold i64OfInt
  split_ifs with hfit
  · rw [Option.some.injEq, ← Int64.toInt_inj, Int64.toInt_ofInt_of_le hfit.1 hfit.2]
    exact eq_comm
  · simp only [false_iff]
    rintro rfl
    exact hfit ⟨word.le_toInt, word.toInt_lt⟩

theorem i64OfU64_eq_i64OfInt (n : UInt64) : i64OfU64 n = i64OfInt n.toNat := by
  have hfits : (-2 ^ 63 ≤ (n.toNat : Int) ∧ (n.toNat : Int) < 2 ^ 63) ↔ n.toNat < 2 ^ 63 := by
    omega
  simp only [i64OfU64, i64OfInt, hfits]

theorem i64OfU64_eq_some_iff {n : UInt64} {word : Int64} :
    i64OfU64 n = some word ↔ word.toInt = n.toNat := by
  rw [i64OfU64_eq_i64OfInt, i64OfInt_eq_some_iff]

end Kivi.Library.CheckedArith
