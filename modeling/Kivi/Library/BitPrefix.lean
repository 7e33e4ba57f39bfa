import Mathlib

/-!
# Bit strings that agree on their top bits

`agree len a b` compares the top `len` bits of two words. The words that agree with `a` on `len`
bits are the leaves under one node of a binary tree, and two such sets meet exactly when the nodes
agree on the shorter of their lengths.
-/

namespace Kivi.Library.BitPrefix

variable {w : Nat}

/-- The top `len` bits of both words are the same. -/
def agree (len : Nat) (first second : BitVec w) : Bool :=
  first >>> (w - len) == second >>> (w - len)

@[simp] theorem agree_self (len : Nat) (word : BitVec w) : agree len word word = true :=
  beq_self_eq_true _

@[simp] theorem agree_zero (first second : BitVec w) : agree 0 first second = true := by
  simp [agree, BitVec.ushiftRight_eq_zero]

theorem agree_iff {len : Nat} {first second : BitVec w} : agree len first second = true ↔
    first >>> (w - len) = second >>> (w - len) :=
  beq_iff_eq

theorem agree_symm {len : Nat} {first second : BitVec w} (h : agree len first second = true) :
    agree len second first = true :=
  agree_iff.mpr (agree_iff.mp h).symm

theorem agree_mono {short long : Nat} (hle : short ≤ long) {first second : BitVec w}
    (h : agree long first second = true) : agree short first second = true := by
  have hsplit : w - short = (w - long) + ((w - short) - (w - long)) := by omega
  rw [agree_iff] at h ⊢
  rw [hsplit, BitVec.shiftRight_add, BitVec.shiftRight_add, h]

/-- Some word lies under both nodes exactly if they agree on the shorter of their lengths. -/
theorem exists_agree_iff {len len' : Nat} {bits bits' : BitVec w} :
    (∃ word, agree len word bits = true ∧ agree len' word bits' = true) ↔
      agree (min len len') bits bits' = true := by
  constructor
  · rintro ⟨word, hword, hword'⟩
    have hfirst := agree_iff.mp (agree_mono (min_le_left len len') hword)
    exact agree_iff.mpr (hfirst.symm.trans (agree_iff.mp (agree_mono (min_le_right _ _) hword')))
  · intro h
    rcases le_total len len' with hle | hle
    · rw [min_eq_left hle] at h
      exact ⟨bits', agree_symm h, agree_self _ _⟩
    · rw [min_eq_right hle] at h
      exact ⟨bits, agree_self _ _, h⟩

end Kivi.Library.BitPrefix
