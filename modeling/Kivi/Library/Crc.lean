import Mathlib

/-!
# Cyclic redundancy checks

A reflected check of any width: the register takes one byte at a time, eight shifts each. A shift
loses nothing if the polynomial has its highest bit (`crcBit_injective`), so two inputs that differ
in one byte have different checks (`crc_ne_of_byte`). `crc32c` is the one of iSCSI.
`FlippedBit` relates bytes that differ in one bit; of two parts one has the bit
(`FlippedBit.of_append`).
-/

namespace Kivi.Library.Crc

variable {w : Nat} (poly : BitVec w)

def crcBit (register : BitVec w) : BitVec w :=
  if register.getLsbD 0 then (register >>> 1) ^^^ poly else register >>> 1

def crcByte (register : BitVec w) (byte : UInt8) : BitVec w :=
  (crcBit poly)^[8] (register ^^^ byte.toBitVec.setWidth w)

def crc (start : BitVec w) (bytes : List UInt8) : BitVec w :=
  bytes.foldl (crcByte poly) start

def crc32c (bytes : List UInt8) : UInt32 :=
  ⟨crc 0x82F63B78#32 (BitVec.allOnes 32) bytes ^^^ BitVec.allOnes 32⟩

example : crc32c "123456789".toUTF8.toList = 0xE3069283 := by decide +kernel

variable {poly}

section

variable (hpoly : poly.msb = true)
include hpoly

/-- The highest bit after a shift is the lowest one before it. -/
theorem msb_crcBit (register : BitVec w) : (crcBit poly register).msb = register.getLsbD 0 := by
  have hshift : (register >>> 1).msb = false := by
    rw [BitVec.msb_ushiftRight]
    simp
  unfold crcBit
  split_ifs with hlow
  · rw [BitVec.msb_xor, hshift, hpoly, hlow]
    rfl
  · rw [hshift]
    simpa using hlow

theorem crcBit_injective : Function.Injective (crcBit poly) := by
  intro first second h
  have hlow : first.getLsbD 0 = second.getLsbD 0 := by
    rw [← msb_crcBit hpoly, ← msb_crcBit hpoly, h]
  have hshift : first >>> 1 = second >>> 1 := by
    unfold crcBit at h
    rw [hlow] at h
    split_ifs at h with hset
    · exact (BitVec.xor_left_inj poly).mp h
    · exact h
  refine BitVec.eq_of_getLsbD_eq fun i hi ↦ ?_
  cases i with
  | zero => exact hlow
  | succ i =>
    have hbit := congrArg (fun register ↦ BitVec.getLsbD register i) hshift
    simpa [BitVec.getLsbD_ushiftRight, Nat.add_comm] using hbit

theorem crcByte_left_injective (byte : UInt8) :
    Function.Injective fun register ↦ crcByte poly register byte := by
  intro first second h
  have hsame := (crcBit_injective hpoly).iterate 8 h
  exact (BitVec.xor_left_inj _).mp hsame

theorem crcByte_right_injective (hwidth : 8 ≤ w) (register : BitVec w) :
    Function.Injective (crcByte poly register) := by
  intro first second h
  have hwide := (BitVec.xor_right_inj register).mp ((crcBit_injective hpoly).iterate 8 h)
  have hvalue := congrArg BitVec.toNat hwide
  rw [BitVec.toNat_setWidth_of_le hwidth, BitVec.toNat_setWidth_of_le hwidth] at hvalue
  exact UInt8.toNat_inj.mp hvalue

theorem crc_injective (bytes : List UInt8) :
    Function.Injective fun start ↦ crc poly start bytes := by
  induction bytes with
  | nil => exact Function.injective_id
  | cons byte rest ih => exact ih.comp (crcByte_left_injective hpoly byte)

/-- Two inputs that differ in one byte have different checks. -/
theorem crc_ne_of_byte (hwidth : 8 ≤ w) (start : BitVec w) {front back : List UInt8}
    {first second : UInt8} (h : first ≠ second) :
    crc poly start (front ++ first :: back) ≠ crc poly start (front ++ second :: back) := by
  unfold crc
  rw [List.foldl_append, List.foldl_append]
  intro heq
  have hregister := crc_injective hpoly back heq
  exact h (crcByte_right_injective hpoly hwidth _ hregister)

end

theorem crc32c_ne_of_byte {front back : List UInt8} {first second : UInt8} (h : first ≠ second) :
    crc32c (front ++ first :: back) ≠ crc32c (front ++ second :: back) := by
  intro heq
  have hregisters := (BitVec.xor_left_inj _).mp (congrArg UInt32.toBitVec heq)
  exact crc_ne_of_byte (by decide) (by decide) _ h hregisters

/-! ### One flipped bit -/

def flipBit (byte : UInt8) (bit : Fin 8) : UInt8 := byte ^^^ UInt8.ofNat (2 ^ bit.val)

/-- The same bytes but for one bit. -/
def FlippedBit (bytes flipped : List UInt8) : Prop :=
  ∃ (front : List UInt8) (byte : UInt8) (bit : Fin 8) (back : List UInt8),
    bytes = front ++ byte :: back ∧ flipped = front ++ flipBit byte bit :: back

theorem flipBit_ne (byte : UInt8) (bit : Fin 8) : byte ≠ flipBit byte bit := by
  intro h
  have hmask : UInt8.ofNat (2 ^ bit.val) = 0 := by
    refine (UInt8.xor_right_inj byte).mp ?_
    rw [UInt8.xor_zero]
    exact h.symm
  have hbits : ∀ bit : Fin 8, UInt8.ofNat (2 ^ bit.val) ≠ 0 := by decide
  exact hbits bit hmask

theorem crc32c_ne_of_flippedBit {bytes flipped : List UInt8} (h : FlippedBit bytes flipped) :
    crc32c bytes ≠ crc32c flipped := by
  obtain ⟨front, byte, bit, back, rfl, rfl⟩ := h
  exact crc32c_ne_of_byte (flipBit_ne byte bit)

namespace FlippedBit

variable {bytes flipped first second : List UInt8}

theorem length_eq (h : FlippedBit bytes flipped) : flipped.length = bytes.length := by
  obtain ⟨front, byte, bit, back, rfl, rfl⟩ := h
  simp

theorem ne_nil (h : FlippedBit bytes flipped) : flipped ≠ [] := by
  obtain ⟨front, byte, bit, back, rfl, rfl⟩ := h
  exact List.append_ne_nil_of_right_ne_nil _ (List.cons_ne_nil _ _)

theorem ne (h : FlippedBit bytes flipped) : bytes ≠ flipped := by
  obtain ⟨front, byte, bit, back, rfl, rfl⟩ := h
  intro heq
  have htail := List.append_cancel_left heq
  exact flipBit_ne byte bit (List.cons.inj htail).1

/-- The bit is in the first part or in the second one. -/
theorem of_append (h : FlippedBit (first ++ second) flipped) :
    (∃ other, FlippedBit first other ∧ flipped = other ++ second) ∨
      ∃ other, FlippedBit second other ∧ flipped = first ++ other := by
  obtain ⟨front, byte, bit, back, heq, rfl⟩ := h
  rcases List.append_eq_append_iff.mp heq with ⟨middle, rfl, rfl⟩ | ⟨middle, rfl, hrest⟩
  · refine Or.inr ⟨middle ++ flipBit byte bit :: back, ⟨middle, byte, bit, back, rfl, rfl⟩, ?_⟩
    rw [List.append_assoc]
  · cases middle with
    | nil =>
      refine Or.inr ⟨flipBit byte bit :: back, ⟨[], byte, bit, back, hrest.symm, rfl⟩, ?_⟩
      rw [List.append_nil]
    | cons head middle =>
      obtain ⟨rfl, rfl⟩ := List.cons.inj hrest
      refine Or.inl ⟨front ++ flipBit byte bit :: middle, ⟨front, byte, bit, middle, rfl, rfl⟩, ?_⟩
      rw [List.append_assoc, List.cons_append]
      rfl

/-- One of several parts has the bit. -/
theorem of_flatten {parts : List (List UInt8)} (h : FlippedBit parts.flatten flipped) :
    ∃ front part back other, parts = front ++ part :: back ∧ FlippedBit part other ∧
      flipped = front.flatten ++ (other ++ back.flatten) := by
  induction parts generalizing flipped with
  | nil =>
    obtain ⟨front, byte, bit, back, heq, -⟩ := h
    exact absurd heq (by simp)
  | cons part rest ih =>
    rw [List.flatten_cons] at h
    rcases h.of_append with ⟨other, hother, rfl⟩ | ⟨other, hother, rfl⟩
    · exact ⟨[], part, rest, other, rfl, hother, rfl⟩
    · obtain ⟨front, found, back, changed, rfl, hchanged, rfl⟩ := ih hother
      refine ⟨part :: front, found, back, changed, rfl, hchanged, ?_⟩
      rw [List.flatten_cons, List.append_assoc]

end FlippedBit

end Kivi.Library.Crc
