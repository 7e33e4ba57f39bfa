import Mathlib

/-!
# Fixed-length byte strings and little-endian words

`FixedBytes n` is an array of `n` bytes compared lexicographically, usable as the key type of
an ordered map. `leBytes` writes a natural number into a fixed number of bytes, least
significant first; `ofLeBytes_leBytes` reads it back.
-/

abbrev Kivi.Library.Bytes := List UInt8

/-- Sums up bytes in a word. -/
abbrev Kivi.Library.Checksum := Bytes → UInt32

namespace Kivi.Library.Bytes

/-- A byte string of exactly `n` bytes. -/
@[ext]
structure FixedBytes (n : Nat) where
  bytes : Bytes
  length_eq : bytes.length = n
deriving DecidableEq

namespace FixedBytes

variable {n : Nat}

/-- The string of `n` zero bytes. -/
def zero (n : Nat) : FixedBytes n := ⟨List.replicate n 0, List.length_replicate⟩

instance : Ord (FixedBytes n) := ⟨compareOn FixedBytes.bytes⟩

instance : Std.TransOrd (FixedBytes n) :=
  inferInstanceAs (Std.TransCmp (compareOn FixedBytes.bytes))

instance : Std.LawfulEqOrd (FixedBytes n) where
  eq_of_compare h := FixedBytes.ext (Std.LawfulEqOrd.eq_of_compare h)

/-- The byte string at the front of `input`, with what follows it. -/
def take (n : Nat) (input : Bytes) : Option (FixedBytes n × Bytes) :=
  if h : n ≤ input.length then
    some (⟨input.take n, List.length_take_of_le h⟩, input.drop n)
  else none

theorem take_append_of_length {front : Bytes} (hfront : front.length = n)
    (rest : Bytes) : take n (front ++ rest) = some (⟨front, hfront⟩, rest) := by
  have hlen : n ≤ (front ++ rest).length := by simp [hfront]
  have htake : (front ++ rest).take n = front := List.take_left' hfront
  have hdrop : (front ++ rest).drop n = rest := List.drop_left' hfront
  simp only [take, dif_pos hlen, htake, hdrop]

@[simp] theorem take_append (a : FixedBytes n) (rest : Bytes) :
    take n (a.bytes ++ rest) = some (a, rest) :=
  take_append_of_length a.length_eq rest

end FixedBytes

/-! ### Little-endian words -/

/-- The byte at the front of `input`, with what follows it. -/
def takeByte : Bytes → Option (UInt8 × Bytes)
  | [] => none
  | byte :: rest => some (byte, rest)

@[simp] theorem takeByte_cons (byte : UInt8) (rest : Bytes) :
    takeByte (byte :: rest) = some (byte, rest) := rfl

/-- The `width` low bytes of `value`, least significant first. -/
def leBytes : (width : Nat) → (value : Nat) → Bytes
  | 0, _ => []
  | width + 1, value => UInt8.ofNat (value % 256) :: leBytes width (value / 256)

/-- The number whose little-endian bytes are given. -/
def ofLeBytes : Bytes → Nat
  | [] => 0
  | byte :: rest => byte.toNat + 256 * ofLeBytes rest

@[simp] theorem length_leBytes (width value : Nat) : (leBytes width value).length = width := by
  induction width generalizing value with
  | zero => rfl
  | succ width ih => simp [leBytes, ih]

theorem ofLeBytes_leBytes (width value : Nat) (hfits : value < 256 ^ width) :
    ofLeBytes (leBytes width value) = value := by
  induction width generalizing value with
  | zero => simp at hfits; simp [leBytes, ofLeBytes, hfits]
  | succ width ih =>
    have hdiv : value / 256 < 256 ^ width := by
      rw [Nat.div_lt_iff_lt_mul (by norm_num), ← pow_succ]
      exact hfits
    have hbyte : (UInt8.ofNat (value % 256)).toNat = value % 256 := by
      simp
    rw [leBytes, ofLeBytes, ih _ hdiv, hbyte]
    omega

theorem ofLeBytes_lt (bytes : Bytes) : ofLeBytes bytes < 256 ^ bytes.length := by
  induction bytes with
  | nil => exact Nat.one_pos
  | cons byte rest ih =>
    have hbyte : byte.toNat < 256 := byte.toNat_lt
    rw [ofLeBytes, List.length_cons, pow_succ]
    omega

theorem leBytes_ofLeBytes (bytes : Bytes) :
    leBytes bytes.length (ofLeBytes bytes) = bytes := by
  induction bytes with
  | nil => rfl
  | cons byte rest ih =>
    have hbyte : byte.toNat < 256 := byte.toNat_lt
    have hlow : (byte.toNat + 256 * ofLeBytes rest) % 256 = byte.toNat := by omega
    have hhigh : (byte.toNat + 256 * ofLeBytes rest) / 256 = ofLeBytes rest := by omega
    rw [ofLeBytes, List.length_cons, leBytes, hlow, hhigh, ih, UInt8.ofNat_toNat]

theorem FixedBytes.ofLeBytes_lt {n : Nat} (raw : FixedBytes n) : ofLeBytes raw.bytes < 256 ^ n := by
  have hlt := Bytes.ofLeBytes_lt raw.bytes
  rwa [raw.length_eq] at hlt

theorem FixedBytes.leBytes_ofLeBytes {n : Nat} (raw : FixedBytes n) :
    leBytes n (ofLeBytes raw.bytes) = raw.bytes := by
  have heq := Bytes.leBytes_ofLeBytes raw.bytes
  rwa [raw.length_eq] at heq

/-- The 64-bit word at the front of `input`, with what follows it. -/
def takeU64 (input : Bytes) : Option (UInt64 × Bytes) :=
  (FixedBytes.take 8 input).map fun (raw, rest) ↦ (UInt64.ofNat (ofLeBytes raw.bytes), rest)

/-- The eight little-endian bytes of a word. -/
def leU64 (word : UInt64) : FixedBytes 8 := ⟨leBytes 8 word.toNat, length_leBytes 8 _⟩

@[simp] theorem takeU64_append (word : UInt64) (rest : Bytes) :
    takeU64 ((leU64 word).bytes ++ rest) = some (word, rest) := by
  have hvalue : ofLeBytes (leU64 word).bytes = word.toNat :=
    ofLeBytes_leBytes 8 _ word.toNat_lt
  simp [takeU64, hvalue]

end Kivi.Library.Bytes
