import Kivi.Library.Bytes
import Kivi.Library.Result

/-!
# Decoders and what they read back

A decoder takes what it needs from the front of its input and hands on the rest. `Reads` says
that it reads a value back from the bytes of that value, whatever follows them; `Accepts` says
what holds of everything it accepts. Both follow the structure of the decoder: a sequence, a
repetition and a change of its errors each have one lemma. An encoder that may panic gives no
bytes; `encodeEach` writes a list with one.
-/

namespace Kivi.Library.Codec

open Library.Bytes

universe u v w

/-- Reads a value from the front of its input, with what follows. -/
def Decoder (ε : Type u) (α : Type v) := Bytes → Except ε (α × Bytes)

namespace Decoder

variable {ε : Type u} {α β : Type v}

protected def pure (value : α) : Decoder ε α := fun input ↦ .ok (value, input)

protected def bind (decoder : Decoder ε α) (next : α → Decoder ε β) : Decoder ε β := fun input ↦
  match decoder input with
  | .ok (value, rest) => next value rest
  | .error error => .error error

instance : Monad (Decoder ε) where
  pure := Decoder.pure
  bind := Decoder.bind

def fail (error : ε) : Decoder ε α := fun _ ↦ .error error

/-- Report the errors of a decoder in other words. -/
def mapError {δ : Type w} (report : ε → δ) (decoder : Decoder ε α) : Decoder δ α := fun input ↦
  match decoder input with
  | .ok read => .ok read
  | .error error => .error (report error)

/-- As many values as told, one after the other. -/
def many (decoder : Decoder ε α) : Nat → Decoder ε (List α)
  | 0 => Decoder.pure []
  | count + 1 => do
    let value ← decoder
    let values ← many decoder count
    return value :: values

@[simp] theorem pure_apply (value : α) (input : Bytes) :
    (Pure.pure value : Decoder ε α) input = .ok (value, input) := rfl

@[simp] theorem bind_apply (decoder : Decoder ε α) (next : α → Decoder ε β) (input : Bytes) :
    (decoder >>= next) input = match decoder input with
      | .ok (value, rest) => next value rest
      | .error error => .error error := rfl

@[simp] theorem map_apply (f : α → β) (decoder : Decoder ε α) (input : Bytes) :
    (f <$> decoder) input = match decoder input with
      | .ok (value, rest) => .ok (f value, rest)
      | .error error => .error error := rfl

variable {input rest : Bytes}

theorem bind_eq_ok_iff {decoder : Decoder ε α} {next : α → Decoder ε β} {result : β} :
    (decoder >>= next) input = .ok (result, rest) ↔
      ∃ value middle, decoder input = .ok (value, middle) ∧
        next value middle = .ok (result, rest) := by
  rw [bind_apply]
  rcases decoder input with error | ⟨value, middle⟩
  · simp
  · simp

theorem pure_eq_ok_iff {value result : α} :
    (Pure.pure value : Decoder ε α) input = .ok (result, rest) ↔ value = result ∧ input = rest := by
  simp

theorem map_eq_ok_iff {γ : Type v} {f : α → γ} {decoder : Decoder ε α} {result : γ} :
    (f <$> decoder) input = .ok (result, rest) ↔
      ∃ value, decoder input = .ok (value, rest) ∧ f value = result := by
  rw [map_apply]
  rcases decoder input with error | ⟨value, middle⟩
  · simp
  · simp [and_comm]

@[simp] theorem fail_apply (error : ε) (input : Bytes) :
    (fail error : Decoder ε α) input = .error error := rfl

variable {δ : Type w}

@[simp] theorem mapError_apply (report : ε → δ) (decoder : Decoder ε α) (input : Bytes) :
    decoder.mapError report input = match decoder input with
      | .ok read => .ok read
      | .error error => .error (report error) := rfl

/-- The decoder reads the value back from its bytes, whatever follows. -/
def Reads (decoder : Decoder ε α) (bytes : Bytes) (value : α) : Prop :=
  ∀ rest, decoder (bytes ++ rest) = .ok (value, rest)

/-- Whatever the decoder accepts has the property. -/
def Accepts (decoder : Decoder ε α) (P : α → Prop) : Prop :=
  ∀ input value rest, decoder input = .ok (value, rest) → P value

variable {decoder : Decoder ε α} {next : α → Decoder ε β} {first second bytes : Bytes}
  {value : α} {result : β} {P : α → Prop} {Q : β → Prop}

theorem reads_pure (value : α) : Reads (Pure.pure value : Decoder ε α) [] value :=
  fun _ ↦ rfl

theorem Reads.bind (h : Reads decoder first value) (hnext : Reads (next value) second result) :
    Reads (decoder >>= next) (first ++ second) result := by
  intro rest
  rw [bind_apply, List.append_assoc, h]
  exact hnext rest

theorem accepts_bind (h : Accepts decoder P) (hnext : ∀ value, P value → Accepts (next value) Q) :
    Accepts (decoder >>= next) Q := by
  intro input result rest hresult
  rw [bind_apply] at hresult
  rcases hread : decoder input with error | ⟨value, left⟩
  · rw [hread] at hresult
    cases hresult
  · rw [hread] at hresult
    exact hnext value (h input value left hread) left result rest hresult

theorem accepts_pure (h : P value) : Accepts (Pure.pure value : Decoder ε α) P := by
  intro input other rest hread
  cases hread
  exact h

theorem accepts_fail (error : ε) : Accepts (fail error : Decoder ε α) P := by
  intro input value rest hread
  cases hread

theorem accepts_trivial (decoder : Decoder ε α) : Accepts decoder fun _ ↦ True :=
  fun _ _ _ _ ↦ trivial

theorem Accepts.mono {R : α → Prop} (h : Accepts decoder P) (himp : ∀ value, P value → R value) :
    Accepts decoder R := fun input value rest hread ↦ himp value (h input value rest hread)

theorem Accepts.many (h : Accepts decoder P) (count : Nat) :
    Accepts (decoder.many count) fun values ↦
      values.length = count ∧ ∀ value ∈ values, P value := by
  induction count with
  | zero => exact accepts_pure ⟨rfl, List.forall_mem_nil _⟩
  | succ count ih =>
    refine accepts_bind h fun value hvalue ↦ accepts_bind ih fun values hvalues ↦ accepts_pure ?_
    refine ⟨by rw [List.length_cons, hvalues.1], fun other hmem ↦ ?_⟩
    rcases List.mem_cons.mp hmem with rfl | hrest
    · exact hvalue
    · exact hvalues.2 other hrest

/-- What the decoder leaves is an end of its input. -/
def Consumes (decoder : Decoder ε α) : Prop :=
  ∀ input value rest, decoder input = .ok (value, rest) → rest <:+ input

theorem consumes_pure (value : α) : Consumes (Pure.pure value : Decoder ε α) := by
  intro input _ rest hread
  cases hread
  exact List.suffix_refl input

theorem consumes_fail (error : ε) : Consumes (fail error : Decoder ε α) := by
  intro input value rest hread
  cases hread

theorem consumes_bind (h : Consumes decoder) (hnext : ∀ value, Consumes (next value)) :
    Consumes (decoder >>= next) := by
  intro input value rest hread
  rw [bind_apply] at hread
  rcases hdecoder : decoder input with error | ⟨first, middle⟩
  · rw [hdecoder] at hread
    cases hread
  · rw [hdecoder] at hread
    exact (hnext first middle value rest hread).trans (h input first middle hdecoder)

theorem consumes_map {γ : Type v} (f : α → γ) (h : Consumes decoder) : Consumes (f <$> decoder) :=
  consumes_bind h fun value ↦ consumes_pure (f value)

theorem Consumes.mapError {report : ε → δ} (h : Consumes decoder) :
    Consumes (decoder.mapError report) := by
  intro input value rest hread
  unfold Decoder.mapError at hread
  rcases hdecoder : decoder input with error | read
  · rw [hdecoder] at hread
    cases hread
  · rw [hdecoder] at hread
    cases hread
    exact h input value rest hdecoder

/-! ### Lists -/

/-- What is written in two parts has both of them. -/
theorem parts_of_some {α β γ : Type} {first : Option α} {second : α → Option β} {join : α → β → γ}
    {whole : γ} (h : (do let a ← first; let b ← second a; return join a b) = some whole) :
    ∃ a b, first = some a ∧ second a = some b ∧ whole = join a b := by
  obtain ⟨a, ha, h⟩ := Option.bind_eq_some_iff.mp h
  obtain ⟨b, hb, h⟩ := Option.bind_eq_some_iff.mp h
  exact ⟨a, b, ha, hb, (Option.some.inj h).symm⟩

/-- The bytes of a list, one item after the other; none if one of them panics. -/
def encodeEach (encode : α → Option Bytes) : List α → Option Bytes
  | [] => some []
  | item :: rest => do
    let bytes ← encode item
    let others ← encodeEach encode rest
    return bytes ++ others

variable {encode : α → Option Bytes}

theorem encodeEach_cons_eq_some {item : α} {rest : List α} :
    encodeEach encode (item :: rest) = some bytes ↔
      ∃ first second, encode item = some first ∧ encodeEach encode rest = some second ∧
        bytes = first ++ second := by
  constructor
  · intro hbytes
    obtain ⟨first, hfirst, hrest⟩ := Option.bind_eq_some_iff.mp hbytes
    obtain ⟨second, hsecond, hall⟩ := Option.bind_eq_some_iff.mp hrest
    exact ⟨first, second, hfirst, hsecond, (Option.some.inj hall).symm⟩
  · rintro ⟨first, second, hfirst, hsecond, rfl⟩
    exact Option.bind_eq_some_iff.mpr ⟨first, hfirst,
      Option.bind_eq_some_iff.mpr ⟨second, hsecond, rfl⟩⟩

variable {items : List α}

theorem encodeEach_isSome_iff :
    (encodeEach encode items).isSome = true ↔ ∀ item ∈ items, (encode item).isSome = true := by
  induction items with
  | nil => simp [encodeEach]
  | cons item rest ih =>
    rw [List.forall_mem_cons, ← ih, Option.isSome_iff_exists]
    simp only [encodeEach_cons_eq_some, Option.isSome_iff_exists]
    constructor
    · rintro ⟨_, first, second, hfirst, hsecond, rfl⟩
      exact ⟨⟨first, hfirst⟩, second, hsecond⟩
    · rintro ⟨⟨first, hfirst⟩, second, hsecond⟩
      exact ⟨_, first, second, hfirst, hsecond, rfl⟩

theorem encodeEach_some (encode : α → Bytes) (items : List α) :
    encodeEach (fun item ↦ some (encode item)) items = some (items.flatMap encode) := by
  induction items with
  | nil => rfl
  | cons item rest ih =>
    exact encodeEach_cons_eq_some.mpr ⟨encode item, rest.flatMap encode, rfl, ih, rfl⟩

/-- `encodeEach` for an encoder that may also refuse an item. -/
def writeEach {δ : Type w} (write : α → Result δ Bytes) : List α → Result δ Bytes
  | [] => .ok []
  | item :: rest => do
    let bytes ← write item
    let others ← writeEach write rest
    return bytes ++ others

theorem encodeEach_of_writeEach {write : α → Result δ Bytes}
    (h : writeEach write items = .ok bytes) :
    encodeEach (fun item ↦ (write item).toOption) items = some bytes := by
  induction items generalizing bytes with
  | nil =>
    cases h
    rfl
  | cons item rest ih =>
    obtain ⟨first, hfirst, hothers⟩ := Result.bind_eq_ok_iff.mp h
    obtain ⟨second, hsecond, hall⟩ := Result.bind_eq_ok_iff.mp hothers
    cases hall
    exact encodeEach_cons_eq_some.mpr
      ⟨first, second, Result.toOption_eq_some_iff.mpr hfirst, ih hsecond, rfl⟩

/-- Items of at least `unit` bytes each. -/
theorem le_length_encodeEach {unit : Nat}
    (h : ∀ item bytes, encode item = some bytes → unit ≤ bytes.length)
    (hbytes : encodeEach encode items = some bytes) : unit * items.length ≤ bytes.length := by
  induction items generalizing bytes with
  | nil => exact Nat.zero_le _
  | cons item rest ih =>
    obtain ⟨first, second, hfirst, hsecond, rfl⟩ := encodeEach_cons_eq_some.mp hbytes
    have hitem := h item first hfirst
    have hrest := ih hsecond
    rw [List.length_append, List.length_cons, Nat.mul_succ]
    omega

theorem length_encodeEach {length : α → Nat}
    (h : ∀ item bytes, encode item = some bytes → bytes.length = length item)
    (hbytes : encodeEach encode items = some bytes) :
    bytes.length = (items.map length).sum := by
  induction items generalizing bytes with
  | nil =>
    cases hbytes
    rfl
  | cons item rest ih =>
    obtain ⟨first, second, hfirst, hsecond, rfl⟩ := encodeEach_cons_eq_some.mp hbytes
    rw [List.length_append, h item first hfirst, ih hsecond, List.map_cons, List.sum_cons]

/-- A list whose items are read back is read back. -/
theorem Reads.many
    (h : ∀ item ∈ items, ∀ bytes, encode item = some bytes → Reads decoder bytes item)
    (hbytes : encodeEach encode items = some bytes) :
    Reads (decoder.many items.length) bytes items := by
  induction items generalizing bytes with
  | nil =>
    cases hbytes
    exact reads_pure []
  | cons item rest ih =>
    obtain ⟨first, second, hfirst, hsecond, rfl⟩ := encodeEach_cons_eq_some.mp hbytes
    have hitem := h item List.mem_cons_self first hfirst
    have hrest := ih (fun other hmem ↦ h other (List.mem_cons_of_mem _ hmem)) hsecond
    have hall : Reads (decoder.many (rest.length + 1)) (first ++ (second ++ [])) (item :: rest) :=
      hitem.bind (hrest.bind (reads_pure (item :: rest)))
    rwa [List.append_nil] at hall

/-- Bytes with nothing behind them are read to the end. -/
theorem Reads.whole (h : Reads decoder bytes value) : decoder bytes = .ok (value, []) := by
  have hread := h []
  rwa [List.append_nil] at hread

/-- A list whose items are written and read back is written and read back. -/
theorem exists_reads_many {count : Nat} (hcount : items.length = count)
    (h : ∀ item ∈ items, (encode item).isSome = true ∧
      ∀ bytes, encode item = some bytes → Reads decoder bytes item) :
    ∃ bytes, encodeEach encode items = some bytes ∧ Reads (decoder.many count) bytes items := by
  obtain ⟨bytes, hbytes⟩ := Option.isSome_iff_exists.mp
    (encodeEach_isSome_iff.mpr fun item hmem ↦ (h item hmem).1)
  subst hcount
  exact ⟨bytes, hbytes, Reads.many (fun item hmem ↦ (h item hmem).2) hbytes⟩

/-- If the items are read from their own bytes only, so is a list of them. -/
theorem many_eq_ok_iff
    (h : ∀ input item rest, decoder input = .ok (item, rest) ↔
      ∃ bytes, encode item = some bytes ∧ input = bytes ++ rest)
    {count : Nat} :
    decoder.many count input = .ok (items, rest) ↔ items.length = count ∧
      ∃ bytes, encodeEach encode items = some bytes ∧ input = bytes ++ rest := by
  constructor
  · intro hread
    induction count generalizing input items with
    | zero =>
      obtain ⟨rfl, rfl⟩ := pure_eq_ok_iff.mp hread
      exact ⟨rfl, [], rfl, rfl⟩
    | succ count ih =>
      obtain ⟨item, middle, hitem, hread⟩ := bind_eq_ok_iff.mp hread
      obtain ⟨others, tail, hothers, hread⟩ := bind_eq_ok_iff.mp hread
      obtain ⟨rfl, rfl⟩ := pure_eq_ok_iff.mp hread
      obtain ⟨first, hfirst, rfl⟩ := (h _ _ _).mp hitem
      obtain ⟨hlength, second, hsecond, rfl⟩ := ih hothers
      refine ⟨congrArg Nat.succ hlength, first ++ second, ?_, (List.append_assoc _ _ _).symm⟩
      exact encodeEach_cons_eq_some.mpr ⟨first, second, hfirst, hsecond, rfl⟩
  · rintro ⟨rfl, bytes, hbytes, rfl⟩
    exact Reads.many (fun item _ bytes hitem rest ↦ (h _ _ _).mpr ⟨bytes, hitem, rfl⟩) hbytes rest

/-! ### Fixed-width fields -/

section Fields

variable {short : Nat → ε}

/-- The next `n` bytes; `short` reports how many there are when they are too few. -/
def fixed (n : Nat) (short : Nat → ε) : Decoder ε (FixedBytes n) := fun input ↦
  match FixedBytes.take n input with
  | some read => .ok read
  | none => .error (short input.length)

def byte (short : Nat → ε) : Decoder ε UInt8
  | [] => .error (short 0)
  | first :: rest => .ok (first, rest)

def word16 (short : Nat → ε) : Decoder ε UInt16 :=
  (fun raw ↦ UInt16.ofNat (ofLeBytes raw.bytes)) <$> fixed 2 short

def word32 (short : Nat → ε) : Decoder ε UInt32 :=
  (fun raw ↦ UInt32.ofNat (ofLeBytes raw.bytes)) <$> fixed 4 short

def word64 (short : Nat → ε) : Decoder ε UInt64 :=
  (fun raw ↦ UInt64.ofNat (ofLeBytes raw.bytes)) <$> fixed 8 short

def signed64 (short : Nat → ε) : Decoder ε Int64 := UInt64.toInt64 <$> word64 short

theorem consumes_fixed (n : Nat) (short : Nat → ε) : Consumes (fixed n short) := by
  intro input value rest hread
  unfold fixed FixedBytes.take at hread
  split_ifs at hread
  cases hread
  exact List.drop_suffix n input

theorem consumes_byte (short : Nat → ε) : Consumes (byte short) := by
  intro input value rest hread
  cases input with
  | nil => cases hread
  | cons first tail =>
    cases hread
    exact List.suffix_cons _ _

theorem consumes_word32 (short : Nat → ε) : Consumes (word32 short) :=
  consumes_map _ (consumes_fixed 4 short)

theorem consumes_word64 (short : Nat → ε) : Consumes (word64 short) :=
  consumes_map _ (consumes_fixed 8 short)

theorem consumes_signed64 (short : Nat → ε) : Consumes (signed64 short) :=
  consumes_map _ (consumes_word64 short)

variable {n : Nat}

@[simp] theorem fixed_append (raw : FixedBytes n) (rest : Bytes) :
    fixed n short (raw.bytes ++ rest) = .ok (raw, rest) := by
  rw [fixed, FixedBytes.take_append]

@[simp] theorem byte_cons (first : UInt8) (rest : Bytes) :
    byte short (first :: rest) = .ok (first, rest) := rfl
/-- A number that fits its field is read back from the field's bytes. -/
theorem fixed_leBytes {width value : Nat} (hfits : value < 256 ^ width) (rest : Bytes) :
    ∃ raw : FixedBytes width, fixed width short (leBytes width value ++ rest) = .ok (raw, rest) ∧
      ofLeBytes raw.bytes = value :=
  ⟨⟨leBytes width value, length_leBytes width value⟩, fixed_append ⟨_, _⟩ rest,
    ofLeBytes_leBytes width value hfits⟩

@[simp] theorem word16_append (word : UInt16) (rest : Bytes) :
    word16 short (leBytes 2 word.toNat ++ rest) = .ok (word, rest) := by
  obtain ⟨raw, hread, hvalue⟩ := @fixed_leBytes ε short 2 word.toNat word.toNat_lt rest
  simp [word16, hread, hvalue]

@[simp] theorem word32_append (word : UInt32) (rest : Bytes) :
    word32 short (leBytes 4 word.toNat ++ rest) = .ok (word, rest) := by
  obtain ⟨raw, hread, hvalue⟩ := @fixed_leBytes ε short 4 word.toNat word.toNat_lt rest
  simp [word32, hread, hvalue]

@[simp] theorem word64_append (word : UInt64) (rest : Bytes) :
    word64 short ((leU64 word).bytes ++ rest) = .ok (word, rest) := by
  have hvalue : ofLeBytes (leU64 word).bytes = word.toNat := ofLeBytes_leBytes 8 _ word.toNat_lt
  simp [word64, hvalue]

@[simp] theorem signed64_append (word : Int64) (rest : Bytes) :
    signed64 short ((leU64 word.toUInt64).bytes ++ rest) = .ok (word, rest) := by
  simp [signed64]

theorem fixed_eq_ok_iff {raw : FixedBytes n} :
    fixed n short input = .ok (raw, rest) ↔ input = raw.bytes ++ rest := by
  constructor
  · intro hread
    unfold fixed FixedBytes.take at hread
    split_ifs at hread
    cases hread
    exact (List.take_append_drop n input).symm
  · rintro rfl
    exact fixed_append raw rest

theorem byte_eq_ok_iff {value : UInt8} :
    byte short input = .ok (value, rest) ↔ input = value :: rest := by
  cases input with
  | nil => simp [byte]
  | cons first tail => simp [byte]

/-- A word is read from its own bytes only. -/
theorem map_fixed_eq_ok_iff {γ : Type} {ofBytes : FixedBytes n → γ} (toBytes : γ → Bytes)
    (hleft : ∀ raw, toBytes (ofBytes raw) = raw.bytes)
    (hright : ∀ value rest, (ofBytes <$> fixed n short) (toBytes value ++ rest) = .ok (value, rest))
    {value : γ} :
    (ofBytes <$> fixed n short) input = .ok (value, rest) ↔ input = toBytes value ++ rest := by
  constructor
  · intro hread
    rw [map_eq_ok_iff] at hread
    obtain ⟨raw, hraw, rfl⟩ := hread
    rw [hleft, fixed_eq_ok_iff.mp hraw]
  · rintro rfl
    exact hright value rest

theorem word16_eq_ok_iff {word : UInt16} :
    word16 short input = .ok (word, rest) ↔ input = leBytes 2 word.toNat ++ rest := by
  refine map_fixed_eq_ok_iff (fun word : UInt16 ↦ leBytes 2 word.toNat)
    (fun raw ↦ ?_) word16_append
  have hword : (UInt16.ofNat (ofLeBytes raw.bytes)).toNat = ofLeBytes raw.bytes :=
    UInt16.toNat_ofNat_of_lt' raw.ofLeBytes_lt
  rw [hword, raw.leBytes_ofLeBytes]

theorem word32_eq_ok_iff {word : UInt32} :
    word32 short input = .ok (word, rest) ↔ input = leBytes 4 word.toNat ++ rest := by
  refine map_fixed_eq_ok_iff (fun word : UInt32 ↦ leBytes 4 word.toNat)
    (fun raw ↦ ?_) word32_append
  have hword : (UInt32.ofNat (ofLeBytes raw.bytes)).toNat = ofLeBytes raw.bytes :=
    UInt32.toNat_ofNat_of_lt' raw.ofLeBytes_lt
  rw [hword, raw.leBytes_ofLeBytes]

theorem word64_eq_ok_iff {word : UInt64} :
    word64 short input = .ok (word, rest) ↔ input = (leU64 word).bytes ++ rest := by
  refine map_fixed_eq_ok_iff (fun word : UInt64 ↦ (leU64 word).bytes)
    (fun raw ↦ ?_) word64_append
  have hpow : 256 ^ 8 = 2 ^ 64 := by norm_num
  have hfits : ofLeBytes raw.bytes < 2 ^ 64 := hpow ▸ raw.ofLeBytes_lt
  have hword : (UInt64.ofNat (ofLeBytes raw.bytes)).toNat = ofLeBytes raw.bytes :=
    UInt64.toNat_ofNat_of_lt' hfits
  simp only [leU64, hword, raw.leBytes_ofLeBytes]

theorem signed64_eq_ok_iff {word : Int64} :
    signed64 short input = .ok (word, rest) ↔ input = (leU64 word.toUInt64).bytes ++ rest := by
  constructor
  · intro hread
    rw [signed64, map_eq_ok_iff] at hread
    obtain ⟨raw, hraw, rfl⟩ := hread
    rw [word64_eq_ok_iff.mp hraw]
    rfl
  · rintro rfl
    exact signed64_append word rest

end Fields

end Decoder

end Kivi.Library.Codec
