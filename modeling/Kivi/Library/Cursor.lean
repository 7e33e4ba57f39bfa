import Kivi.Library.Codec

/-!
# Cursors over a buffer

A cursor reads a buffer from a position and says where it stopped. Positions are machine words: an
advance that leaves the word and a slice that starts behind the buffer panic. A decoder has neither,
since it hands on what is left of its input. `Implements` says that a cursor does on every buffer
what a decoder does on the rest of it, and so does not panic. A `Reader` is a cursor with the
decoder it implements. Every way of putting readers together keeps the two in step, so a format
written once as a `Reader` is walked and decoded alike, and its safety is that of the advances it
makes by `take`.
-/

namespace Kivi.Library

open Library.Bytes Library.Codec

universe u v w

/-- Reads a buffer from a position. -/
def Cursor (ε : Type u) (α : Type v) := Bytes → Nat → Result ε (α × Nat)

namespace Cursor

variable {ε : Type u} {α β : Type v}

protected def pure (value : α) : Cursor ε α := fun _ position ↦ .ok (value, position)

protected def bind (cursor : Cursor ε α) (next : α → Cursor ε β) : Cursor ε β :=
  fun body position ↦
    match cursor body position with
    | .ok (value, stopped) => next value body stopped
    | .err error => .err error
    | .panic => .panic

instance : Monad (Cursor ε) where
  pure := Cursor.pure
  bind := Cursor.bind

def fail (error : ε) : Cursor ε α := fun _ _ ↦ .err error

variable {n position : Nat} {body : Bytes}

theorem length_slice (h : ¬body.length < position + n) :
    ((body.drop position).take n).length = n := by
  rw [List.length_take, List.length_drop]
  omega

/-- The next `n` bytes, `short` if there are fewer. -/
def take (n : Nat) (short : ε) : Cursor ε (FixedBytes n) := fun body position ↦
  if 2 ^ 64 ≤ position + n then .panic
  else if h : body.length < position + n then .err short
  else .ok (⟨(body.drop position).take n, length_slice h⟩, position + n)

/-- Move on by what a reader of the rest of the buffer used. -/
def advance (value : α) (position used : Nat) : Result ε (α × Nat) :=
  if 2 ^ 64 ≤ position + used then .panic else .ok (value, position + used)

/-- A decoder on the slice that starts at the position. -/
def nested (decoder : Decoder ε α) : Cursor ε α := fun body position ↦
  if body.length < position then .panic
  else
    match decoder (body.drop position) with
    | .ok (value, rest) => advance value position ((body.drop position).length - rest.length)
    | .error error => .err error

/-- A cursor on the slice that starts at the position. -/
def within {δ : Type w} (report : δ → ε) (cursor : Cursor δ α) : Cursor ε α :=
  fun body position ↦
    if body.length < position then .panic
    else
      match cursor (body.drop position) 0 with
      | .ok (value, used) => advance value position used
      | .err error => .err (report error)
      | .panic => .panic

/-- As many values as told, one after the other. -/
def many (cursor : Cursor ε α) : Nat → Cursor ε (List α)
  | 0 => Cursor.pure []
  | count + 1 => do
    let value ← cursor
    let values ← many cursor count
    return value :: values

@[simp] theorem pure_apply (value : α) (body : Bytes) (position : Nat) :
    (Pure.pure value : Cursor ε α) body position = .ok (value, position) := rfl

theorem bind_apply (cursor : Cursor ε α) (next : α → Cursor ε β) (body : Bytes)
    (position : Nat) :
    (cursor >>= next) body position =
      match cursor body position with
      | .ok (value, stopped) => next value body stopped
      | .err error => .err error
      | .panic => .panic := rfl

theorem bind_eq_panic_iff {cursor : Cursor ε α} {next : α → Cursor ε β} :
    (cursor >>= next) body position = .panic ↔ cursor body position = .panic ∨
      ∃ value stopped, cursor body position = .ok (value, stopped) ∧
        next value body stopped = .panic := by
  rw [bind_apply]
  rcases cursor body position with ⟨value, stopped⟩ | error | _
  · simp
  · simp
  · simp

/-! ### Implementing a decoder -/

/-- What the result of a decoder on the end of a buffer of `length` bytes is for a cursor. -/
def located (length : Nat) : Except ε (α × Bytes) → Result ε (α × Nat)
  | .ok (value, rest) => .ok (value, length - rest.length)
  | .error error => .err error

/-- On every buffer that fits in memory the cursor does what the decoder does on the rest of it. -/
structure Implements (cursor : Cursor ε α) (decoder : Decoder ε α) : Prop where
  consumes : decoder.Consumes
  agrees : ∀ body position, body.length < 2 ^ 63 → position ≤ body.length →
    cursor body position = located body.length (decoder (body.drop position))

variable {cursor : Cursor ε α} {decoder : Decoder ε α} {next : α → Cursor ε β}
  {nextDecoder : α → Decoder ε β}

/-- The end of a buffer that a decoder leaves starts where the cursor stops. -/
theorem eq_drop_of_suffix {rest : Bytes} (h : rest <:+ body) :
    rest = body.drop (body.length - rest.length) :=
  List.suffix_iff_eq_drop.mp h

theorem implements_pure (value : α) :
    Implements (Pure.pure value : Cursor ε α) (Pure.pure value) where
  consumes := Decoder.consumes_pure value
  agrees body position _ hposition := by
    have hstopped : body.length - (body.drop position).length = position := by
      rw [List.length_drop]
      omega
    rw [pure_apply, Decoder.pure_apply, located, hstopped]

theorem implements_fail (error : ε) :
    Implements (fail error : Cursor ε α) (Decoder.fail error) where
  consumes := Decoder.consumes_fail error
  agrees _ _ _ _ := rfl

theorem Implements.bind (h : Implements cursor decoder)
    (hnext : ∀ value, Implements (next value) (nextDecoder value)) :
    Implements (cursor >>= next) (decoder >>= nextDecoder) where
  consumes := Decoder.consumes_bind h.consumes fun value ↦ (hnext value).consumes
  agrees body position hbody hposition := by
    rw [bind_apply, h.agrees body position hbody hposition, Decoder.bind_apply]
    rcases hread : decoder (body.drop position) with error | ⟨value, rest⟩
    · rfl
    · have hsuffix : rest <:+ body :=
        (h.consumes _ _ _ hread).trans (List.drop_suffix position body)
      have hagrees := (hnext value).agrees body (body.length - rest.length) hbody (Nat.sub_le _ _)
      rw [← eq_drop_of_suffix hsuffix] at hagrees
      exact hagrees

theorem Implements.many (h : Implements cursor decoder) (count : Nat) :
    Implements (cursor.many count) (decoder.many count) := by
  induction count with
  | zero => exact implements_pure []
  | succ count ih =>
    exact h.bind fun value ↦ ih.bind fun values ↦ implements_pure (value :: values)

/-- Moving on by what a decoder used of the rest stays in the buffer. -/
theorem advance_of_suffix {value : α} {rest : Bytes} (hbody : body.length < 2 ^ 63)
    (hposition : position ≤ body.length) (h : rest <:+ body.drop position) :
    (advance value position ((body.drop position).length - rest.length) : Result ε (α × Nat)) =
      .ok (value, body.length - rest.length) := by
  have hle : rest.length ≤ (body.drop position).length := h.length_le
  have hstopped : position + ((body.drop position).length - rest.length) =
      body.length - rest.length := by
    rw [List.length_drop] at hle ⊢
    omega
  have hword : ¬2 ^ 64 ≤ body.length - rest.length := by omega
  rw [advance, hstopped, if_neg hword]

/-- A decoder on the rest of the buffer. -/
theorem implements_nested (h : decoder.Consumes) : Implements (nested decoder) decoder where
  consumes := h
  agrees body position hbody hposition := by
    rw [nested, if_neg (Nat.not_lt.mpr hposition)]
    rcases hread : decoder (body.drop position) with error | ⟨value, rest⟩
    · rfl
    · exact advance_of_suffix hbody hposition (h _ _ _ hread)

theorem Implements.within {δ : Type w} {report : δ → ε} {cursor : Cursor δ α}
    {decoder : Decoder δ α} (h : Implements cursor decoder) :
    Implements (cursor.within report) (decoder.mapError report) where
  consumes := h.consumes.mapError
  agrees body position hbody hposition := by
    have hslice : (body.drop position).length < 2 ^ 63 := by
      rw [List.length_drop]
      omega
    rw [Cursor.within, if_neg (Nat.not_lt.mpr hposition), h.agrees _ 0 hslice (Nat.zero_le _),
      List.drop_zero, Decoder.mapError_apply]
    rcases hread : decoder (body.drop position) with error | ⟨value, rest⟩
    · rfl
    · exact advance_of_suffix hbody hposition (h.consumes _ _ _ hread)

/-- What `take` does where it does not leave the word. -/
theorem take_agrees (short : ε) (hword : position + n < 2 ^ 64)
    (hposition : position ≤ body.length) :
    take n short body position =
      located body.length (Decoder.fixed n (fun _ ↦ short) (body.drop position)) := by
  rw [take, if_neg (Nat.not_le.mpr hword), Decoder.fixed, FixedBytes.take]
  by_cases hshort : body.length < position + n
  · have hfew : ¬n ≤ (body.drop position).length := by
      rw [List.length_drop]
      omega
    rw [dif_pos hshort, dif_neg hfew]
    rfl
  · have hlength : n ≤ (body.drop position).length := by
      rw [List.length_drop]
      omega
    have hstopped : body.length - ((body.drop position).drop n).length = position + n := by
      rw [List.length_drop, List.length_drop]
      omega
    rw [dif_neg hshort, dif_pos hlength]
    simp only [located, hstopped]

/-- An advance by fewer bytes than memory has does not leave the word. -/
theorem implements_take (hn : n ≤ 2 ^ 63) (short : ε) :
    Implements (take n short) (Decoder.fixed n fun _ ↦ short) where
  consumes := Decoder.consumes_fixed n _
  agrees body position hbody hposition := take_agrees short (by omega) hposition

/-- A cursor that implements a decoder returns. -/
theorem Implements.ne_panic (h : Implements cursor decoder) (hbody : body.length < 2 ^ 63)
    (hposition : position ≤ body.length) :
    cursor body position ≠ .panic := by
  rw [h.agrees body position hbody hposition]
  rcases decoder (body.drop position) with error | ⟨value, rest⟩
  · exact nofun
  · exact nofun

end Cursor

/-! ### Readers -/

open Cursor

/-- Reads a format: the cursor that walks a buffer, and the decoder that it implements. -/
structure Reader (ε : Type u) (α : Type v) where
  cursor : Cursor ε α
  decoder : Decoder ε α
  implements : Implements cursor decoder

namespace Reader

variable {ε : Type u} {α β : Type v} {δ : Type w}

/-- A reader is applied as its decoder. -/
instance : CoeFun (Reader ε α) fun _ ↦ Bytes → Except ε (α × Bytes) := ⟨Reader.decoder⟩

instance : Monad (Reader ε) where
  pure value := ⟨pure value, pure value, implements_pure value⟩
  bind reader next := ⟨reader.cursor >>= fun value ↦ (next value).cursor,
    reader.decoder >>= fun value ↦ (next value).decoder,
    reader.implements.bind fun value ↦ (next value).implements⟩

def fail (error : ε) : Reader ε α := ⟨Cursor.fail error, Decoder.fail error, implements_fail error⟩

/-- The next `n` bytes, fewer than memory has; `short` if there are not that many. -/
def take (n : Nat) (hn : n ≤ 2 ^ 63) (short : ε) : Reader ε (FixedBytes n) :=
  ⟨Cursor.take n short, Decoder.fixed n fun _ ↦ short, implements_take hn short⟩

/-- A decoder on the slice that starts at the position, its errors reported in other words. -/
def nested (decoder : Decoder δ α) (h : decoder.Consumes) (report : δ → ε) : Reader ε α :=
  ⟨Cursor.nested (decoder.mapError report), decoder.mapError report, implements_nested h.mapError⟩

/-- A reader on the slice that starts at the position, its errors reported in other words. -/
def within (reader : Reader δ α) (report : δ → ε) : Reader ε α :=
  ⟨reader.cursor.within report, reader.decoder.mapError report, reader.implements.within⟩

def many (reader : Reader ε α) (count : Nat) : Reader ε (List α) :=
  ⟨reader.cursor.many count, reader.decoder.many count, reader.implements.many count⟩

/-- Refuses unless so many bytes are left. -/
def require (need : Nat) (error : ε) : Reader ε Unit where
  cursor := fun body position ↦
    if body.length - position < need then .err error else .ok ((), position)
  decoder := fun input ↦ if input.length < need then .error error else .ok ((), input)
  implements :=
    { consumes := fun input _ rest hread ↦ by
        dsimp only at hread
        split_ifs at hread
        cases hread
        exact List.suffix_refl input
      agrees := fun body position _ hposition ↦ by
        have hstopped : body.length - (body.length - position) = position := by omega
        simp only [List.length_drop]
        split_ifs
        · rfl
        · simp only [located, List.length_drop, hstopped] }

@[simp] theorem decoder_pure (value : α) : (pure value : Reader ε α).decoder = pure value := rfl

@[simp] theorem decoder_bind (reader : Reader ε α) (next : α → Reader ε β) :
    (reader >>= next).decoder = reader.decoder >>= fun value ↦ (next value).decoder := rfl

@[simp] theorem decoder_map (f : α → β) (reader : Reader ε α) :
    (f <$> reader).decoder = f <$> reader.decoder := rfl

@[simp] theorem decoder_fail (error : ε) : (fail error : Reader ε α).decoder = .fail error := rfl

@[simp] theorem decoder_nested {decoder : Decoder δ α} {h : decoder.Consumes} {report : δ → ε} :
    (nested decoder h report).decoder = decoder.mapError report := rfl

@[simp] theorem decoder_within (reader : Reader δ α) (report : δ → ε) :
    (reader.within report).decoder = reader.decoder.mapError report := rfl

@[simp] theorem decoder_many (reader : Reader ε α) (count : Nat) :
    (reader.many count).decoder = reader.decoder.many count := rfl

@[simp] theorem decoder_ite (P : Prop) [Decidable P] (reader other : Reader ε α) :
    (if P then reader else other).decoder = if P then reader.decoder else other.decoder :=
  apply_ite _ _ _ _

end Reader

end Kivi.Library
