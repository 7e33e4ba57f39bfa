import Mathlib

/-!
# Windows of answers kept for retries

A server that executes each numbered request of a client once keeps the answers the client has
not acknowledged. `Window` has the acknowledged floor and the answers kept; `advance` takes an
acknowledgement and `record` an answer. A number that is `Settled` stays so through both, which is
what lets a server tell a retry from a new request; `Above` says that nothing acknowledged is
still kept.
-/

namespace Kivi.Library.RetryWindow

open Std (ExtTreeMap)

universe u

theorem le_max_iff_u64 {seq first second : UInt64} :
    seq ≤ max first second ↔ seq ≤ first ∨ seq ≤ second := by
  rw [UInt64.max_def]
  split_ifs with hle <;> grind

/-- What one client has acknowledged, and the answers kept for it. -/
structure Window (α : Type u) where
  floor : UInt64
  kept : ExtTreeMap UInt64 α

namespace Window

variable {α : Type u} {window : Window α} {seq other ack : UInt64} {answer : α}

/-- Nothing acknowledged and nothing kept. -/
def empty : Window α := ⟨0, ∅⟩

/-- Raise the floor to an acknowledgement and drop the answers it covers. -/
def advance (window : Window α) (ack : UInt64) : Window α :=
  if window.floor < ack then ⟨ack, window.kept.filter fun seq _ ↦ decide (ack < seq)⟩ else window

/-- Keep the answer of a request. -/
def record (window : Window α) (seq : UInt64) (answer : α) : Window α :=
  { window with kept := window.kept.insert seq answer }

/-- The request has been acknowledged or its answer is kept. -/
def Settled (window : Window α) (seq : UInt64) : Prop :=
  seq ≤ window.floor ∨ seq ∈ window.kept

/-- Every kept answer is of a request above the floor. -/
def Above (window : Window α) : Prop := ∀ seq ∈ window.kept, window.floor < seq

theorem advance_floor (window : Window α) (ack : UInt64) :
    (window.advance ack).floor = max window.floor ack := by
  unfold advance
  rw [UInt64.max_def]
  split_ifs with hless hle <;> grind

theorem getElem?_advance (window : Window α) (ack seq : UInt64) :
    (window.advance ack).kept[seq]? =
      if window.floor < ack ∧ seq ≤ ack then none else window.kept[seq]? := by
  unfold advance
  by_cases hless : window.floor < ack
  · rw [if_pos hless, ExtTreeMap.getElem?_filter]
    by_cases hcovered : seq ≤ ack
    · simp [hless, hcovered, UInt64.not_lt.mpr hcovered]
    · simp only [ExtTreeMap.getKey_eq, UInt64.not_le.mp hcovered, decide_true,
        Option.pfilter_eq_filter, hcovered, and_false, if_false]
      rcases window.kept[seq]? with _ | answer <;> rfl
  · simp [hless]

/-- An acknowledgement keeps what it does not cover. -/
theorem advance_keeps (h : seq ≤ window.floor ∨ window.kept[seq]? = some answer) (ack : UInt64) :
    seq ≤ (window.advance ack).floor ∨ (window.advance ack).kept[seq]? = some answer := by
  by_cases hcovered : seq ≤ max window.floor ack
  · exact Or.inl (by rwa [advance_floor])
  · have hkept : window.kept[seq]? = some answer :=
      h.resolve_left fun hfloor ↦ hcovered (le_max_iff_u64.mpr (Or.inl hfloor))
    have hack : ¬ seq ≤ ack := fun hle ↦
      hcovered (le_max_iff_u64.mpr (Or.inr hle))
    right
    rw [getElem?_advance, if_neg fun hboth ↦ hack hboth.2]
    exact hkept

theorem le_floor_advance (h : seq ≤ window.floor) (ack : UInt64) :
    seq ≤ (window.advance ack).floor := by
  rw [advance_floor, le_max_iff_u64]
  exact Or.inl h

/-- What is kept after an acknowledgement was kept before. -/
theorem kept_of_advance (h : (window.advance ack).kept[seq]? = some answer) :
    window.kept[seq]? = some answer := by
  rw [getElem?_advance] at h
  split_ifs at h
  exact h

theorem getElem?_record (window : Window α) (seq other : UInt64) (answer : α) :
    (window.record seq answer).kept[other]? =
      if seq = other then some answer else window.kept[other]? := by
  simp only [record, ExtTreeMap.getElem?_insert, Std.compare_eq_iff_eq]

theorem Settled.advance (h : window.Settled seq) (ack : UInt64) :
    (window.advance ack).Settled seq := by
  rcases h with hfloor | hkept
  · exact Or.inl (le_floor_advance hfloor ack)
  · obtain ⟨answer, hanswer⟩ := Option.isSome_iff_exists.mp
      (ExtTreeMap.mem_iff_isSome_getElem?.mp hkept)
    rcases advance_keeps (Or.inr hanswer) ack with hfloor | hstill
    · exact Or.inl hfloor
    · exact Or.inr (ExtTreeMap.mem_iff_isSome_getElem?.mpr (by rw [hstill]; rfl))

theorem Settled.record (h : window.Settled seq) (other : UInt64) (answer : α) :
    (window.record other answer).Settled seq :=
  h.imp id fun hkept ↦ ExtTreeMap.mem_insert.mpr (Or.inr hkept)

theorem above_empty : (empty : Window α).Above := by
  intro seq hmem
  exact absurd hmem ExtTreeMap.not_mem_empty

theorem Above.advance (h : window.Above) (ack : UInt64) : (window.advance ack).Above := by
  intro seq hmem
  have hsome := ExtTreeMap.mem_iff_isSome_getElem?.mp hmem
  rw [getElem?_advance] at hsome
  split_ifs at hsome with hdropped
  · cases hsome
  · have hfloor := h seq (ExtTreeMap.mem_iff_isSome_getElem?.mpr hsome)
    rw [advance_floor, ← UInt64.not_le, le_max_iff_u64]
    rintro (hle | hack)
    · exact UInt64.not_le.mpr hfloor hle
    · exact hdropped ⟨UInt64.lt_of_lt_of_le hfloor hack, hack⟩

/-- Only a request above the floor may leave an answer. -/
theorem above_record_iff (h : window.Above) :
    (window.record seq answer).Above ↔ window.floor < seq := by
  constructor
  · intro habove
    exact habove seq ExtTreeMap.mem_insert_self
  · intro hseq other hmem
    rcases ExtTreeMap.mem_insert.mp hmem with hsame | hkept
    · rw [← Std.compare_eq_iff_eq.mp hsame]
      exact hseq
    · exact h other hkept

end Window

end Kivi.Library.RetryWindow
