import Mathlib

/-!
# Scanning a file of frames

A scanner takes one frame after the other off the front of a file. At each place it finds a whole
frame, finds that the file ends inside one, or fails. `Scans` says what the scan of given bytes
comes to; a whole frame in front passes it on to the rest (`Scans.item`). If every frame in front
is either passed over or fails, and the rest fails, the scan fails (`scan_fails`); with nothing
but such frames it fails or comes to the end (`scan_passes`).
-/

namespace Kivi.Library.FramedScan

universe u v w x

variable {ε : Type u} {σ : Type v} {τ : Type w} {β : Type x}

/-- What stands at the front of the remaining bytes. -/
inductive Parsed (σ : Type v) (τ : Type w) where
  | item (state : σ) (length : Nat)
  | torn (reason : τ)

/-- How far a scan came, and why it stopped before the end if it did. -/
structure Scanned (σ : Type v) (τ : Type w) where
  state : σ
  kept : Nat
  torn : Option τ

variable (parse : σ → List β → Except ε (Parsed σ τ))

/-- At most `fuel` frames; the bytes are never more than that. -/
def scan : Nat → σ → Nat → List β → Except ε (Scanned σ τ)
  | 0, state, kept, _ => .ok ⟨state, kept, none⟩
  | fuel + 1, state, kept, bytes =>
    if bytes.isEmpty then .ok ⟨state, kept, none⟩
    else match parse state bytes with
      | .error error => .error error
      | .ok (.torn reason) => .ok ⟨state, kept, some reason⟩
      | .ok (.item next length) => scan fuel next (kept + length) (bytes.drop length)

/-- The scan of the bytes comes to `result`, with any fuel that is enough. -/
def Scans (state : σ) (kept : Nat) (bytes : List β) (result : Except ε (Scanned σ τ)) : Prop :=
  ∀ fuel, bytes.length ≤ fuel → scan parse fuel state kept bytes = result

variable {parse} {state next : σ} {kept : Nat} {bytes frame rest : List β}
  {result : Except ε (Scanned σ τ)}

theorem scans_nil (state : σ) (kept : Nat) :
    Scans parse state kept [] (.ok ⟨state, kept, none⟩) := by
  intro fuel _
  cases fuel with
  | zero => rfl
  | succ fuel => rfl

theorem scan_succ_of_ne_nil (fuel : Nat) (hne : bytes ≠ []) :
    scan parse (fuel + 1) state kept bytes = match parse state bytes with
      | .error error => .error error
      | .ok (.torn reason) => .ok ⟨state, kept, some reason⟩
      | .ok (.item next length) => scan parse fuel next (kept + length) (bytes.drop length) := by
  have hempty : ¬bytes.isEmpty = true := by simpa using hne
  rw [scan, if_neg hempty]

theorem exists_succ_of_ne_nil {fuel : Nat} (hne : bytes ≠ []) (hfuel : bytes.length ≤ fuel) :
    ∃ less, fuel = less + 1 := by
  have hpos := List.length_pos_of_ne_nil hne
  exact ⟨fuel - 1, by omega⟩

theorem scans_torn {reason : τ} (hne : bytes ≠ []) (h : parse state bytes = .ok (.torn reason)) :
    Scans parse state kept bytes (.ok ⟨state, kept, some reason⟩) := by
  intro fuel hfuel
  obtain ⟨less, rfl⟩ := exists_succ_of_ne_nil hne hfuel
  rw [scan_succ_of_ne_nil less hne, h]

theorem scans_error {error : ε} (hne : bytes ≠ []) (h : parse state bytes = .error error) :
    Scans parse state kept bytes (.error error) := by
  intro fuel hfuel
  obtain ⟨less, rfl⟩ := exists_succ_of_ne_nil hne hfuel
  rw [scan_succ_of_ne_nil less hne, h]

theorem Scans.item (hframe : frame ≠ [])
    (h : parse state (frame ++ rest) = .ok (.item next frame.length))
    (hrest : Scans parse next (kept + frame.length) rest result) :
    Scans parse state kept (frame ++ rest) result := by
  intro fuel hfuel
  have hne : frame ++ rest ≠ [] := by simp [hframe]
  have hpos := List.length_pos_of_ne_nil hframe
  rw [List.length_append] at hfuel
  obtain ⟨less, rfl⟩ : ∃ less, fuel = less + 1 := ⟨fuel - 1, by omega⟩
  rw [scan_succ_of_ne_nil less hne, h]
  dsimp only
  rw [List.drop_left]
  exact hrest less (by omega)

/-- Each of the frames fails or is passed over, whatever follows it. -/
def Passes (parse : σ → List β → Except ε (Parsed σ τ)) (frames : List (List β)) : Prop :=
  ∀ frame ∈ frames, frame ≠ [] ∧
    ∀ state rest, (∃ error, parse state (frame ++ rest) = .error error) ∨
      ∃ next, parse state (frame ++ rest) = .ok (.item next frame.length)

/-- A scan fails behind such frames if it fails on what follows them. -/
theorem scan_fails {front : List (List β)} (hfront : Passes parse front) (hne : rest ≠ [])
    (hrest : ∀ state, ∃ error, parse state rest = .error error) (state : σ) (kept : Nat) :
    ∃ error, Scans parse state kept (front.flatten ++ rest) (.error error) := by
  induction front generalizing state kept with
  | nil =>
    obtain ⟨error, herror⟩ := hrest state
    exact ⟨error, scans_error hne herror⟩
  | cons frame others ih =>
    obtain ⟨hframe, hpasses⟩ := hfront frame List.mem_cons_self
    have hothers := ih fun other hmem ↦ hfront other (List.mem_cons_of_mem _ hmem)
    rw [List.flatten_cons, List.append_assoc]
    rcases hpasses state (others.flatten ++ rest) with ⟨error, herror⟩ | ⟨next, hnext⟩
    · exact ⟨error, scans_error (by simp [hframe]) herror⟩
    · obtain ⟨error, herror⟩ := hothers next (kept + frame.length)
      exact ⟨error, herror.item hframe hnext⟩

/-- A scan of such frames fails or comes to the end. -/
theorem scan_passes {frames : List (List β)} (hframes : Passes parse frames) (state : σ)
    (kept : Nat) :
    (∃ error, Scans parse state kept frames.flatten (.error error)) ∨
      ∃ last total, Scans parse state kept frames.flatten (.ok ⟨last, total, none⟩) := by
  induction frames generalizing state kept with
  | nil => exact Or.inr ⟨state, kept, scans_nil state kept⟩
  | cons frame others ih =>
    obtain ⟨hframe, hpasses⟩ := hframes frame List.mem_cons_self
    have hothers := ih fun other hmem ↦ hframes other (List.mem_cons_of_mem _ hmem)
    rw [List.flatten_cons]
    rcases hpasses state others.flatten with ⟨error, herror⟩ | ⟨next, hnext⟩
    · exact Or.inl ⟨error, scans_error (by simp [hframe]) herror⟩
    · rcases hothers next (kept + frame.length) with ⟨error, herror⟩ | ⟨last, total, hlast⟩
      · exact Or.inl ⟨error, herror.item hframe hnext⟩
      · exact Or.inr ⟨last, total, hlast.item hframe hnext⟩

end Kivi.Library.FramedScan
