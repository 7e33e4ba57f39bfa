import Mathlib.Algebra.Order.Field.Basic
import Mathlib.Algebra.Order.Field.Rat
import Mathlib.Tactic.Linarith

/-!
# The drift allowance of roster leases

A grantee holds a lease of nominal length `L` for `L - A` ticks of its clock, and the grantor
excludes others for `L + A` ticks of its own, where `A` is `LeaseParams.allowance L`. A tick is a
microsecond, and deadlines count whole ticks. Clocks run at a rate between `1 - ρ` and `1 + ρ`.
The hold lies within the exclusion, and `A` is the least allowance with `L * ρ ≤ A * (1 - ρ)`, as
long as `A` fits in the word it is kept in (`allowance_sufficient_and_tight`).
-/

namespace Kivi.Consensus

/-- The longest duration. Durations are in nanoseconds. -/
def maxDuration : Nat := 2 ^ 64 * 10 ^ 9 - 1

def asMicros (duration : Nat) : Nat := duration / 1000

def fromMicros (micros : Nat) : Nat := micros * 1000

def driftPpmDenominator : Nat := 1000000

def maxDriftPpm : Nat := 100000

inductive LeaseParamReject where
  | zeroDuration
  | renewTooSlow
  | driftUntrusted
deriving DecidableEq

structure LeaseParams where
  guardDuration : Nat
  leaseDuration : Nat
  renewInterval : Nat
  maxDriftPpm : Nat

namespace LeaseParams

def saturateU128 (n : Nat) : Nat := min n (2 ^ 128 - 1)

def denom (params : LeaseParams) : Nat :=
  driftPpmDenominator - min params.maxDriftPpm (driftPpmDenominator - 1)

def allowance (params : LeaseParams) (duration : Nat) : Nat :=
  let product := saturateU128 (asMicros duration * params.maxDriftPpm)
  let add := saturateU128 (product + (params.denom - 1)) / params.denom
  fromMicros (min add (2 ^ 64 - 1))

/-- The panic where the sum of the renewal interval and the margin is no duration is `none`. -/
def validate (params : LeaseParams) : Option (Except LeaseParamReject Unit) :=
  if params.guardDuration = 0 ∨ params.leaseDuration = 0 ∨ params.renewInterval = 0 then
    some (.error .zeroDuration)
  else if Consensus.maxDriftPpm < params.maxDriftPpm then some (.error .driftUntrusted)
  else
    let margin := min (params.allowance params.leaseDuration * 2) maxDuration
    if maxDuration < params.renewInterval + margin then none
    else if params.leaseDuration ≤ params.renewInterval + margin then some (.error .renewTooSlow)
    else some (.ok ())

/-- The largest relative error of a clock's rate. -/
def drift (params : LeaseParams) : ℚ := params.maxDriftPpm / 1000000

variable {params : LeaseParams}

theorem denom_add (hdrift : params.maxDriftPpm ≤ Consensus.maxDriftPpm) :
    params.denom + params.maxDriftPpm = 1000000 := by
  simp only [denom, driftPpmDenominator, Consensus.maxDriftPpm] at hdrift ⊢
  omega

/-- The rounded-up quotient, where it fits its word. -/
theorem allowance_le_iff {duration : Nat} (hdrift : params.maxDriftPpm ≤ Consensus.maxDriftPpm)
    (hfits : asMicros duration * params.maxDriftPpm ≤ (2 ^ 64 - 1) * params.denom) (a : Nat) :
    asMicros (params.allowance duration) ≤ a ↔
      asMicros duration * params.maxDriftPpm ≤ a * params.denom := by
  have hdenom := denom_add hdrift
  have hppm : params.maxDriftPpm ≤ 100000 := hdrift
  set product := asMicros duration * params.maxDriftPpm
  have hround : ∀ a, (product + (params.denom - 1)) / params.denom ≤ a ↔
      product ≤ a * params.denom := by
    intro a
    rw [Nat.div_le_iff_le_mul_add_pred (by omega), Nat.mul_comm]
    omega
  have hwide : product + (params.denom - 1) ≤ 2 ^ 128 - 1 := by omega
  rw [allowance, asMicros, fromMicros, Nat.mul_div_cancel _ (by decide), saturateU128,
    saturateU128, min_eq_left (le_of_add_le_left hwide), min_eq_left hwide,
    min_eq_left ((hround _).mpr hfits)]
  exact hround a

theorem mul_drift_le_iff (hdrift : params.maxDriftPpm ≤ Consensus.maxDriftPpm) (length a : Nat) :
    length * params.drift ≤ a * (1 - params.drift) ↔
      length * params.maxDriftPpm ≤ a * params.denom := by
  have hdenom : (params.denom : ℚ) = 1000000 - params.maxDriftPpm :=
    eq_sub_of_add_eq (by exact_mod_cast denom_add hdrift)
  rw [← Nat.cast_le (α := ℚ), Nat.cast_mul, Nat.cast_mul, hdenom, drift, one_sub_div (by norm_num),
    mul_div_assoc', mul_div_assoc', div_le_div_iff_of_pos_right (by norm_num)]

/-- What a slow grantee holds lies within what a fast grantor excludes. -/
theorem hold_within_exclusion {ρ length headroom : ℚ} (hnonneg : 0 ≤ ρ) (hlt : ρ < 1)
    (hroom : 0 ≤ headroom) (h : length * ρ ≤ headroom * (1 - ρ)) :
    (length - headroom) / (1 - ρ) ≤ (length + headroom) / (1 + ρ) := by
  rw [div_le_div_iff₀ (by linarith) (by linarith)]
  have := mul_nonneg hroom hnonneg
  linarith

/-- Valid parameters leave more than half of a lease to hold. -/
theorem allowance_lt_of_validate (h : params.validate = some (.ok ())) :
    params.allowance params.leaseDuration * 2 < params.leaseDuration := by
  simp only [validate] at h
  split_ifs at h with _ _ _ hslow <;> cases h
  simp only [allowance, fromMicros, maxDuration] at hslow ⊢
  omega

/-- The hold of a lease lies within its exclusion, the allowance is the least that covers the
drift, and valid parameters leave some of the lease to hold: a tick at least, if the lease has
one. -/
theorem allowance_sufficient_and_tight (params : LeaseParams) :
    (∀ duration, params.maxDriftPpm ≤ Consensus.maxDriftPpm →
      asMicros duration * params.maxDriftPpm ≤ (2 ^ 64 - 1) * params.denom →
      ((asMicros duration : ℚ) - asMicros (params.allowance duration)) / (1 - params.drift) ≤
          (asMicros duration + asMicros (params.allowance duration)) / (1 + params.drift) ∧
        IsLeast {a : Nat | asMicros duration * params.drift ≤ a * (1 - params.drift)}
          (asMicros (params.allowance duration))) ∧
    (params.validate = some (.ok ()) →
      0 < params.leaseDuration - params.allowance params.leaseDuration ∧
        (0 < asMicros params.leaseDuration →
          0 < asMicros params.leaseDuration -
            asMicros (params.allowance params.leaseDuration))) := by
  refine ⟨fun duration hdrift hfits ↦ ?_, fun h ↦ ?_⟩
  · have hle := allowance_le_iff hdrift hfits
    have hcovers := (mul_drift_le_iff hdrift _ _).mpr ((hle _).mp le_rfl)
    have hppm : (params.maxDriftPpm : ℚ) ≤ 100000 := Nat.cast_le.mpr hdrift
    have hnonneg : 0 ≤ params.drift := div_nonneg (Nat.cast_nonneg _) (by norm_num)
    have hlt : params.drift < 1 := by
      rw [drift, div_lt_one (by norm_num)]
      linarith
    exact ⟨hold_within_exclusion hnonneg hlt (Nat.cast_nonneg _) hcovers, hcovers,
      fun a ha ↦ (hle a).mpr ((mul_drift_le_iff hdrift _ _).mp ha)⟩
  · have hlt := allowance_lt_of_validate h
    simp only [asMicros]
    omega

/-- The allowance of the longest lease is cut off, and that of a lease below one tick is zero. -/
theorem allowance_short_of_drift :
    ∃ params : LeaseParams, params.maxDriftPpm = Consensus.maxDriftPpm ∧
      ∀ duration ∈ [maxDuration, 999],
        asMicros duration * params.maxDriftPpm < 2 ^ 128 ∧
        (params.allowance duration : ℚ) * (1 - params.drift) < duration * params.drift ∧
        ((duration : ℚ) + params.allowance duration) / (1 + params.drift) <
          (duration - params.allowance duration) / (1 - params.drift) := by
  refine ⟨⟨1, 1, 1, 100000⟩, rfl, ?_⟩
  simp only [List.forall_mem_cons, List.not_mem_nil]
  norm_num [allowance, denom, drift, saturateU128, asMicros, fromMicros, maxDuration,
    driftPpmDenominator]

end LeaseParams

end Kivi.Consensus
