import Mathlib.Algebra.Order.Field.Power
import Mathlib.Tactic.IntervalCases
import Mathlib.Tactic.NormNum
import Mathlib.Tactic.Positivity
import RecordMerge.Backoff

/-! The length of a pause: at most one second, if there is a pause at all. -/

set_option autoImplicit false

namespace RecordMerge

open Number (Binary64)

/-- The number that a binary number denotes; the infinities and the not-a-number denote none. -/
def Number.Binary64.value? : Binary64 → Option ℚ
  | .finite negative biased fraction =>
    some ((if negative then -1 else 1) * Binary64.significand biased fraction *
      2 ^ Binary64.scale biased)
  | _ => none

namespace Backoff

/-- The pause takes some time, and at most a second. -/
def Short (seconds : Binary64) : Prop :=
  ∃ value, seconds.value? = some value ∧ 0 < value ∧ value ≤ 1

/-- Only what comes after the first thousand attempts has no pause. -/
theorem seconds?_eq_none_iff {attempt : Nat} (positive : 0 < attempt) :
    seconds? attempt = none ↔ 1024 < attempt := by
  constructor
  · intro none
    by_contra early
    have pause := seconds?_isSome (show (0 : Int) < attempt by omega) (by omega)
    rw [none] at pause
    cases pause
  · intro late
    have tooLarge : (1024 : Int) ≤ attempt - 1 := by omega
    simp [seconds?, tooLarge]

/-- A number with fifty-three binary places behind the point is below one. -/
theorem short_of_biased_lt {biased : Fin 2047} (fraction : Fin 4503599627370496)
    (normal : biased.val ≠ 0) (small : biased.val < 1023) :
    Short (.finite false biased fraction) := by
  have places : (2 : ℚ) ^ Binary64.scale biased ≤ 2 ^ (-53 : Int) := by
    refine zpow_le_zpow_right₀ (by norm_num) ?_
    rw [Binary64.scale, if_neg normal]
    omega
  have digits : (Binary64.significand biased fraction : ℚ) ≤ 2 ^ (53 : Int) := by
    have whole : Binary64.significand biased fraction ≤ 2 ^ 53 := by
      rw [Binary64.significand, if_neg normal]
      omega
    exact_mod_cast whole
  have nonzero : (0 : ℚ) < Binary64.significand biased fraction := by
    have whole : 0 < Binary64.significand biased fraction := by
      rw [Binary64.significand, if_neg normal]
      omega
    exact_mod_cast whole
  refine ⟨_, rfl, by simp only [Bool.false_eq_true, if_false, one_mul]; positivity, ?_⟩
  calc (1 : ℚ) * Binary64.significand biased fraction * 2 ^ Binary64.scale biased
      ≤ 1 * 2 ^ (53 : Int) * 2 ^ (-53 : Int) := by gcongr
    _ = 1 := by norm_num

theorem short_longest : Short longest := by
  have second : longest = .finite false 1023 0 := by decide +kernel
  have places : Binary64.scale 1023 = -52 := by decide
  have digits : Binary64.significand 1023 0 = 2 ^ 52 := by decide
  refine ⟨1, ?_, by norm_num, le_refl 1⟩
  rw [second, Binary64.value?, places, digits]
  norm_num

theorem short_of_seconds? {attempt : Nat} {seconds : Binary64} (positive : 0 < attempt)
    (pause : seconds? attempt = some seconds) : Short seconds := by
  have within : attempt ≤ 1024 := by
    by_contra late
    rw [(seconds?_eq_none_iff positive).mpr (by omega)] at pause
    cases pause
  by_cases late : 6 ≤ attempt
  · have notLarge : ¬ (1024 : Int) ≤ attempt - 1 := by omega
    have notSmall : ¬ (attempt : Int) - 1 ≤ -exponentLimit := by
      have : (0 : Int) < exponentLimit := by decide +kernel
      omega
    have long : (5 : Int) ≤ attempt - 1 := by omega
    simp only [seconds?, notLarge, notSmall, decide_false, Bool.or_false, Bool.false_eq_true,
      if_false, long, if_true, Option.some.injEq] at pause
    exact pause ▸ short_longest
  · -- The fraction of a twentieth stays, and the exponent goes up by one with each attempt.
    obtain ⟨fraction, biased, doubled, normal, small⟩ : ∃ fraction biased,
        seconds? attempt = some (.finite false biased fraction) ∧ biased.val ≠ 0 ∧
          biased.val < 1023 := by
      refine ⟨2702159776422298, Fin.ofNat _ (1017 + attempt), ?_⟩
      interval_cases attempt <;> exact ⟨by decide +kernel, by decide, by decide⟩
    rw [pause, Option.some.injEq] at doubled
    exact doubled ▸ short_of_biased_lt fraction normal small

end Backoff

end RecordMerge
