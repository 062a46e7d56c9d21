import Irip.Base.Sample
import Mathlib.Analysis.Real.Sqrt

/-!
# `Numeric.Statistics` — the statistics of a series that are made of its moments

Numbers are those of an ordered field with square roots, so that a zero has no sign and nothing is rounded.
-/

namespace Irip.Numeric.Statistics

open Moments

variable {K : Type*} [Field K] [LinearOrder K] [IsStrictOrderedRing K]

local instance two_atLeastTwo : Nat.AtLeastTwo 2 := ⟨Nat.le_refl 2⟩

/-! ## Statistics -/

def var (ddof : ℕ) (vals : List K) : K := powerSum 2 (deviations vals) / ((vals.length : K) - ddof)

def std (R : PosRoot K) (ddof : ℕ) (vals : List K) : K := R.root (var ddof vals)

/-- A statistic, or nothing, and the warnings so far. -/
abbrev Reported (K : Type*) := Option K × List String

def skewness (R : PosRoot K) (vals : List K) (warnings : List String) (n : ℕ) : Reported K :=
  if n < 3 then (none, warnings ++ ["insufficient_samples:skewness"])
  else
    let s := std R 1 vals
    if s = 0 then (none, warnings ++ ["undefined_for_constant_series:skewness"])
    else
      let centered := deviations vals
      let m3 := mean (centered.map (fun d => d ^ 3))
      (some (m3 / s ^ 3 * ((n : K) ^ 2 / ((n - 1) * (n - 2)))), warnings)

def kurtosis (vals : List K) (warnings : List String) (n : ℕ) : Reported K :=
  if n < 4 then (none, warnings ++ ["insufficient_samples:kurtosis"])
  else
    let m2 := var 0 vals
    if m2 = 0 then (none, warnings ++ ["undefined_for_constant_series:kurtosis"])
    else
      let centered := deviations vals
      let m4 := mean (centered.map (fun d => d ^ 4))
      let g2Biased := m4 / m2 ^ 2 - 3
      (some (((n : K) - 1) / ((n - 2) * (n - 3)) * ((n + 1) * g2Biased + 6)), warnings)

/-! ## Definitions -/

/-- `(n / ((n-1)*(n-2))) * sum(((x_i - mean)/s)^3)`, with the sample standard deviation. -/
def referenceSkewness (R : PosRoot K) (xs : List K) : K :=
  let n : K := xs.length
  n / ((n - 1) * (n - 2)) * powerSum 3 (xs.map (fun x => (x - mean xs) / std R 1 xs))

/-- The sample excess kurtosis that is not corrected: the fourth central moment over the square of the second. -/
def biasedKurtosis (xs : List K) : K :=
  mean ((deviations xs).map (fun d => d ^ 4)) / mean ((deviations xs).map (fun d => d ^ 2)) ^ 2 - 3

/-- `(n-1)/((n-2)(n-3)) * ((n+1)*g2 + 6)`. -/
def referenceKurtosis (xs : List K) : K :=
  let n : K := xs.length
  (n - 1) / ((n - 2) * (n - 3)) * ((n + 1) * biasedKurtosis xs + 6)

theorem mean_pow (k : ℕ) (xs : List K) : mean ((deviations xs).map (fun d => d ^ k)) = powerSum k (deviations xs) / xs.length := by
  simp [mean, powerSum]

theorem var_zero (xs : List K) : var 0 xs = mean ((deviations xs).map (fun d => d ^ 2)) := by
  rw [mean_pow, var, Nat.cast_zero, sub_zero]

theorem powerSum_standardized (k : ℕ) (s : K) (xs : List K) :
    powerSum k (xs.map (fun x => (x - mean xs) / s)) = powerSum k (deviations xs) / s ^ k := by
  have hscaled : xs.map (fun x => (x - mean xs) / s) = (deviations xs).map (fun d => s⁻¹ * d) := by
    rw [deviations, List.map_map]
    apply List.map_congr_left
    intro x _
    exact div_eq_inv_mul _ _
  rw [hscaled, powerSum_scale, inv_pow, div_eq_inv_mul]

section Counted

variable {xs : List K}

theorem var_nonneg {ddof : ℕ} (h : ddof ≤ xs.length) : 0 ≤ var ddof xs := by
  apply div_nonneg (powerSum_two_nonneg _)
  rw [sub_nonneg, Nat.cast_le]
  exact h

theorem var_pos {ddof : ℕ} (h : ddof < xs.length) (hspread : Spread xs) : 0 < var ddof xs := by
  apply div_pos (powerSum_two_pos hspread)
  rw [sub_pos, Nat.cast_lt]
  exact h

/-- With three values that are not all the same, the skewness is the documented one. -/
theorem skewness_eq (R : PosRoot K) (warnings : List String) (hlength : 3 ≤ xs.length) (hspread : Spread xs) :
    skewness R xs warnings xs.length = (some (referenceSkewness R xs), warnings) := by
  have hs : std R 1 xs ≠ 0 := (R.root_pos (var_pos (by omega) hspread)).ne'
  have hn : (xs.length : K) ≠ 0 := by
    rw [Nat.cast_ne_zero]
    omega
  unfold skewness
  rw [if_neg (by omega)]
  dsimp only
  rw [if_neg hs]
  unfold referenceSkewness
  dsimp only
  rw [powerSum_standardized, mean_pow]
  congr 2
  -- the mean divides by the count once, and the factor has it squared
  field_simp

/-- With four values that are not all the same, the kurtosis is the documented one. -/
theorem kurtosis_eq (warnings : List String) (hlength : 4 ≤ xs.length) (hspread : Spread xs) :
    kurtosis xs warnings xs.length = (some (referenceKurtosis xs), warnings) := by
  have hm2 : var 0 xs ≠ 0 := (var_pos (by omega) hspread).ne'
  unfold kurtosis
  rw [if_neg (by omega)]
  dsimp only
  rw [if_neg hm2, var_zero]
  rfl

end Counted

/-! ## Affine changes -/

theorem var_affine (ddof : ℕ) (a b : K) {xs : List K} (hne : xs ≠ []) :
    var ddof (xs.map (fun x => a * x + b)) = a ^ 2 * var ddof xs := by
  unfold var
  rw [deviations_affine a b hne, powerSum_scale, List.length_map, mul_div_assoc]

theorem mean_pow_affine (k : ℕ) (a b : K) {xs : List K} (hne : xs ≠ []) :
    mean ((deviations (xs.map (fun x => a * x + b))).map (fun d => d ^ k)) = a ^ k * mean ((deviations xs).map (fun d => d ^ k)) := by
  rw [mean_pow, mean_pow, deviations_affine a b hne, powerSum_scale, List.length_map, mul_div_assoc]

theorem pow_three_div_abs {a : K} (ha : a ≠ 0) : a ^ 3 / |a| ^ 3 = (SignType.sign a : K) := by
  rcases lt_or_gt_of_ne ha with hneg | hpos
  · rw [abs_of_neg hneg, sign_neg hneg]
    field_simp
    simp
  · rw [abs_of_pos hpos, sign_pos hpos, div_self (by positivity)]
    simp

/-- A change of scale and origin leaves the skewness as it is, up to the sign of the scale. -/
theorem skewness_affine (R : PosRoot K) {a : K} (ha : a ≠ 0) (b : K) (xs : List K) (warnings : List String) :
    skewness R (xs.map (fun x => a * x + b)) warnings xs.length =
      ((skewness R xs warnings xs.length).1.map (fun g => (SignType.sign a : K) * g),
        (skewness R xs warnings xs.length).2) := by
  unfold skewness
  by_cases hshort : xs.length < 3
  · rw [if_pos hshort, if_pos hshort, Option.map_none]
  · rw [if_neg hshort, if_neg hshort]
    have hne : xs ≠ [] := by
      rintro rfl
      exact hshort (Nat.zero_lt_succ _)
    have hstd : std R 1 (xs.map (fun x => a * x + b)) = |a| * std R 1 xs := by
      unfold std
      rw [var_affine 1 a b hne]
      exact R.root_mul_sq a (var_nonneg (by omega))
    dsimp only
    rw [hstd, mean_pow_affine 3 a b hne]
    by_cases hconst : std R 1 xs = 0
    · rw [if_pos hconst, if_pos (by rw [hconst, mul_zero]), Option.map_none]
    · rw [if_neg hconst, if_neg (mul_ne_zero (abs_ne_zero.mpr ha) hconst), Option.map_some]
      congr 2
      rw [← pow_three_div_abs ha, mul_pow, mul_div_mul_comm, mul_assoc]

theorem kurtosis_affine {a : K} (ha : a ≠ 0) (b : K) (xs : List K) (warnings : List String) :
    kurtosis (xs.map (fun x => a * x + b)) warnings xs.length = kurtosis xs warnings xs.length := by
  unfold kurtosis
  by_cases hshort : xs.length < 4
  · rw [if_pos hshort, if_pos hshort]
  · rw [if_neg hshort, if_neg hshort]
    have hne : xs ≠ [] := by
      rintro rfl
      exact hshort (Nat.zero_lt_succ _)
    dsimp only
    rw [var_affine 0 a b hne, mean_pow_affine 4 a b hne]
    have ha2 : a ^ 2 ≠ 0 := pow_ne_zero 2 ha
    by_cases hconst : var 0 xs = 0
    · rw [if_pos hconst, if_pos (by rw [hconst, mul_zero])]
    · rw [if_neg hconst, if_neg (mul_ne_zero ha2 hconst)]
      have hratio : a ^ 4 * mean ((deviations xs).map (fun d => d ^ 4)) / (a ^ 2 * var 0 xs) ^ 2 =
          mean ((deviations xs).map (fun d => d ^ 4)) / var 0 xs ^ 2 := by
        rw [mul_pow, ← pow_mul, mul_div_mul_left _ _ (pow_ne_zero _ ha)]
      rw [hratio]

/-! ## Result -/

/-- What the skewness and the kurtosis of a list are, and how they change with it. -/
structure MomentLaws (R : PosRoot K) (xs : List K) : Prop where
  skewness : 3 ≤ xs.length → skewness R xs [] xs.length = (some (referenceSkewness R xs), [])
  kurtosis : 4 ≤ xs.length → kurtosis xs [] xs.length = (some (referenceKurtosis xs), [])
  skewness_shift : ∀ c, Statistics.skewness R (xs.map (fun x => x + c)) [] xs.length = Statistics.skewness R xs [] xs.length
  kurtosis_shift : ∀ c, Statistics.kurtosis (xs.map (fun x => x + c)) [] xs.length = Statistics.kurtosis xs [] xs.length
  skewness_scale : ∀ c, 0 < c →
    Statistics.skewness R (xs.map (fun x => c * x)) [] xs.length = Statistics.skewness R xs [] xs.length
  kurtosis_scale : ∀ c, 0 < c → Statistics.kurtosis (xs.map (fun x => c * x)) [] xs.length = Statistics.kurtosis xs [] xs.length
  skewness_neg : (Statistics.skewness R (xs.map (fun x => -x)) [] xs.length).1 =
    (Statistics.skewness R xs [] xs.length).1.map (fun g => -g)
  kurtosis_neg : Statistics.kurtosis (xs.map (fun x => -x)) [] xs.length = Statistics.kurtosis xs [] xs.length

/-- **The skewness and the kurtosis of values that are not all the same** are those of their documented formulas; a shift and a
positive scale leave them as they are, and a change of sign is one of the skewness alone. -/
theorem moments_exact (R : PosRoot K) (xs : List K) (hspread : Spread xs) : MomentLaws R xs := by
  have hshift : ∀ c : K, xs.map (fun x => x + c) = xs.map (fun x => 1 * x + c) := by
    intro c
    simp
  have hscale : ∀ c : K, xs.map (fun x => c * x) = xs.map (fun x => c * x + 0) := by
    intro c
    simp
  have hneg : xs.map (fun x => -x) = xs.map (fun x => -1 * x + 0) := by simp
  have hone : (SignType.sign (1 : K) : K) = 1 := by simp
  have hminus : (SignType.sign (-1 : K) : K) = -1 := by simp
  constructor
  · intro hlength
    exact skewness_eq R [] hlength hspread
  · intro hlength
    exact kurtosis_eq [] hlength hspread
  · intro c
    rw [hshift, skewness_affine R one_ne_zero c, hone]
    simp
  · intro c
    rw [hshift]
    exact kurtosis_affine one_ne_zero c xs []
  · intro c hc
    rw [hscale, skewness_affine R hc.ne' 0, sign_pos hc]
    simp
  · intro c hc
    rw [hscale]
    exact kurtosis_affine hc.ne' 0 xs []
  · rw [hneg, skewness_affine R (neg_ne_zero.mpr one_ne_zero) 0, hminus]
    simp
  · rw [hneg]
    exact kurtosis_affine (neg_ne_zero.mpr one_ne_zero) 0 xs []

/-- The square root of the reals. -/
noncomputable def realRoot : PosRoot ℝ := ⟨Real.sqrt, fun x _ => Real.sqrt_nonneg x, fun _ hx => Real.sq_sqrt hx⟩

theorem moments_exact_real : MomentLaws realRoot [1, 2, 4, 9] :=
  moments_exact realRoot [1, 2, 4, 9] ⟨1, by simp, 2, by simp, by norm_num⟩

end Irip.Numeric.Statistics
