import Irip.Base.Sample
import Mathlib.Algebra.Order.Field.Rat
import Mathlib.Data.Nat.Digits.Defs

/-!
# `Provenance.RobustEstimator` — the executor that estimates a parameter by the median of what is not an outlier

Numbers are those of an ordered field, so that `float` and `Decimal` are read without rounding. The confidence comes of
resampling and is an argument here.
-/

namespace Irip.Provenance.RobustEstimator

open Median

/-! ## Outputs -/

structure ParameterCandidateOutput (K : Type*) where
  variableCode : String
  value : K
  unit : Option String
  confidence : K
  exclusionReasons : List String

/-- The parameters, with their defaults. -/
structure Parameters (K : Type*) [Field K] where
  outlierMethod : String := "mad"
  threshold : K := 7 / 2
  bootstrapSamples : ℤ := 1000
  randomSeed : ℤ := 42

/-- The texts of numbers in messages: `str(x)`, and with four decimals. -/
structure Format (K : Type*) where
  str : K → String
  fixed4 : K → String

variable {K : Type*} [Field K] [LinearOrder K]

local instance two_atLeastTwo : Nat.AtLeastTwo 2 := ⟨Nat.le_refl 2⟩

local instance three_atLeastTwo : Nat.AtLeastTwo 3 := ⟨Nat.le_succ 2⟩

/-! ## Outliers -/

/-- The beginning of a reason: `value_{i}=`. -/
def label (i : ℕ) : String := "value_" ++ toString i ++ "="

/-- The reasons for the values that are excluded, from a position on, and the values that are not. -/
def splitBy (outlier : K → Bool) (reason : ℕ → K → String) (i : ℕ) : List K → List String × List K
  | [] => ([], [])
  | v :: vs =>
    let (reasons, kept) := splitBy outlier reason (i + 1) vs
    if outlier v then (reason i v :: reasons, kept) else (reasons, v :: kept)

/-- The bounds of the quartiles, or of half the median for a few values. -/
def iqrBounds (values : List K) : K × K :=
  let n := values.length
  if 4 ≤ n then
    let q1 := (sorted values).getD (n / 4) 0
    let q3 := (sorted values).getD (3 * n / 4) 0
    let iqr := q3 - q1
    (q1 - 3 / 2 * iqr, q3 + 3 / 2 * iqr)
  else (median values - |median values| * (1 / 2), median values + |median values| * (1 / 2))

def iqrOutlier (values : List K) (v : K) : Bool :=
  v < (iqrBounds values).1 || (iqrBounds values).2 < v

def iqrReason (fmt : Format K) (values : List K) (i : ℕ) (v : K) : String :=
  label i ++ (fmt.str v ++ " 超出 IQR 范围 [" ++ fmt.fixed4 (iqrBounds values).1 ++ ", " ++
    fmt.fixed4 (iqrBounds values).2 ++ "]")

/-- `abs(v - median_value) > threshold * mad`. -/
def madOutlier (threshold : K) (values : List K) (v : K) : Bool :=
  threshold * medianDeviation values < |v - median values|

def madReason (fmt : Format K) (threshold : K) (values : List K) (i : ℕ) (v : K) : String :=
  label i ++ (fmt.str v ++ " 偏离中位数 " ++ fmt.fixed4 |v - median values| ++ " > " ++
    fmt.str threshold ++ " * MAD=" ++ fmt.fixed4 (medianDeviation values))

/-- `exclusion_reasons` and `non_outlier_values`. -/
def split (fmt : Format K) (p : Parameters K) (values : List K) : List String × List K :=
  if p.outlierMethod = "iqr" then splitBy (iqrOutlier values) (iqrReason fmt values) 0 values
  else if 0 < medianDeviation values then
    splitBy (madOutlier p.threshold values) (madReason fmt p.threshold values) 0 values
  -- a deviation of zero is taken to mean that all values are the same
  else ([], values)

def pointEstimate (values kept : List K) : K :=
  if kept ≠ [] ∧ kept.length < values.length then median kept else median values

/-- `RobustParameterEstimator.execute`. `bootstrap` gives the confidence from the sampled values, the number of samples, the
seed and the estimate. -/
def execute (fmt : Format K) (bootstrap : List K → ℤ → ℤ → K → K) (values : List K) (p : Parameters K) :
    ParameterCandidateOutput K :=
  if values = [] then
    { variableCode := "estimated_value", value := 0, unit := none, confidence := 0, exclusionReasons := [] }
  else
    let (reasons, kept) := split fmt p values
    let estimate := pointEstimate values kept
    let sample := if kept = [] then values else kept
    { variableCode := "estimated_value"
      value := estimate
      unit := none
      confidence := bootstrap sample p.bootstrapSamples p.randomSeed estimate
      exclusionReasons := reasons }

/-! ## Reports -/

/-- A value is reported as excluded: a reason names its position. -/
def Reports (output : ParameterCandidateOutput K) (i : ℕ) : Prop :=
  ∃ reason ∈ output.exclusionReasons, (label i).toList <+: reason.toList

instance instDecidableReports (output : ParameterCandidateOutput K) (i : ℕ) : Decidable (Reports output i) :=
  inferInstanceAs (Decidable (∃ reason ∈ output.exclusionReasons, (label i).toList <+: reason.toList))

/-- The values at the positions that are reported. -/
def excludedValues (output : ParameterCandidateOutput K) (values : List K) : List K :=
  (values.zipIdx.filter (fun q => Reports output q.2)).map Prod.fst

omit [Field K] [LinearOrder K] in
theorem kept_splitBy (outlier : K → Bool) (reason : ℕ → K → String) (i : ℕ) (values : List K) :
    (splitBy outlier reason i values).2 = values.filter (fun v => !outlier v) := by
  induction values generalizing i with
  | nil => rfl
  | cons v vs ih =>
    rw [splitBy, List.filter_cons]
    cases hv : outlier v with
    | true => simp [ih]
    | false => simp [ih]

omit [Field K] [LinearOrder K] in
theorem mem_reasons_splitBy {outlier : K → Bool} {reason : ℕ → K → String} {i : ℕ} {values : List K} {text : String} :
    text ∈ (splitBy outlier reason i values).1 ↔
      ∃ j v, values[j]? = some v ∧ outlier v = true ∧ text = reason (i + j) v := by
  induction values generalizing i with
  | nil => simp [splitBy]
  | cons w ws ih =>
    have hrest : text ∈ (splitBy outlier reason (i + 1) ws).1 ↔
        ∃ j v, (w :: ws)[j + 1]? = some v ∧ outlier v = true ∧ text = reason (i + (j + 1)) v := by
      rw [ih]
      simp only [List.getElem?_cons_succ, show ∀ j, i + 1 + j = i + (j + 1) by intro j; omega]
    have hsplit : (∃ j v, (w :: ws)[j]? = some v ∧ outlier v = true ∧ text = reason (i + j) v) ↔
        (outlier w = true ∧ text = reason i w) ∨ text ∈ (splitBy outlier reason (i + 1) ws).1 := by
      rw [hrest]
      constructor
      · rintro ⟨j, v, hget, hv, htext⟩
        cases j with
        | zero =>
          obtain rfl : w = v := by simpa using hget
          exact .inl ⟨hv, htext⟩
        | succ j => exact .inr ⟨j, v, hget, hv, htext⟩
      · rintro (⟨hw, htext⟩ | ⟨j, v, hget, hv, htext⟩)
        · exact ⟨0, w, rfl, hw, htext⟩
        · exact ⟨j + 1, v, hget, hv, htext⟩
    rw [hsplit, splitBy]
    dsimp only
    by_cases hw : outlier w = true
    · rw [if_pos hw, List.mem_cons]
      simp only [hw, true_and]
    · rw [if_neg hw]
      simp only [hw, Bool.false_eq_true, false_and, false_or]

theorem position_inj {i j : ℕ} {rest : List Char}
    (h : (label i).toList <+: (label j).toList ++ rest) : i = j := by
  have htake : ∀ (n : ℕ) (r : List Char), (Nat.toDigits 10 n ++ '=' :: r).takeWhile Char.isDigit = Nat.toDigits 10 n := by
    intro n r
    rw [List.takeWhile_append_of_pos (fun c hc => Nat.isDigit_of_mem_toDigits (by decide) (by decide) hc),
      List.takeWhile_cons_of_neg (by decide), List.append_nil]
  have htoList : ∀ n : ℕ, (label n).toList = "value_".toList ++ (Nat.toDigits 10 n ++ ['=']) := by
    intro n
    rw [label, String.toList_append, String.toList_append, List.append_assoc, Nat.toString_eq_repr, Nat.toList_repr]
    rfl
  obtain ⟨more, hmore⟩ := h
  simp only [htoList, List.append_assoc, List.append_cancel_left_eq, List.singleton_append] at hmore
  have hdigits : Nat.toDigits 10 i = Nat.toDigits 10 j := by
    rw [← htake i more, hmore, htake]
  rw [← Nat.ofDigitChars_ten_toDigits (n := i), hdigits, Nat.ofDigitChars_ten_toDigits]

section Mad

variable {fmt : Format K} {bootstrap : List K → ℤ → ℤ → K → K} {p : Parameters K} {values : List K}

/-- The values that `execute` takes for outliers: none where the median deviation is zero. -/
def Outlier (threshold : K) (values : List K) (v : K) : Prop :=
  0 < medianDeviation values ∧ threshold * medianDeviation values < |v - median values|

instance instDecidablePredOutlier (threshold : K) (values : List K) : DecidablePred (Outlier threshold values) := fun v =>
  inferInstanceAs (Decidable (0 < medianDeviation values ∧ threshold * medianDeviation values < |v - median values|))

theorem kept_split (hmethod : p.outlierMethod ≠ "iqr") :
    (split fmt p values).2 = values.filter (fun v => ¬ Outlier p.threshold values v) := by
  unfold split
  rw [if_neg hmethod]
  by_cases hmad : 0 < medianDeviation values
  · rw [if_pos hmad, kept_splitBy]
    apply List.filter_congr
    intro v _
    simp only [Outlier, madOutlier, hmad, true_and, decide_not]
  · rw [if_neg hmad]
    symm
    rw [List.filter_eq_self]
    intro v _
    exact decide_eq_true (fun h => hmad h.1)

theorem mem_reasons_split (hmethod : p.outlierMethod ≠ "iqr") {text : String} :
    text ∈ (split fmt p values).1 ↔
      ∃ j v, values[j]? = some v ∧ Outlier p.threshold values v ∧ text = madReason fmt p.threshold values j v := by
  unfold split
  rw [if_neg hmethod]
  by_cases hmad : 0 < medianDeviation values
  · rw [if_pos hmad, mem_reasons_splitBy]
    simp only [Nat.zero_add, Outlier, madOutlier, hmad, true_and, decide_eq_true_eq]
  · rw [if_neg hmad]
    constructor
    · intro h
      exact absurd h List.not_mem_nil
    · rintro ⟨_, _, _, h, _⟩
      exact absurd h.1 hmad

/-- **The positions that are reported** are those of the outliers. -/
theorem reports_iff (hmethod : p.outlierMethod ≠ "iqr") (hne : values ≠ []) (i : ℕ) :
    Reports (execute fmt bootstrap values p) i ↔ ∃ v, values[i]? = some v ∧ Outlier p.threshold values v := by
  have hreasons : (execute fmt bootstrap values p).exclusionReasons = (split fmt p values).1 := by
    unfold execute
    rw [if_neg hne]
  unfold Reports
  rw [hreasons]
  constructor
  · rintro ⟨text, htext, hfirst⟩
    obtain ⟨j, v, hget, hv, rfl⟩ := (mem_reasons_split hmethod).mp htext
    unfold madReason at hfirst
    rw [String.toList_append] at hfirst
    obtain rfl := position_inj hfirst
    exact ⟨v, hget, hv⟩
  · rintro ⟨v, hget, hv⟩
    refine ⟨madReason fmt p.threshold values i v, (mem_reasons_split hmethod).mpr ⟨i, v, hget, hv, rfl⟩, ?_⟩
    unfold madReason
    rw [String.toList_append]
    exact List.prefix_append _ _

theorem excludedValues_execute (hmethod : p.outlierMethod ≠ "iqr") (hne : values ≠ []) :
    excludedValues (execute fmt bootstrap values p) values = values.filter (fun v => Outlier p.threshold values v) := by
  have hpositions : values.zipIdx.filter (fun q => Reports (execute fmt bootstrap values p) q.2) =
      values.zipIdx.filter ((fun v => decide (Outlier p.threshold values v)) ∘ Prod.fst) := by
    apply List.filter_congr
    rintro ⟨v, i⟩ hq
    have hget : values[i]? = some v := List.mem_zipIdx_iff_getElem?.mp hq
    show decide (Reports _ i) = decide (Outlier p.threshold values v)
    rw [decide_eq_decide, reports_iff hmethod hne, hget]
    simp
  rw [excludedValues, hpositions, ← List.filter_map, List.zipIdx_map_fst]

theorem value_execute (hmethod : p.outlierMethod ≠ "iqr") (hne : values ≠ []) :
    (execute fmt bootstrap values p).value =
      pointEstimate values (values.filter (fun v => ¬ Outlier p.threshold values v)) := by
  unfold execute
  rw [if_neg hne, ← @kept_split _ _ _ fmt _ _ hmethod]

theorem pointEstimate_filter (q : K → Bool) :
    pointEstimate values (values.filter q) = median (if values.filter q = [] then values else values.filter q) := by
  unfold pointEstimate
  by_cases hnil : values.filter q = []
  · rw [if_neg (fun h => h.1 hnil), if_pos hnil]
  · rw [if_neg hnil]
    by_cases hlt : (values.filter q).length < values.length
    · rw [if_pos ⟨hnil, hlt⟩]
    · rw [if_neg (fun h => hlt h.2)]
      have hle := List.length_filter_le q values
      rw [List.filter_sublist.eq_of_length (by omega)]

end Mad

/-! ## Changes of the input -/

theorem outlier_perm {threshold v : K} {xs ys : List K} (h : xs.Perm ys) :
    Outlier threshold xs v ↔ Outlier threshold ys v := by
  unfold Outlier
  rw [medianDeviation_perm h, median_perm h]

section Changes

variable [IsStrictOrderedRing K] {fmt : Format K} {bootstrap : List K → ℤ → ℤ → K → K} {p : Parameters K} {values : List K}

theorem outlier_affine {a : K} (ha : 0 < a) (b threshold v : K) (hne : values ≠ []) :
    Outlier threshold (values.map (fun x => a * x + b)) (a * v + b) ↔ Outlier threshold values v := by
  unfold Outlier
  rw [medianDeviation_affine ha b hne, abs_sub_median_affine ha b hne, mul_pos_iff_of_pos_left ha, mul_left_comm,
    mul_lt_mul_iff_right₀ ha]

theorem filter_outlier_affine {a : K} (ha : 0 < a) (b threshold : K) (hne : values ≠ []) :
    (values.map (fun x => a * x + b)).filter (fun v => ¬ Outlier threshold (values.map (fun x => a * x + b)) v) =
      (values.filter (fun v => ¬ Outlier threshold values v)).map (fun x => a * x + b) := by
  rw [List.filter_map]
  congr 1
  apply List.filter_congr
  intro v _
  show decide (¬ Outlier threshold (values.map (fun x => a * x + b)) (a * v + b)) = _
  rw [decide_eq_decide, outlier_affine ha b threshold v hne]

theorem median_kept_affine {a : K} (ha : 0 < a) (b : K) {kept : List K} (hne : values ≠ []) :
    median (if kept.map (fun x => a * x + b) = [] then values.map (fun x => a * x + b) else kept.map (fun x => a * x + b)) =
      a * median (if kept = [] then values else kept) + b := by
  by_cases hnil : kept = []
  · rw [if_pos hnil, if_pos (by rw [hnil, List.map_nil]), median_affine ha b hne]
  · rw [if_neg hnil, if_neg (by rwa [List.map_eq_nil_iff]), median_affine ha b hnil]

/-! ## Result -/

/-- The definition of the robust estimate: what is reported, what is kept, the estimate, and how they change with the input. -/
structure FollowsDefinition (fmt : Format K) (bootstrap : List K → ℤ → ℤ → K → K) (p : Parameters K) (values : List K) : Prop where
  reported : ∀ i v, values[i]? = some v → (Reports (execute fmt bootstrap values p) i ↔
    p.threshold * medianDeviation values < |v - median values|)
  positions : ∀ i, Reports (execute fmt bootstrap values p) i → i < values.length
  partition : (excludedValues (execute fmt bootstrap values p) values ++ (split fmt p values).2).Perm values
  estimate : (execute fmt bootstrap values p).value =
    median (if (split fmt p values).2 = [] then values else (split fmt p values).2)
  perm : ∀ ys, values.Perm ys → (execute fmt bootstrap ys p).value = (execute fmt bootstrap values p).value ∧
    (excludedValues (execute fmt bootstrap ys p) ys).Perm (excludedValues (execute fmt bootstrap values p) values)
  affine : ∀ a b, 0 < a →
    (execute fmt bootstrap (values.map (fun x => a * x + b)) p).value = a * (execute fmt bootstrap values p).value + b ∧
    ∀ i, Reports (execute fmt bootstrap (values.map (fun x => a * x + b)) p) i ↔ Reports (execute fmt bootstrap values p) i

omit [IsStrictOrderedRing K] in
theorem execute_perm (hmethod : p.outlierMethod ≠ "iqr") (hne : values ≠ []) {ys : List K} (h : values.Perm ys) :
    (execute fmt bootstrap ys p).value = (execute fmt bootstrap values p).value ∧
    (excludedValues (execute fmt bootstrap ys p) ys).Perm (excludedValues (execute fmt bootstrap values p) values) := by
  have hne' : ys ≠ [] := by
    rintro rfl
    exact hne h.eq_nil
  have hsame : (fun v => decide (Outlier p.threshold ys v)) = fun v => decide (Outlier p.threshold values v) := by
    funext v
    rw [decide_eq_decide, outlier_perm h]
  have hkept : (ys.filter (fun v => ¬ Outlier p.threshold ys v)).Perm
      (values.filter (fun v => ¬ Outlier p.threshold values v)) := by
    have hfun : (fun v => decide (¬ Outlier p.threshold ys v)) = fun v => decide (¬ Outlier p.threshold values v) := by
      funext v
      rw [decide_eq_decide, outlier_perm h]
    rw [hfun]
    exact h.symm.filter _
  constructor
  · rw [value_execute hmethod hne', value_execute hmethod hne, pointEstimate_filter, pointEstimate_filter]
    apply median_perm
    by_cases hnil : values.filter (fun v => ¬ Outlier p.threshold values v) = []
    · rw [if_pos hnil, if_pos (by rw [hnil] at hkept; exact hkept.eq_nil)]
      exact h.symm
    · rw [if_neg hnil, if_neg (fun h0 => hnil (by rw [h0] at hkept; exact hkept.symm.eq_nil))]
      exact hkept
  · rw [excludedValues_execute hmethod hne', excludedValues_execute hmethod hne, hsame]
    exact h.symm.filter _

theorem execute_affine (hmethod : p.outlierMethod ≠ "iqr") (hne : values ≠ []) {a : K} (ha : 0 < a) (b : K) :
    (execute fmt bootstrap (values.map (fun x => a * x + b)) p).value = a * (execute fmt bootstrap values p).value + b ∧
    ∀ i, Reports (execute fmt bootstrap (values.map (fun x => a * x + b)) p) i ↔ Reports (execute fmt bootstrap values p) i := by
  have hne' : values.map (fun x => a * x + b) ≠ [] := by simpa using hne
  constructor
  · rw [value_execute hmethod hne', value_execute hmethod hne, pointEstimate_filter, pointEstimate_filter,
      filter_outlier_affine ha b p.threshold hne, median_kept_affine ha b hne]
  · intro i
    rw [reports_iff hmethod hne', reports_iff hmethod hne, List.getElem?_map]
    cases hget : values[i]? with
    | none => simp
    | some v => simp [outlier_affine ha b p.threshold v hne]

theorem not_follows_of_majority (hmethod : p.outlierMethod ≠ "iqr") (hne : values ≠ []) {m v : K}
    (hm : values.length < 2 * values.count m) (hv : v ∈ values) (hvm : v ≠ m) :
    ¬ FollowsDefinition fmt bootstrap p values := by
  intro h
  have hzero : medianDeviation values = 0 := (medianDeviation_eq_zero_iff hne).mpr ⟨m, hm⟩
  obtain ⟨i, hi, hget⟩ := List.getElem_of_mem hv
  have hfar : p.threshold * medianDeviation values < |v - median values| := by
    rw [hzero, mul_zero, median_of_majority hm, abs_pos, sub_ne_zero]
    exact hvm
  have hreport := (h.reported i v (by rw [List.getElem?_eq_getElem hi, hget])).mpr hfar
  obtain ⟨_, _, hout⟩ := (reports_iff hmethod hne i).mp hreport
  exact hout.1.ne' hzero

/-- **The estimator follows its definition** exactly where no number fills more than half of the list, and where all numbers are
the same. -/
theorem follows_iff (hmad : p.outlierMethod = "mad") (hne : values ≠ []) :
    FollowsDefinition fmt bootstrap p values ↔ ∀ m, values.length < 2 * values.count m → ∀ v ∈ values, v = m := by
  have hmethod : p.outlierMethod ≠ "iqr" := by rw [hmad]; decide
  constructor
  · intro h m hm v hv
    by_contra hvm
    exact not_follows_of_majority hmethod hne hm hv hvm h
  · intro h
    have hout : ∀ v ∈ values, (Outlier p.threshold values v ↔ p.threshold * medianDeviation values < |v - median values|) := by
      intro v hv
      constructor
      · exact And.right
      · intro hfar
        refine ⟨lt_of_le_of_ne (medianDeviation_nonneg values) (fun h0 => ?_), hfar⟩
        -- a deviation of zero comes of a majority, and then there is nothing but it
        obtain ⟨m, hm⟩ := (medianDeviation_eq_zero_iff hne).mp h0.symm
        rw [← h0, mul_zero, median_of_majority hm, h m hm v hv, sub_self, abs_zero] at hfar
        exact lt_irrefl _ hfar
    constructor
    · intro i v hget
      rw [reports_iff hmethod hne, hget, ← hout v (List.mem_of_getElem? hget)]
      simp
    · intro i hi
      obtain ⟨v, hget, _⟩ := (reports_iff hmethod hne i).mp hi
      exact (List.getElem?_eq_some_iff.mp hget).1
    · rw [excludedValues_execute hmethod hne, kept_split hmethod]
      simp only [decide_not]
      exact List.filter_append_perm _ values
    · rw [value_execute hmethod hne, kept_split hmethod, pointEstimate_filter]
    · intro ys hys
      exact execute_perm hmethod hne hys
    · intro a b ha
      exact execute_affine hmethod hne ha b

end Changes

/-- The texts of whole numbers. -/
def wholeFormat : Format ℚ := ⟨fun q => toString q.num ++ ".0", fun q => toString q.num ++ ".0000"⟩

theorem follows_iff_outlier :
    FollowsDefinition wholeFormat (fun _ _ _ _ => 0) { threshold := 3, bootstrapSamples := 0 } [1, 2, 3, 4, 100] ↔
      ∀ m : ℚ, 5 < 2 * [1, 2, 3, 4, 100].count m → ∀ v ∈ [1, 2, 3, 4, (100 : ℚ)], v = m :=
  follows_iff rfl (by simp)

/-- Of four ones and a hundred, the hundred is not reported. -/
theorem not_follows_hundred :
    ¬ FollowsDefinition wholeFormat (fun _ _ _ _ => 0) { threshold := 3, bootstrapSamples := 0 } [1, 1, 1, 1, 100] :=
  not_follows_of_majority (by decide) (by simp) (m := 1) (v := 100) (by decide +kernel) (by simp) (by norm_num)

end Irip.Provenance.RobustEstimator
