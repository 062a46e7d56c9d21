import Mathlib.Algebra.BigOperators.Group.List.Basic
import Mathlib.Algebra.BigOperators.Ring.List
import Mathlib.Algebra.Order.Field.Basic
import Mathlib.Data.List.Count
import Mathlib.Data.List.GetD
import Mathlib.Data.List.Sort
import Mathlib.Data.Sign.Basic
import Mathlib.Tactic.FieldSimp
import Mathlib.Tactic.Linarith
import Mathlib.Tactic.Positivity
import Mathlib.Tactic.Ring

/-!
# `Base.Sample` — means, deviations, moments and medians of a list of numbers

What a change of scale and origin does to them, and when a number that fills more than half of the list is its median.
-/

namespace Moments

/-! ## Sums -/

section Sums

variable {K : Type*} [Field K]

def mean (xs : List K) : K := xs.sum / xs.length

def deviations (xs : List K) : List K := xs.map (fun x => x - mean xs)

def powerSum (k : ℕ) (ds : List K) : K := (ds.map (fun d => d ^ k)).sum

@[simp] theorem length_deviations (xs : List K) : (deviations xs).length = xs.length := by
  simp [deviations]

/-! ## Affine changes -/

theorem sum_affine (a b : K) (xs : List K) : (xs.map (fun x => a * x + b)).sum = a * xs.sum + xs.length * b := by
  induction xs with
  | nil => simp
  | cons x xs ih =>
    rw [List.map_cons, List.sum_cons, ih, List.sum_cons, List.length_cons]
    push_cast
    ring

theorem mean_affine [CharZero K] (a b : K) {xs : List K} (hne : xs ≠ []) :
    mean (xs.map (fun x => a * x + b)) = a * mean xs + b := by
  have hlength : (xs.length : K) ≠ 0 := by
    rw [Nat.cast_ne_zero]
    exact List.length_pos_iff.mpr hne |>.ne'
  unfold mean
  rw [sum_affine, List.length_map]
  field_simp

theorem deviations_affine [CharZero K] (a b : K) {xs : List K} (hne : xs ≠ []) :
    deviations (xs.map (fun x => a * x + b)) = (deviations xs).map (fun d => a * d) := by
  unfold deviations
  rw [mean_affine a b hne, List.map_map, List.map_map]
  apply List.map_congr_left
  intro x _
  show a * x + b - (a * mean xs + b) = a * (x - mean xs)
  ring

theorem powerSum_scale (k : ℕ) (a : K) (ds : List K) : powerSum k (ds.map (fun d => a * d)) = a ^ k * powerSum k ds := by
  unfold powerSum
  rw [List.map_map, ← List.sum_map_mul_left]
  congr 1
  apply List.map_congr_left
  intro d _
  show (a * d) ^ k = a ^ k * d ^ k
  exact mul_pow a d k

end Sums

/-! ## Spread -/

section Spread

variable {K : Type*} [Field K] [LinearOrder K] [IsStrictOrderedRing K]

theorem powerSum_two_nonneg (ds : List K) : 0 ≤ powerSum 2 ds := by
  apply List.sum_nonneg
  intro y hy
  obtain ⟨d, _, rfl⟩ := List.mem_map.mp hy
  exact sq_nonneg d

theorem powerSum_two_eq_zero {ds : List K} (h : powerSum 2 ds = 0) : ∀ d ∈ ds, d = 0 := by
  induction ds with
  | nil => intro d hd; exact absurd hd List.not_mem_nil
  | cons e ds ih =>
    have hsplit : e ^ 2 + powerSum 2 ds = 0 := h
    have htail := powerSum_two_nonneg ds
    have he : e ^ 2 = 0 := le_antisymm (by linarith) (sq_nonneg e)
    intro d hd
    rcases List.mem_cons.mp hd with rfl | hd
    · exact pow_eq_zero_iff two_ne_zero |>.mp he
    · exact ih (by linarith) d hd

/-- Two numbers of the list differ. -/
def Spread (xs : List K) : Prop := ∃ x ∈ xs, ∃ y ∈ xs, x ≠ y

theorem powerSum_two_pos {xs : List K} (h : Spread xs) : 0 < powerSum 2 (deviations xs) := by
  obtain ⟨x, hx, y, hy, hne⟩ := h
  refine lt_of_le_of_ne (powerSum_two_nonneg _) (fun h0 => hne ?_)
  have hall := powerSum_two_eq_zero h0.symm
  have hmean : ∀ z ∈ xs, z = mean xs := fun z hz => sub_eq_zero.mp (hall _ (List.mem_map.mpr ⟨z, hz, rfl⟩))
  rw [hmean x hx, hmean y hy]

end Spread

/-! ## Roots -/

/-- A square root: of a number that is not negative, the one that is not negative either. -/
structure PosRoot (K : Type*) [Field K] [LinearOrder K] [IsStrictOrderedRing K] where
  root : K → K
  nonneg : ∀ x, 0 ≤ x → 0 ≤ root x
  sq : ∀ x, 0 ≤ x → root x ^ 2 = x

namespace PosRoot

variable {K : Type*} [Field K] [LinearOrder K] [IsStrictOrderedRing K] (R : PosRoot K)

theorem eq_root {x y : K} (hx : 0 ≤ x) (hy : 0 ≤ y) (h : y ^ 2 = x) : R.root x = y := by
  have hsq : R.root x ^ 2 = y ^ 2 := by rw [R.sq x hx, h]
  exact (pow_left_inj₀ (R.nonneg x hx) hy two_ne_zero).mp hsq

theorem root_pos {x : K} (hx : 0 < x) : 0 < R.root x := by
  refine lt_of_le_of_ne (R.nonneg x hx.le) (fun h0 => hx.ne' ?_)
  rw [← R.sq x hx.le, ← h0]
  ring

theorem root_mul_sq (a : K) {x : K} (hx : 0 ≤ x) : R.root (a ^ 2 * x) = |a| * R.root x := by
  apply R.eq_root
  · positivity
  · exact mul_nonneg (abs_nonneg a) (R.nonneg x hx)
  · rw [mul_pow, sq_abs, R.sq x hx]

end PosRoot

end Moments

namespace Median

/-! ## Medians -/

theorem getD_map_of_lt {α : Type*} (f : α → α) {d : α} {xs : List α} {k : ℕ} (hk : k < xs.length) :
    (xs.map f).getD k d = f (xs.getD k d) := by
  rw [List.getD_eq_getElem _ _ (by rwa [List.length_map]), List.getD_eq_getElem _ _ hk, List.getElem_map]

section Medians

variable {K : Type*} [LinearOrder K]

def sorted (xs : List K) : List K := xs.insertionSort (· ≤ ·)

@[simp] theorem length_sorted (xs : List K) : (sorted xs).length = xs.length := List.length_insertionSort _ _

theorem sorted_perm (xs : List K) : (sorted xs).Perm xs := List.perm_insertionSort _ _

theorem sorted_pairwise (xs : List K) : (sorted xs).Pairwise (· ≤ ·) := List.pairwise_insertionSort _ _

variable [Field K]

/-- The middle number of a list that is not empty, or the mean of its two middle numbers. -/
def median (xs : List K) : K :=
  let data := sorted xs
  let n := data.length
  if n % 2 = 1 then data.getD (n / 2) 0 else (data.getD (n / 2 - 1) 0 + data.getD (n / 2) 0) / 2

theorem median_perm {xs ys : List K} (h : xs.Perm ys) : median xs = median ys := by
  have hsame : sorted xs = sorted ys :=
    ((sorted_perm xs).trans (h.trans (sorted_perm ys).symm)).eq_of_pairwise' (sorted_pairwise xs) (sorted_pairwise ys)
  unfold median
  rw [hsame]

variable [IsStrictOrderedRing K]

theorem sorted_affine {a : K} (ha : 0 < a) (b : K) (xs : List K) :
    sorted (xs.map (fun x => a * x + b)) = (sorted xs).map (fun x => a * x + b) := by
  symm
  apply List.map_insertionSort
  intro x _ y _
  show x ≤ y ↔ a * x + b ≤ a * y + b
  rw [add_le_add_iff_right, mul_le_mul_iff_right₀ ha]

theorem median_affine {a : K} (ha : 0 < a) (b : K) {xs : List K} (hne : xs ≠ []) :
    median (xs.map (fun x => a * x + b)) = a * median xs + b := by
  have hpos : 0 < (sorted xs).length := by
    rw [length_sorted]
    exact List.length_pos_iff.mpr hne
  unfold median
  rw [sorted_affine ha]
  dsimp only
  rw [List.length_map]
  by_cases hodd : (sorted xs).length % 2 = 1
  · rw [if_pos hodd, if_pos hodd, getD_map_of_lt _ (by omega)]
  · rw [if_neg hodd, if_neg hodd, getD_map_of_lt _ (by omega), getD_map_of_lt _ (by omega)]
    ring

end Medians

/-! ## Majorities -/

section Majorities

variable {α : Type*} [LinearOrder α]

theorem lt_countP_of_le {l : List α} (hl : l.Pairwise (· ≤ ·)) {k : ℕ} (hk : k < l.length) {p : α → Bool}
    (hp : ∀ x, x ≤ l[k] → p x) : k < l.countP p := by
  have hall : ∀ x ∈ l.take (k + 1), p x := by
    intro x hx
    obtain ⟨i, hi, rfl⟩ := List.getElem_of_mem hx
    rw [List.length_take] at hi
    rw [List.getElem_take]
    apply hp
    rcases Nat.lt_or_ge i k with hlt | hge
    · exact List.pairwise_iff_getElem.mp hl i k (by omega) hk hlt
    · have : i = k := by omega
      subst this
      exact le_refl _
  have hcount : (l.take (k + 1)).countP p = k + 1 := by
    rw [List.countP_eq_length.mpr hall, List.length_take]
    omega
  have hle := (List.take_sublist (k + 1) l).countP_le (p := p)
  omega

theorem length_sub_le_countP {l : List α} (hl : l.Pairwise (· ≤ ·)) {k : ℕ} (hk : k < l.length) {p : α → Bool}
    (hp : ∀ x, l[k] ≤ x → p x) : l.length - k ≤ l.countP p := by
  have hall : ∀ x ∈ l.drop k, p x := by
    intro x hx
    obtain ⟨i, hi, rfl⟩ := List.getElem_of_mem hx
    rw [List.length_drop] at hi
    rw [List.getElem_drop]
    apply hp
    cases i with
    | zero => exact le_refl _
    | succ i => exact List.pairwise_iff_getElem.mp hl k (k + (i + 1)) hk (by omega) (by omega)
  have hcount : (l.drop k).countP p = l.length - k := by
    rw [List.countP_eq_length.mpr hall, List.length_drop]
  have hle := (List.drop_sublist k l).countP_le (p := p)
  omega

theorem countP_trichotomy (m : α) (l : List α) :
    l.countP (fun x => x < m) + l.count m + l.countP (fun x => m < x) = l.length := by
  induction l with
  | nil => rfl
  | cons x l ih =>
    rw [List.countP_cons, List.count_cons, List.countP_cons, List.length_cons]
    rcases lt_trichotomy x m with hlt | rfl | hgt
    · simp [hlt, hlt.ne, hlt.not_gt]
      omega
    · simp
      omega
    · simp [hgt, hgt.ne', hgt.not_gt]
      omega

theorem getElem_of_majority {l : List α} (hl : l.Pairwise (· ≤ ·)) {m : α} (h : l.length < 2 * l.count m) {k : ℕ}
    (hk : k < l.length) (hlow : l.length ≤ 2 * k + 2) (hhigh : 2 * k ≤ l.length) : l[k] = m := by
  have htotal := countP_trichotomy m l
  rcases lt_trichotomy l[k] m with hlt | heq | hgt
  · have := lt_countP_of_le hl hk (p := fun x => decide (x < m)) (fun x hx => decide_eq_true (hx.trans_lt hlt))
    omega
  · exact heq
  · have := length_sub_le_countP hl hk (p := fun x => decide (m < x)) (fun x hx => decide_eq_true (hgt.trans_le hx))
    omega

end Majorities

/-! ## Deviations -/

section Deviations

variable {K : Type*} [Field K] [LinearOrder K] [IsStrictOrderedRing K]

theorem median_of_majority {xs : List K} {m : K} (h : xs.length < 2 * xs.count m) : median xs = m := by
  have hcount : (sorted xs).count m = xs.count m := (sorted_perm xs).count_eq m
  have hmiddle : ∀ k, (hk : k < (sorted xs).length) → (sorted xs).length ≤ 2 * k + 2 → 2 * k ≤ (sorted xs).length →
      (sorted xs).getD k 0 = m := by
    intro k hk hlow hhigh
    rw [List.getD_eq_getElem _ _ hk]
    apply getElem_of_majority (sorted_pairwise xs) _ hk hlow hhigh
    rwa [hcount, length_sorted]
  have hpos : 0 < (sorted xs).length := by
    have := List.count_le_length (a := m) (l := sorted xs)
    rw [hcount] at this
    have := length_sorted xs
    omega
  unfold median
  dsimp only
  by_cases hodd : (sorted xs).length % 2 = 1
  · rw [if_pos hodd, hmiddle _ (by omega) (by omega) (by omega)]
  · rw [if_neg hodd, hmiddle _ (by omega) (by omega) (by omega), hmiddle _ (by omega) (by omega) (by omega), ← two_mul]
    exact mul_div_cancel_left₀ m two_ne_zero

theorem majority_of_median_eq_zero {xs : List K} (hne : xs ≠ []) (hnonneg : ∀ x ∈ xs, 0 ≤ x) (h : median xs = 0) :
    xs.length < 2 * xs.count 0 := by
  have hcount : (sorted xs).count 0 = xs.count 0 := (sorted_perm xs).count_eq 0
  have hlength := length_sorted xs
  have hpos : 0 < xs.length := List.length_pos_iff.mpr hne
  have hmem : ∀ x ∈ sorted xs, 0 ≤ x := fun x hx => hnonneg x ((sorted_perm xs).mem_iff.mp hx)
  have hk : (sorted xs).length / 2 < (sorted xs).length := by omega
  -- the upper middle number is zero, and so are all before it
  have hupper : (sorted xs)[(sorted xs).length / 2] = 0 := by
    have hmid := hmem _ (List.getElem_mem hk)
    unfold median at h
    dsimp only at h
    by_cases hodd : (sorted xs).length % 2 = 1
    · rw [if_pos hodd, List.getD_eq_getElem _ _ hk] at h
      exact h
    · have hk' : (sorted xs).length / 2 - 1 < (sorted xs).length := by omega
      have hlow := hmem _ (List.getElem_mem hk')
      rw [if_neg hodd, List.getD_eq_getElem _ _ hk, List.getD_eq_getElem _ _ hk'] at h
      have hsum := (div_eq_zero_iff.mp h).resolve_right two_ne_zero
      linarith
  have hle : (sorted xs).length / 2 < (sorted xs).countP (fun x => x ≤ 0) := by
    apply lt_countP_of_le (sorted_pairwise xs) hk
    intro x hx
    rw [hupper] at hx
    exact decide_eq_true hx
  have heq : (sorted xs).countP (fun x => x ≤ 0) = (sorted xs).count 0 := by
    apply List.countP_congr
    intro x hx
    have := hmem x hx
    simp only [decide_eq_true_eq, beq_iff_eq]
    exact ⟨fun hle => le_antisymm hle this, fun heq => heq.le⟩
  omega

/-- The median of the distances from the median. -/
def medianDeviation (xs : List K) : K := median (xs.map (fun x => |x - median xs|))

omit [IsStrictOrderedRing K] in
theorem medianDeviation_perm {xs ys : List K} (h : xs.Perm ys) : medianDeviation xs = medianDeviation ys := by
  unfold medianDeviation
  rw [median_perm h]
  exact median_perm (h.map _)

theorem abs_sub_median_affine {a : K} (ha : 0 < a) (b : K) {xs : List K} (hne : xs ≠ []) (x : K) :
    |a * x + b - median (xs.map (fun x => a * x + b))| = a * |x - median xs| := by
  rw [median_affine ha b hne, add_sub_add_right_eq_sub, ← mul_sub, abs_mul, abs_of_pos ha]

theorem medianDeviation_affine {a : K} (ha : 0 < a) (b : K) {xs : List K} (hne : xs ≠ []) :
    medianDeviation (xs.map (fun x => a * x + b)) = a * medianDeviation xs := by
  have hscaled : (xs.map (fun x => a * x + b)).map (fun x => |x - median (xs.map (fun x => a * x + b))|) =
      (xs.map (fun x => |x - median xs|)).map (fun d => a * d + 0) := by
    rw [List.map_map, List.map_map]
    apply List.map_congr_left
    intro x _
    show |a * x + b - median (xs.map (fun x => a * x + b))| = a * |x - median xs| + 0
    rw [abs_sub_median_affine ha b hne, add_zero]
  unfold medianDeviation
  rw [hscaled, median_affine ha 0 (by simpa using hne), add_zero]

theorem count_deviations (m : K) (xs : List K) : (xs.map (fun x => |x - m|)).count 0 = xs.count m := by
  rw [List.count, List.countP_map, List.count]
  apply List.countP_congr
  intro x _
  simp [sub_eq_zero]

/-- **The median of the distances vanishes** exactly if one number fills more than half of the list. -/
theorem medianDeviation_eq_zero_iff {xs : List K} (hne : xs ≠ []) :
    medianDeviation xs = 0 ↔ ∃ m, xs.length < 2 * xs.count m := by
  constructor
  · intro h
    refine ⟨median xs, ?_⟩
    have hzero := majority_of_median_eq_zero (by simpa using hne)
      (by
        intro d hd
        obtain ⟨x, _, rfl⟩ := List.mem_map.mp hd
        exact abs_nonneg _) h
    rwa [count_deviations, List.length_map] at hzero
  · rintro ⟨m, hm⟩
    unfold medianDeviation
    rw [median_of_majority hm]
    apply median_of_majority
    rwa [count_deviations, List.length_map]

theorem median_nonneg {xs : List K} (h : ∀ x ∈ xs, 0 ≤ x) : 0 ≤ median xs := by
  have hget : ∀ k, 0 ≤ (sorted xs).getD k 0 := by
    intro k
    rw [List.getD_eq_getElem?_getD]
    cases hk : (sorted xs)[k]? with
    | none => exact le_refl _
    | some x => exact h x ((sorted_perm xs).mem_iff.mp (List.mem_of_getElem? hk))
  unfold median
  dsimp only
  split
  · exact hget _
  · exact div_nonneg (add_nonneg (hget _) (hget _)) zero_le_two

theorem medianDeviation_nonneg (xs : List K) : 0 ≤ medianDeviation xs := by
  apply median_nonneg
  intro d hd
  obtain ⟨x, _, rfl⟩ := List.mem_map.mp hd
  exact abs_nonneg _

end Deviations

end Median
