import Irip.Base.Dict
import Irip.Base.Eval
import Irip.Transform.SteadyWindow

/-!
# `Transform.SteadySegments` — what the scan for steady windows finds

The scan sees the readings of a column without their rows, and gives the places of a window among them as its rows.
-/

namespace Irip.Transform.Steady

/-! ## Tables -/


/-- A value in a row. -/
inductive Cell where
  | none
  | int (n : ℤ)
  | float (x : FloatNum)
  | other

abbrev Row := Dict String Cell

/-- `float(val)` where `isinstance(val, (int, float))`. -/
def Cell.number : Cell → Option (Except Raised FloatNum)
  | .int n => some (toFloat n)
  | .float x => some (.ok x)
  | _ => Option.none

/-- The reading of a row, or what reading it raises. -/
def reading (column : String) (row : Row) : Option (Except Raised FloatNum) := (row.get? column).bind Cell.number

/-- `values`. -/
def readValues (column : String) : List Row → Except Raised (List FloatNum)
  | [] => .ok []
  | row :: rows =>
    match reading column row with
    | none => readValues column rows
    | some (.error raised) => .error raised
    | some (.ok x) => (readValues column rows).map (x :: ·)

/-- The parameters. -/
structure Params where
  valueColumn : String
  windowSize : ℤ
  tolerance : FloatNum
  minDuration : Option ℤ
  metric : String

/-- `_METRICS`. -/
def metricOf (name : String) : Option Metric :=
  if name = "std" then some .std else if name = "range" then some .range else none

/-- What is scanned. -/
def Params.scan (params : Params) (metric : Metric) (values : List FloatNum) : Scan where
  values := values
  windowSize := params.windowSize
  tolerance := params.tolerance
  minDuration := params.minDuration.getD params.windowSize
  metric := metric

/-- `SteadyWindow.execute`: the windows, if the scan ends after so many turns. -/
def execute (rows : List Row) (params : Params) (fuel : ℕ) : Option (Except Raised (List Window)) :=
  match metricOf params.metric with
  | none => some (.ok [])
  | some metric =>
    match readValues params.valueColumn rows with
    | .error raised => some (.error raised)
    | .ok values =>
      if (values.length : ℤ) < params.windowSize then some (.ok [])
      else (params.scan metric values).scan fuel 0

/-- The readings from the `r`-th row on, with their rows. -/
def points (column : String) : ℕ → List Row → List (ℕ × FloatNum)
  | _, [] => []
  | r, row :: rows =>
    match reading column row with
    | some (.ok x) => (r, x) :: points column (r + 1) rows
    | _ => points column (r + 1) rows

theorem readValues_spec {column : String} : ∀ {rows : List Row} {values : List FloatNum} (r : ℕ),
    readValues column rows = .ok values → (points column r rows).map Prod.snd = values
  | [], _, _, h => Except.ok.inj h
  | row :: rows, values, r, h => by
    rw [readValues] at h
    rw [points]
    cases hreading : reading column row with
    | none =>
      rw [hreading] at h
      exact readValues_spec (r + 1) h
    | some result =>
      rw [hreading] at h
      cases result with
      | error raised => cases h
      | ok x =>
        cases hrest : readValues column rows with
        | error raised =>
          rw [hrest] at h
          cases h
        | ok rest =>
          rw [hrest] at h
          obtain rfl := Except.ok.inj h
          exact congrArg (x :: ·) (readValues_spec (r + 1) hrest)

/-! ## Rows -/

section Points

variable {column : String}

theorem le_of_points : ∀ {rows : List Row} {r k : ℕ} {p : ℕ × FloatNum},
    (points column r rows)[k]? = some p → r + k ≤ p.1
  | [], _, _, _, h => by simp [points] at h
  | row :: rows, r, k, p, h => by
    rw [points] at h
    split at h
    · cases k with
      | zero => exact (congrArg Prod.fst (Option.some.inj h)).le
      | succ k =>
        have htail : (points column (r + 1) rows)[k]? = some p := h
        have := le_of_points htail
        omega
    · have := le_of_points h
      omega

/-- If the `n`-th point does not come after the `n`-th row, the points up to it are those of the first rows. -/
theorem points_of_tight : ∀ {rows : List Row} {r n : ℕ} {p : ℕ × FloatNum},
    (points column r rows)[n]? = some p → p.1 ≤ r + n → ∀ k ≤ n, ((points column r rows)[k]?.map Prod.fst) = some (r + k)
  | [], _, _, _, h, _, _, _ => by simp [points] at h
  | row :: rows, r, n, p, h, hp, k, hk => by
    rw [points] at h ⊢
    split at h
    · cases k with
      | zero => rfl
      | succ k =>
        obtain ⟨n, rfl⟩ : ∃ m, n = m + 1 := ⟨n - 1, by omega⟩
        have htail : (points column (r + 1) rows)[n]? = some p := h
        rw [List.getElem?_cons_succ, points_of_tight htail (by omega) k (by omega), Nat.add_right_comm, Nat.add_assoc]
    · have := le_of_points h
      omega

/-- **The rows of a segment of points** have just these points exactly if the points up to its end are those of the first
rows. -/
theorem rows_iff {rows : List Row} {i e : ℕ} (hlt : i < e) (hlength : e ≤ (points column 0 rows).length) :
    (points column 0 rows).filter (fun p => (i : ℤ) ≤ p.1 ∧ (p.1 : ℤ) ≤ (e : ℤ) - 1) =
        ((points column 0 rows).drop i).take (e - i) ↔
      ∀ k < e, (points column 0 rows)[k]?.map Prod.fst = some k := by
  constructor
  · intro heq k hk
    -- the last point of the segment lies in its rows
    obtain ⟨p, hp⟩ : ∃ p, (points column 0 rows)[e - 1]? = some p := ⟨_, List.getElem?_eq_getElem (by omega)⟩
    have hmem : p ∈ ((points column 0 rows).drop i).take (e - i) := by
      refine List.mem_iff_getElem?.mpr ⟨e - 1 - i, ?_⟩
      rw [List.getElem?_take_of_lt (by omega), List.getElem?_drop, show i + (e - 1 - i) = e - 1 by omega, hp]
    rw [← heq, List.mem_filter] at hmem
    have hbound := (of_decide_eq_true hmem.2).2
    rw [points_of_tight hp (by omega) k (by omega), Nat.zero_add]
  · intro hfull
    have hrow : ∀ k < e, ∀ p, (points column 0 rows)[k]? = some p → p.1 = k := by
      intro k hk p hp
      simpa [hp] using hfull k hk
    have hsplit : points column 0 rows = (points column 0 rows).take i ++
        (((points column 0 rows).drop i).take (e - i) ++ (points column 0 rows).drop e) := by
      rw [← show i + (e - i) = e by omega, ← List.drop_drop, Nat.add_sub_cancel_left, List.take_append_drop,
        List.take_append_drop]
    conv_lhs => rw [hsplit]
    rw [List.filter_append, List.filter_append]
    have hbefore : ((points column 0 rows).take i).filter (fun p => (i : ℤ) ≤ p.1 ∧ (p.1 : ℤ) ≤ (e : ℤ) - 1) = [] := by
      refine List.filter_eq_nil_iff.mpr fun p hp => ?_
      obtain ⟨k, hk⟩ := List.mem_iff_getElem?.mp hp
      rw [List.getElem?_take] at hk
      split at hk
      · have := hrow k (by omega) p hk
        simp
        omega
      · cases hk
    have hinside : (((points column 0 rows).drop i).take (e - i)).filter
        (fun p => (i : ℤ) ≤ p.1 ∧ (p.1 : ℤ) ≤ (e : ℤ) - 1) = ((points column 0 rows).drop i).take (e - i) := by
      refine List.filter_eq_self.mpr fun p hp => ?_
      obtain ⟨k, hk⟩ := List.mem_iff_getElem?.mp hp
      rw [List.getElem?_take] at hk
      split at hk
      · rw [List.getElem?_drop] at hk
        have := hrow (i + k) (by omega) p hk
        simp
        omega
      · cases hk
    have hbehind : ((points column 0 rows).drop e).filter (fun p => (i : ℤ) ≤ p.1 ∧ (p.1 : ℤ) ≤ (e : ℤ) - 1) = [] := by
      refine List.filter_eq_nil_iff.mpr fun p hp => ?_
      obtain ⟨k, hk⟩ := List.mem_iff_getElem?.mp hp
      rw [List.getElem?_drop] at hk
      have := le_of_points hk
      simp
      omega
    rw [hbefore, hinside, hbehind, List.append_nil, List.nil_append]

end Points

/-! ## Numbers -/

theorem bestOf_spec (beats : FloatNum → FloatNum → Bool)
    (htrans : ∀ a b c, beats a b = true → beats b c = true → beats a c = true) :
    ∀ (xs : List FloatNum) (x : FloatNum), bestOf beats x xs = x ∨ beats (bestOf beats x xs) x = true
  | [], _ => .inl rfl
  | y :: ys, x => by
    have hcons : bestOf beats x (y :: ys) = bestOf beats (if beats y x then y else x) ys := rfl
    rw [hcons]
    split
    · next hbeats =>
      rcases bestOf_spec beats htrans ys y with heq | hlater
      · rw [heq]
        exact .inr hbeats
      · exact .inr (htrans _ _ _ hlater hbeats)
    · exact bestOf_spec beats htrans ys x

theorem sub_eq_nan {a b : FloatNum} (h : sub a b = .nan) :
    a = .nan ∨ b = .nan ∨ a = .inf ∧ b = .inf ∨ a = .negInf ∧ b = .negInf := by
  unfold sub at h
  split at h
  · unfold FloatFormat.ofRat at h
    split at h
    · cases h
    · split at h <;> cases h
  · next x y hfinite =>
    split at h
    · next heq =>
      subst heq
      rcases x with _ | _ | q
      · exact .inr (.inr (.inr ⟨rfl, rfl⟩))
      · exact .inr (.inr (.inl ⟨rfl, rfl⟩))
      · exact (hfinite q q rfl rfl).elim
    · split at h <;> cases h
  · next hvalues =>
    cases a with
    | nan => exact .inl rfl
    | val x =>
      cases b with
      | nan => exact .inr (.inl rfl)
      | val y => exact (hvalues x y rfl rfl).elim

theorem sub_nan : ∀ a, sub a .nan = .nan
  | .nan | .val none | .val (some none) | .val (some (some _)) => rfl

theorem inf_lt (x : FloatNum) : FloatNum.inf.lt x = false := by
  cases x with
  | nan => rfl
  | val x => exact decide_eq_false (not_lt_of_ge le_top)

theorem lt_negInf (x : FloatNum) : x.lt .negInf = false := by
  cases x with
  | nan => rfl
  | val x => exact decide_eq_false (not_lt_of_ge (bot_le : ⊥ ≤ x))

theorem range_ne_nan {xs ys : List FloatNum} {d d' : FloatNum} (hd : Metric.range.deviation xs = .ok d) (hnum : d ≠ .nan)
    (hd' : Metric.range.deviation (xs ++ ys) = .ok d') : d' ≠ .nan := by
  cases xs with
  | nil => cases hd
  | cons x xs =>
    obtain rfl : sub (bestOf (fun x best => best.lt x) x xs) (bestOf (fun x best => x.lt best) x xs) = d :=
      Except.ok.inj hd
    obtain rfl : sub (bestOf (fun x best => best.lt x) x (xs ++ ys)) (bestOf (fun x best => x.lt best) x (xs ++ ys)) = d' :=
      Except.ok.inj hd'
    have hmax := bestOf_spec (fun x best => best.lt x) (fun _ _ _ hab hbc => FloatNum.lt_trans hbc hab)
    have hmin := bestOf_spec (fun x best => x.lt best) (fun _ _ _ => FloatNum.lt_trans)
    have hhigh := hmax xs x
    have hlow := hmin xs x
    have hhigher := hmax ys (bestOf (fun x best => best.lt x) x xs)
    have hlower := hmin ys (bestOf (fun x best => x.lt best) x xs)
    have happend : ∀ beats, bestOf beats x (xs ++ ys) = bestOf beats (bestOf beats x xs) ys := fun _ => List.foldl_append
    rw [happend, happend]
    generalize bestOf (fun x best => best.lt x) x xs = high at hhigh hhigher hnum ⊢
    generalize bestOf (fun x best => x.lt best) x xs = low at hlow hlower hnum ⊢
    generalize bestOf (fun x best => best.lt x) high ys = higher at hhigher ⊢
    generalize bestOf (fun x best => x.lt best) low ys = lower at hlower ⊢
    have hnan : ∀ a : FloatNum, FloatNum.nan.lt a = false ∧ a.lt .nan = false := fun a => ⟨rfl, by cases a <;> rfl⟩
    intro hsub
    apply hnum
    rcases sub_eq_nan hsub with rfl | rfl | ⟨rfl, rfl⟩ | ⟨rfl, rfl⟩
    · rcases hhigher with rfl | hlt
      · rfl
      · simp [hnan] at hlt
    · rcases hlower with rfl | hlt
      · exact sub_nan high
      · simp [hnan] at hlt
    · -- the least of the numbers is infinite, and so is the first one
      obtain rfl : low = .inf := (hlower.resolve_right (by simp [inf_lt])).symm
      obtain rfl : x = .inf := (hlow.resolve_right (by simp [inf_lt])).symm
      obtain rfl : high = .inf := hhigh.resolve_right (by simp [inf_lt])
      rfl
    · obtain rfl : high = .negInf := (hhigher.resolve_right (by simp [lt_negInf])).symm
      obtain rfl : x = .negInf := (hhigh.resolve_right (by simp [lt_negInf])).symm
      obtain rfl : low = .negInf := hlow.resolve_right (by simp [lt_negInf])
      rfl

theorem le_of_not_lt' {a b : FloatNum} (ha : a ≠ .nan) (hb : b ≠ .nan) (h : b.lt a = false) : le a b = true := by
  cases a with
  | nan => exact absurd rfl ha
  | val x =>
    cases b with
    | nan => exact absurd rfl hb
    | val y => exact decide_eq_true (not_lt.mp (of_decide_eq_false h))

/-- The window stands for `values[i:e]`. -/
structure Window.Covers (w : Window) (i e : ℤ) : Prop where
  startIndex : w.startIndex = i
  endIndex : w.endIndex = e - 1
  startRow : w.startRow = i
  endRow : w.endRow = e - 1
  duration : w.duration = e - i

namespace Scan

variable {s : Scan} {i e next : ℤ}

theorem Grows.within (h : s.Grows i e) (hstart : 0 ≤ i) (hsize : 1 ≤ s.windowSize) (htol : le zero s.tolerance = true) :
    ∃ d, s.deviation i e = .ok d ∧ le d s.tolerance = true := by
  have hfirst := h.first
  obtain ⟨d₀, hd₀, hle⟩ := h.window
  rcases Int.lt_or_eq_of_le hfirst with hless | rfl
  · obtain ⟨d, hd, hlt⟩ := h.steady e hless (le_refl _)
    have htol' : s.tolerance ≠ .nan := fun hnan => by simp [hnan, zero, FloatNum.fin, le] at htol
    have hnum₀ : d₀ ≠ .nan := fun hnan => by simp [hnan, le] at hle
    refine ⟨d, hd, le_of_not_lt' ?_ htol' hlt⟩
    unfold deviation at hd hd₀
    cases hm : s.metric with
    | std =>
      rw [hm] at hd
      obtain ⟨r, rfl, -⟩ := spread_spec hd
      exact fun hnan => by cases hnan
    | range =>
      rw [hm] at hd hd₀
      have hslice : slice s.values i e = slice s.values i (i + s.windowSize) ++
          ((s.values.drop i.toNat).drop s.windowSize.toNat).take (e - (i + s.windowSize)).toNat := by
        unfold slice slice.place
        rw [if_neg (by omega), if_neg (by omega), if_neg (by omega), show (i + s.windowSize).toNat - i.toNat = s.windowSize.toNat by omega,
          ← List.take_add]
        congr 1
        omega
      rw [hslice] at hd
      exact range_ne_nan hd₀ hnum₀ hd
  · exact ⟨d₀, hd₀, hle⟩

/-! ### Lists -/

theorem report_cases {windows : List Window} (h : s.report i e = .ok windows) :
    (s.minDuration ≤ e - i ∧ ∃ w, windows = [w] ∧ w.Covers i e) ∨ ¬ s.minDuration ≤ e - i ∧ windows = [] := by
  unfold report at h
  split at h
  · next hlong =>
    cases hdescribe : s.describe i e with
    | error raised =>
      rw [hdescribe] at h
      cases h
    | ok w =>
      rw [hdescribe] at h
      refine .inl ⟨hlong, w, (Except.ok.inj h).symm, ?_⟩
      obtain ⟨_, -, hdescribe⟩ := Evaluation.bind_ok_iff.mp hdescribe
      obtain ⟨_, -, hdescribe⟩ := Evaluation.bind_ok_iff.mp hdescribe
      obtain ⟨_, -, hdescribe⟩ := Evaluation.bind_ok_iff.mp hdescribe
      obtain ⟨_, -, hdescribe⟩ := Evaluation.bind_ok_iff.mp hdescribe
      obtain rfl := Except.ok.inj hdescribe
      exact ⟨rfl, rfl, rfl, rfl, rfl⟩
  · next hshort => exact .inr ⟨hshort, (Except.ok.inj h).symm⟩

/-- What the scan reports from `i` on: the maximal segments that are long enough, in their order. -/
structure Lists (s : Scan) (i : ℤ) (windows : List Window) : Prop where
  reported : ∀ w ∈ windows, ∃ a e, w.Covers a e ∧ i ≤ a ∧ Relation.ReflTransGen s.Goes i a ∧ s.Run a e ∧
    s.minDuration ≤ e - a
  ordered : windows.Pairwise (fun w w' => w.endIndex < w'.startIndex)
  complete : ∀ a e, Relation.ReflTransGen s.Goes i a → s.Run a e → s.minDuration ≤ e - a →
    ∃ w ∈ windows, w.Covers a e

theorem lists_of_scan (hsize : 1 ≤ s.windowSize) :
    ∀ {fuel : ℕ} {i : ℤ} {windows : List Window}, s.scan fuel i = some (.ok windows) → s.Lists i windows
  | 0, _, _, h => nomatch h
  | fuel + 1, i, windows, h => by
    rcases scan_succ h with ⟨hend, rfl⟩ | ⟨hroom, first, next, rest, hturn, hrest, rfl⟩
    · refine ⟨List.forall_mem_nil _, List.Pairwise.nil, fun a e ha hrun _ => ?_⟩
      rcases ha.cases_head with rfl | ⟨k, hk, -⟩
      · have hfirst := hrun.first
        have hlast := hrun.last
        omega
      · have := hk.1
        omega
    · obtain ⟨hgoes, hfirst⟩ := turn_cases hroom hturn
      have hlt : i < next := hgoes.lt (fun hempty => by have := hempty.1; omega)
      have hlater := lists_of_scan hsize hrest
      -- what the turn itself reports
      have hhead : (∀ w ∈ first, w.Covers i next ∧ s.Run i next ∧ s.minDuration ≤ next - i) ∧
          first.Pairwise (fun w w' => w.endIndex < w'.startIndex) ∧
          ∀ e, s.Run i e → s.minDuration ≤ e - i → ∃ w ∈ first, w.Covers i e := by
        rcases hfirst with ⟨hrough, rfl⟩ | ⟨hrun, hreport⟩
        · exact ⟨List.forall_mem_nil _, .nil, fun e hrun => absurd hrun.toGrows hrough.not_grows⟩
        · rcases report_cases hreport with ⟨hlong, w, rfl, hcovers⟩ | ⟨hshort, rfl⟩
          · refine ⟨fun w' hw' => ?_, List.pairwise_singleton _ _, fun e he _ => ⟨w, List.mem_singleton_self w, ?_⟩⟩
            · rw [List.mem_singleton.mp hw']
              exact ⟨hcovers, hrun, hlong⟩
            · rw [he.unique hrun]
              exact hcovers
          · refine ⟨List.forall_mem_nil _, .nil, fun e he hlong => absurd hlong ?_⟩
            rw [he.unique hrun]
            exact hshort
      obtain ⟨hmem, hordered, hcomplete⟩ := hhead
      refine ⟨fun w hw => ?_, List.pairwise_append.mpr ⟨hordered, hlater.ordered, fun w hw w' hw' => ?_⟩,
        fun a e ha hrun hlong => ?_⟩
      · rcases List.mem_append.mp hw with hw | hw
        · obtain ⟨hcovers, hrun, hlong⟩ := hmem w hw
          exact ⟨i, next, hcovers, le_refl _, .refl, hrun, hlong⟩
        · obtain ⟨a, e, hcovers, hle, ha, hrun, hlong⟩ := hlater.reported w hw
          exact ⟨a, e, hcovers, by omega, ha.head hgoes, hrun, hlong⟩
      · have hcovers := (hmem w hw).1
        obtain ⟨a, e, hcovers', hle, -⟩ := hlater.reported w' hw'
        rw [hcovers.endIndex, hcovers'.startIndex]
        omega
      · rcases ha.cases_head with rfl | ⟨k, hk, hka⟩
        · obtain ⟨w, hw, hcovers⟩ := hcomplete e hrun hlong
          exact ⟨w, List.mem_append_left _ hw, hcovers⟩
        · obtain rfl := hk.unique hgoes
          obtain ⟨w, hw, hcovers⟩ := hlater.complete a e hka hrun hlong
          exact ⟨w, List.mem_append_right _ hw, hcovers⟩

theorem found_of_scan {j : ℤ} (hj : j + s.windowSize ≤ s.count) (hsteady : ¬ s.Rough j) :
    ∀ {fuel : ℕ} {i : ℤ} {windows : List Window}, s.scan fuel i = some (.ok windows) → i ≤ j →
      ∃ a e, Relation.ReflTransGen s.Goes i a ∧ s.Run a e ∧ a ≤ j ∧ j < e
  | 0, _, _, h, _ => nomatch h
  | fuel + 1, i, windows, h, hij => by
    rcases scan_succ h with ⟨hend, -⟩ | ⟨hroom, first, next, rest, hturn, hrest, -⟩
    · omega
    · have hgoes := (turn_cases hroom hturn).1
      by_cases hnext : next ≤ j
      · obtain ⟨a, e, ha, hfound⟩ := found_of_scan hj hsteady hrest hnext
        exact ⟨a, e, ha.head hgoes, hfound⟩
      · rcases hgoes.2 with ⟨hrough, rfl⟩ | hrun
        · obtain rfl : i = j := by omega
          exact absurd hrough hsteady
        · exact ⟨i, next, .refl, hrun, hij, by omega⟩

theorem nonneg_of_visited (hsize : 1 ≤ s.windowSize) (h : s.Visited i) : 0 ≤ i := by
  induction h with
  | refl => exact le_refl _
  | tail _ hgoes ih =>
    have := hgoes.lt (fun hempty => by have := hempty.1; omega)
    omega

end Scan

/-! ## Result -/

/-- The windows that are reported are the steady stretches of the series; `table` are the points with their rows. -/
structure Correct (s : Scan) (table : List (ℕ × FloatNum)) (windows : List Window) : Prop where
  ordered : windows.Pairwise (fun w w' => w.endIndex < w'.startIndex)
  long : ∀ w ∈ windows, w.duration = w.endIndex + 1 - w.startIndex ∧ max s.windowSize s.minDuration ≤ w.duration
  steady : ∀ w ∈ windows, ∃ d, s.deviation w.startIndex (w.endIndex + 1) = .ok d ∧ le d s.tolerance = true
  maximal : ∀ w ∈ windows, w.endIndex + 1 < s.count →
    ∃ d, s.deviation w.startIndex (w.endIndex + 2) = .ok d ∧ s.tolerance.lt d = true
  rows : ∀ w ∈ windows, table.filter (fun p => w.startRow ≤ p.1 ∧ (p.1 : ℤ) ≤ w.endRow) =
    (table.drop w.startIndex.toNat).take w.duration.toNat
  found : ∀ j, 0 ≤ j → j + s.windowSize ≤ s.count →
    (∃ d, s.deviation j (j + s.windowSize) = .ok d ∧ le d s.tolerance = true) →
      ∃ i e, s.Visited i ∧ s.Run i e ∧ i < j + s.windowSize ∧ j < e ∧
        (s.minDuration ≤ e - i → ∃ w ∈ windows, w.startIndex = i ∧ w.endIndex = e - 1)

theorem scan_of_execute {rows : List Row} {params : Params} {metric : Metric} {fuel : ℕ} {windows : List Window}
    (hmetric : metricOf params.metric = some metric) (h : execute rows params fuel = some (.ok windows)) :
    ∃ fuel, (params.scan metric ((points params.valueColumn 0 rows).map Prod.snd)).scan fuel 0 = some (.ok windows) := by
  unfold execute at h
  rw [hmetric] at h
  dsimp only at h
  split at h
  · cases h
  · next values hvalues =>
    rw [readValues_spec 0 hvalues]
    split at h
    · next hfew =>
      refine ⟨1, ?_⟩
      obtain rfl : [] = windows := Except.ok.inj (Option.some.inj h)
      have hcount : (params.scan metric values).count < 0 + (params.scan metric values).windowSize := by
        show (values.length : ℤ) < 0 + params.windowSize
        omega
      rw [Scan.scan, if_neg (by omega)]
    · exact ⟨fuel, h⟩

/-- **When the windows are right**: the readings up to the end of a window are those of the first rows, none of which is
without a reading. -/
theorem windows_correct_iff {rows : List Row} {params : Params} {metric : Metric} {fuel : ℕ} {windows : List Window}
    (hmetric : metricOf params.metric = some metric) (hsize : 1 ≤ params.windowSize)
    (htol : le zero params.tolerance = true) (hreturns : execute rows params fuel = some (.ok windows)) :
    Correct (params.scan metric ((points params.valueColumn 0 rows).map Prod.snd)) (points params.valueColumn 0 rows)
        windows ↔
      ∀ i e, (params.scan metric ((points params.valueColumn 0 rows).map Prod.snd)).Reported i e →
        ∀ k : ℕ, k < e → (points params.valueColumn 0 rows)[k]?.map Prod.fst = some k := by
  obtain ⟨fuel, hscan⟩ := scan_of_execute hmetric hreturns
  generalize hs : params.scan metric ((points params.valueColumn 0 rows).map Prod.snd) = s at hscan ⊢
  have hsize' : 1 ≤ s.windowSize := hs ▸ hsize
  have htol' : le zero s.tolerance = true := hs ▸ htol
  have hcount : s.count = (points params.valueColumn 0 rows).length := by
    rw [← hs]
    exact congrArg Nat.cast (List.length_map _)
  have hlists := Scan.lists_of_scan hsize' hscan
  -- the rows of a maximal segment
  have hrows : ∀ {w : Window} {i e : ℤ}, w.Covers i e → s.Visited i → s.Run i e →
      ((points params.valueColumn 0 rows).filter (fun p => w.startRow ≤ p.1 ∧ (p.1 : ℤ) ≤ w.endRow) =
          ((points params.valueColumn 0 rows).drop w.startIndex.toNat).take w.duration.toNat ↔
        ∀ k : ℕ, k < e → (points params.valueColumn 0 rows)[k]?.map Prod.fst = some k) := by
    intro w i e hcovers hvisited hrun
    have hfirst := hrun.first
    have hlast := hrun.last
    obtain ⟨i, rfl⟩ := Int.eq_ofNat_of_zero_le (Scan.nonneg_of_visited hsize' hvisited)
    obtain ⟨e, rfl⟩ := Int.eq_ofNat_of_zero_le (show 0 ≤ e by omega)
    rw [hcovers.startRow, hcovers.endRow, hcovers.startIndex, hcovers.duration, Int.toNat_natCast,
      Int.toNat_sub, rows_iff (by omega) (by omega)]
    simp only [Nat.cast_lt]
  constructor
  · intro hcorrect i e hreported
    obtain ⟨w, hw, hcovers⟩ := hlists.complete i e hreported.visited hreported.toRun hreported.long
    exact (hrows hcovers hreported.visited hreported.toRun).mp (hcorrect.rows w hw)
  · intro hfull
    refine ⟨hlists.ordered, fun w hw => ?_, fun w hw => ?_, fun w hw hless => ?_, fun w hw => ?_, fun j hj hroom hsteady => ?_⟩
    · obtain ⟨i, e, hcovers, -, -, hrun, hlong⟩ := hlists.reported w hw
      have hfirst := hrun.first
      rw [hcovers.duration, hcovers.startIndex, hcovers.endIndex]
      exact ⟨by omega, max_le (by omega) hlong⟩
    · obtain ⟨i, e, hcovers, hstart, -, hrun, -⟩ := hlists.reported w hw
      rw [hcovers.startIndex, hcovers.endIndex, Int.sub_add_cancel]
      exact hrun.toGrows.within hstart hsize' htol'
    · obtain ⟨i, e, hcovers, -, -, hrun, -⟩ := hlists.reported w hw
      rw [hcovers.endIndex] at hless
      rw [hcovers.startIndex, hcovers.endIndex, show e - 1 + 2 = e + 1 by omega]
      exact hrun.stops.resolve_left (by omega)
    · obtain ⟨i, e, hcovers, -, hvisited, hrun, hlong⟩ := hlists.reported w hw
      exact (hrows hcovers hvisited hrun).mpr (hfull i e ⟨hrun, hvisited, hlong⟩)
    · have hnotrough : ¬ s.Rough j := by
        rintro ⟨d, hd, hle⟩
        obtain ⟨d', hd', hle'⟩ := hsteady
        rw [hd] at hd'
        obtain rfl := Except.ok.inj hd'
        rw [hle] at hle'
        cases hle'
      obtain ⟨i, e, hvisited, hrun, hle, hlt⟩ := Scan.found_of_scan hroom hnotrough hscan hj
      refine ⟨i, e, hvisited, hrun, by omega, hlt, fun hlong => ?_⟩
      obtain ⟨w, hw, hcovers⟩ := hlists.complete i e hvisited hrun hlong
      exact ⟨w, hw, hcovers.startIndex, hcovers.endIndex⟩

/-- A table with the number one in each of these rows. -/
def ones (present : List Bool) : List Row :=
  present.map (fun here => Dict.ofList (if here then [("x", .float (.fin 1))] else []))

/-- Windows of one reading. -/
def single : Params := { valueColumn := "x", windowSize := 1, tolerance := zero, minDuration := none, metric := "std" }

/-- What is found in a table with a single reading. -/
def onlyOne : List Window := [⟨0, 0, 0, 0, 1, .fin 1, zero, .fin 1, .fin 1⟩]

/-- There is no gap before the only reading. -/
theorem ones_correct :
    Correct (single.scan .std ((points "x" 0 (ones [true])).map Prod.snd)) (points "x" 0 (ones [true])) onlyOne :=
  (@windows_correct_iff (ones [true]) single .std 2 onlyOne rfl (by decide) (by decide) (by decide +kernel)).mpr
    fun i e hreported k hk => by
      have hlast : e ≤ 1 := hreported.last
      obtain rfl : k = 0 := by omega
      rfl

/-- The reading of the second row is taken for one of the first. -/
theorem shifted_by_gap :
    execute (ones [false, true]) single 2 = some (.ok onlyOne) ∧
      ¬ Correct (single.scan .std ((points "x" 0 (ones [false, true])).map Prod.snd)) (points "x" 0 (ones [false, true]))
        onlyOne := by
  refine ⟨by decide +kernel, fun h => ?_⟩
  have hrows := h.rows _ List.mem_cons_self
  exact absurd hrows (by decide +kernel)

end Irip.Transform.Steady
