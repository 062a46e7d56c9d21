import Irip.Base.Binary64
import Irip.Base.Sample
import Mathlib.Data.Nat.Size
import Mathlib.Logic.Relation

/-!
# `Transform.SteadyWindow` — the stretches of a series in which a value stays within a tolerance

Windows are looked for among the readings, which are the numbers of a column without the cells that hold none. A window
that is steady grows by one reading at a time, and the scan goes on behind it.
-/

namespace Irip.Transform.Steady

/-! ## Numbers -/

/-- What is raised. -/
inductive Raised where
  | overflow
  | attribute
  | statistics (message : String)
  | value (message : String)
  deriving DecidableEq

/-- `a <= b`. -/
def le : FloatNum → FloatNum → Bool
  | .val x, .val y => decide (x ≤ y)
  | _, _ => false

/-- `a - b`. -/
def sub : FloatNum → FloatNum → FloatNum
  | .val (some (some a)), .val (some (some b)) => binary64.ofRat (a - b)
  | .val a, .val b => if a = b then .nan else if b < a then .inf else .negInf
  | _, _ => .nan

/-- A fraction as a float. -/
def toFloat (q : ℚ) : Except Raised FloatNum :=
  if (binary64.ofRat q).isFinite then .ok (binary64.ofRat q) else .error .overflow

def finite? : FloatNum → Option ℚ
  | .val (some (some q)) => some q
  | _ => none

/-- The float that numbers add up to, one of which is not finite. -/
def addSpecial (xs : List FloatNum) : FloatNum :=
  if .nan ∈ xs ∨ .inf ∈ xs ∧ .negInf ∈ xs then .nan else if .inf ∈ xs then .inf else .negInf

def mean (xs : List FloatNum) : Except Raised FloatNum :=
  if xs = [] then .error (.statistics "mean requires at least one data point")
  else
    match xs.mapM finite? with
    | some qs => toFloat (Moments.mean qs)
    | none => .ok (addSpecial xs)

/-- `_integer_sqrt_of_frac_rto`: the root of `n / m`, odd where it is not exact. -/
def integerSqrt (n m : ℕ) : ℕ := if Nat.sqrt (n / m) ^ 2 * m = n then Nat.sqrt (n / m) else Nat.sqrt (n / m) ||| 1

/-- `_float_sqrt_of_frac`. -/
def floatSqrt (x : ℚ) : Except Raised FloatNum :=
  let n := x.num.toNat
  let q : ℤ := ((n.size : ℤ) - x.den.size - 109) / 2
  if 0 ≤ q then toFloat (integerSqrt n (x.den <<< (2 * q.toNat)) <<< q.toNat : ℕ)
  else toFloat ((integerSqrt (n <<< (2 * (-q).toNat)) x.den : ℚ) / (1 <<< (-q).toNat : ℕ))

def stdev (xs : List FloatNum) : Except Raised FloatNum :=
  if xs.length < 2 then .error (.statistics "stdev requires at least two data points")
  else
    match xs.mapM finite? with
    | some qs => floatSqrt (Moments.powerSum 2 (Moments.deviations qs) / (qs.length - 1))
    -- the sum of squares is a float here, which has no numerator
    | none => .error .attribute

def zero : FloatNum := .fin 0

/-- `statistics.stdev(·) if len(·) > 1 else 0.0`. -/
def spread (xs : List FloatNum) : Except Raised FloatNum := if 1 < xs.length then stdev xs else .ok zero

/-- The best of `best` and the elements behind it: the first that no other `beats`. -/
def bestOf (beats : FloatNum → FloatNum → Bool) (best : FloatNum) (xs : List FloatNum) : FloatNum :=
  xs.foldl (fun best x => if beats x best then x else best) best

/-- `max` and `min`. -/
def extreme (beats : FloatNum → FloatNum → Bool) (name : String) : List FloatNum → Except Raised FloatNum
  | [] => .error (.value (name ++ "() iterable argument is empty"))
  | x :: xs => .ok (bestOf beats x xs)

def pyMax : List FloatNum → Except Raised FloatNum := extreme (fun x best => best.lt x) "max"

def pyMin : List FloatNum → Except Raised FloatNum := extreme (fun x best => x.lt best) "min"

inductive Metric where
  | std
  | range

/-- How far the numbers of a segment lie apart. -/
def Metric.deviation : Metric → List FloatNum → Except Raised FloatNum
  | .std, xs => spread xs
  | .range, xs => do
    let high ← pyMax xs
    let low ← pyMin xs
    .ok (sub high low)

/-- `xs[i:j]`. -/
def slice (xs : List FloatNum) (i j : ℤ) : List FloatNum := (xs.drop (place i)).take (place j - place i)
where
  place (i : ℤ) : ℕ := if i < 0 then (i + xs.length).toNat else i.toNat

/-! ## The scan -/

/-- The readings and the parameters. -/
structure Scan where
  values : List FloatNum
  windowSize : ℤ
  tolerance : FloatNum
  minDuration : ℤ
  metric : Metric

/-- An entry of `windows`. -/
structure Window where
  startIndex : ℤ
  endIndex : ℤ
  startRow : ℤ
  endRow : ℤ
  duration : ℤ
  mean : FloatNum
  std : FloatNum
  min : FloatNum
  max : FloatNum
  deriving DecidableEq

namespace Scan

variable (s : Scan)

/-- `n`. -/
def count : ℤ := s.values.length

/-- The deviation of `values[i:j]`. -/
def deviation (i j : ℤ) : Except Raised FloatNum := s.metric.deviation (slice s.values i j)

/-- The loop that extends the window from `i` to `e`, with so many readings left. -/
def extend (i : ℤ) : ℕ → ℤ → Except Raised ℤ
  | 0, e => .ok e
  | left + 1, e =>
    match s.deviation i (e + 1) with
    | .error raised => .error raised
    | .ok extended => if s.tolerance.lt extended then .ok e else extend i left (e + 1)

/-- The entry for `values[i:e]`. -/
def describe (i e : ℤ) : Except Raised Window := do
  let final := slice s.values i e
  let mean ← Steady.mean final
  let std ← spread final
  let min ← pyMin final
  let max ← pyMax final
  .ok { startIndex := i, endIndex := e - 1, startRow := i, endRow := e - 1, duration := e - i, mean, std, min, max }

/-- What becomes of `values[i:e]`, which cannot be extended. -/
def report (i e : ℤ) : Except Raised (List Window) :=
  if s.minDuration ≤ e - i then (s.describe i e).map (fun window => [window]) else .ok []

/-- One turn of the scan: what is reported, and the next index. -/
def turn (i : ℤ) : Except Raised (List Window × ℤ) :=
  match s.deviation i (i + s.windowSize) with
  | .error raised => .error raised
  | .ok deviation =>
    if le deviation s.tolerance then
      match s.extend i (s.count - (i + s.windowSize)).toNat (i + s.windowSize) with
      | .error raised => .error raised
      | .ok e => (s.report i e).map (fun windows => (windows, e))
    else .ok ([], i + 1)

/-- The scan from `i` on, for so many turns. -/
def scan : ℕ → ℤ → Option (Except Raised (List Window))
  | 0, _ => none
  | fuel + 1, i =>
    if i + s.windowSize ≤ s.count then
      match s.turn i with
      | .error raised => some (.error raised)
      | .ok (windows, next) => (scan fuel next).map (fun rest => rest.map (windows ++ ·))
    else some (.ok [])

/-! ## Segments -/

/-- The window at `i` is steady, and so is each of its extensions up to `e`. -/
structure Grows (i e : ℤ) : Prop where
  window : ∃ d, s.deviation i (i + s.windowSize) = .ok d ∧ le d s.tolerance = true
  first : i + s.windowSize ≤ e
  last : e ≤ s.count
  steady : ∀ j, i + s.windowSize < j → j ≤ e → ∃ d, s.deviation i j = .ok d ∧ s.tolerance.lt d = false

/-- The segment cannot be extended. -/
def Stops (i e : ℤ) : Prop := e = s.count ∨ ∃ d, s.deviation i (e + 1) = .ok d ∧ s.tolerance.lt d = true

/-- A maximal segment. -/
structure Run (i e : ℤ) : Prop extends s.Grows i e where
  stops : s.Stops i e

/-- The window at `i` is not steady. -/
def Rough (i : ℤ) : Prop := ∃ d, s.deviation i (i + s.windowSize) = .ok d ∧ le d s.tolerance = false

/-- Where the scan goes on from `i`. -/
def Goes (i next : ℤ) : Prop := i + s.windowSize ≤ s.count ∧ (s.Rough i ∧ next = i + 1 ∨ s.Run i next)

/-- The places that the scan comes to. -/
def Visited (i : ℤ) : Prop := Relation.ReflTransGen s.Goes 0 i

/-- The scan measures the deviation of `values[i:j]`. -/
inductive Measured : ℤ → ℤ → Prop where
  | window {i} (hvisited : s.Visited i) (hroom : i + s.windowSize ≤ s.count) : Measured i (i + s.windowSize)
  | longer {i e} (hvisited : s.Visited i) (hgrows : s.Grows i e) (hroom : e < s.count) : Measured i (e + 1)

/-- The scan finds a maximal segment, and it is long enough. -/
structure Reported (i e : ℤ) : Prop extends s.Run i e where
  visited : s.Visited i
  long : s.minDuration ≤ e - i

/-- No statistic of a segment that is looked at fails. -/
structure Defined : Prop where
  measured : ∀ i j, s.Measured i j → ∃ d, s.deviation i j = .ok d
  described : ∀ i e, s.Reported i e → ∃ window, s.describe i e = .ok window

variable {s} {i e next : ℤ}

/-- A window that is steady and goes up to `e` goes further if the next segment is steady. -/
theorem Grows.succ (h : s.Grows i e) (hroom : e < s.count) {d : FloatNum} (hd : s.deviation i (e + 1) = .ok d)
    (hlt : s.tolerance.lt d = false) : s.Grows i (e + 1) where
  window := h.window
  first := by have := h.first; omega
  last := by omega
  steady j hj hje := by
    rcases Int.lt_or_eq_of_le hje with hless | rfl
    · exact h.steady j hj (by omega)
    · exact ⟨d, hd, hlt⟩

theorem Grows.le_run (h : s.Grows i e) (hrun : s.Run i next) : e ≤ next := by
  by_contra hlonger
  rcases hrun.stops with hend | ⟨d, hd, hlt⟩
  · have := h.last
    omega
  · have hfirst := hrun.first
    obtain ⟨d', hd', hlt'⟩ := h.steady (next + 1) (by omega) (by omega)
    rw [hd] at hd'
    obtain rfl := Except.ok.inj hd'
    rw [hlt] at hlt'
    cases hlt'

theorem Run.unique (h : s.Run i e) (h' : s.Run i next) : e = next :=
  Int.le_antisymm (h.toGrows.le_run h') (h'.toGrows.le_run h)

/-- Behind a segment that is not the whole rest comes one with a deviation, if a maximal one exists. -/
theorem Grows.measurable (h : s.Grows i e) (hroom : e < s.count) (hrun : s.Run i next) :
    ∃ d, s.deviation i (e + 1) = .ok d := by
  have hfirst := h.first
  rcases Int.lt_or_eq_of_le (h.le_run hrun) with hless | rfl
  · obtain ⟨d, hd, -⟩ := hrun.steady (e + 1) (by omega) (by omega)
    exact ⟨d, hd⟩
  · rcases hrun.stops with hend | ⟨d, hd, -⟩
    · omega
    · exact ⟨d, hd⟩

theorem Rough.not_grows (h : s.Rough i) : ¬ s.Grows i e := by
  rintro ⟨⟨d, hd, hle⟩, -⟩
  obtain ⟨d', hd', hle'⟩ := h
  rw [hd] at hd'
  obtain rfl := Except.ok.inj hd'
  rw [hle] at hle'
  cases hle'

theorem Goes.unique {a b : ℤ} (ha : s.Goes i a) (hb : s.Goes i b) : a = b := by
  rcases ha.2 with ⟨hrough, rfl⟩ | hrun <;> rcases hb.2 with ⟨hrough', rfl⟩ | hrun'
  · rfl
  · exact absurd hrun'.toGrows hrough.not_grows
  · exact absurd hrun.toGrows hrough'.not_grows
  · exact hrun.unique hrun'

theorem run_of_extend : ∀ {left : ℕ} {e : ℤ}, (s.count - e).toNat = left → s.Grows i e →
    s.extend i left e = .ok next → s.Run i next
  | 0, e, hleft, hgrows, h => by
    obtain rfl := Except.ok.inj h
    have := hgrows.last
    exact ⟨hgrows, .inl (by omega)⟩
  | left + 1, e, hleft, hgrows, h => by
    rw [extend] at h
    split at h
    · cases h
    · next d hd =>
      split at h
      · next hlt =>
        obtain rfl := Except.ok.inj h
        exact ⟨hgrows, .inr ⟨d, hd, hlt⟩⟩
      · next hsteady =>
        exact run_of_extend (by omega) (hgrows.succ (by omega) hd (by simpa using hsteady)) h

theorem extend_total (hmeasured : ∀ e, s.Grows i e → e < s.count → ∃ d, s.deviation i (e + 1) = .ok d) :
    ∀ {left : ℕ} {e : ℤ}, (s.count - e).toNat = left → s.Grows i e → ∃ next, s.extend i left e = .ok next
  | 0, e, _, _ => ⟨e, rfl⟩
  | left + 1, e, hleft, hgrows => by
    obtain ⟨d, hd⟩ := hmeasured e hgrows (by omega)
    rw [extend, hd]
    dsimp only
    split
    · exact ⟨e, rfl⟩
    · next hsteady =>
      exact extend_total hmeasured (by omega) (hgrows.succ (by omega) hd (by simpa using hsteady))

/-- **What one turn does**: it goes on by one, or reports a maximal segment and goes on behind it. -/
theorem turn_cases (hroom : i + s.windowSize ≤ s.count) {windows : List Window} (h : s.turn i = .ok (windows, next)) :
    s.Goes i next ∧ (s.Rough i ∧ windows = [] ∨ s.Run i next ∧ s.report i next = .ok windows) := by
  unfold turn at h
  split at h
  · cases h
  · next d hd =>
    split at h
    · next hle =>
      have hgrows : s.Grows i (i + s.windowSize) := ⟨⟨d, hd, hle⟩, le_refl _, hroom, fun j _ _ => by omega⟩
      split at h
      · cases h
      · next e he =>
        have hrun := run_of_extend rfl hgrows he
        cases hreport : s.report i e with
        | error raised =>
          rw [hreport] at h
          cases h
        | ok reported =>
          rw [hreport] at h
          obtain ⟨rfl, rfl⟩ := Prod.mk.inj (Except.ok.inj h)
          exact ⟨⟨hroom, .inr hrun⟩, .inr ⟨hrun, hreport⟩⟩
    · next hle =>
      obtain ⟨rfl, rfl⟩ := Prod.mk.inj (Except.ok.inj h)
      have hrough : s.Rough i := ⟨d, hd, by simpa using hle⟩
      exact ⟨⟨hroom, .inl ⟨hrough, rfl⟩⟩, .inl ⟨hrough, rfl⟩⟩

theorem Defined.turn (h : s.Defined) (hvisited : s.Visited i) (hroom : i + s.windowSize ≤ s.count) :
    ∃ result, s.turn i = .ok result := by
  obtain ⟨d, hd⟩ := h.measured _ _ (.window hvisited hroom)
  unfold Scan.turn
  rw [hd]
  dsimp only
  split
  · next hle =>
    have hgrows : s.Grows i (i + s.windowSize) := ⟨⟨d, hd, hle⟩, le_refl _, hroom, fun j _ _ => by omega⟩
    obtain ⟨e, he⟩ := extend_total (fun e hg hless => h.measured _ _ (.longer hvisited hg hless)) rfl hgrows
    have hrun := run_of_extend rfl hgrows he
    rw [he]
    dsimp only
    unfold report
    split
    · next hlong =>
      obtain ⟨window, hwindow⟩ := h.described i e ⟨hrun, hvisited, hlong⟩
      rw [hwindow]
      exact ⟨_, rfl⟩
    · exact ⟨_, rfl⟩
  · exact ⟨_, rfl⟩

theorem defined_of_turns (h : ∀ i, s.Visited i → i + s.windowSize ≤ s.count → ∃ result, s.turn i = .ok result) :
    s.Defined := by
  refine ⟨fun i j hmeasured => ?_, fun i e hreported => ?_⟩
  · cases hmeasured with
    | window hvisited hroom =>
      obtain ⟨⟨windows, next⟩, hturn⟩ := h i hvisited hroom
      rcases (turn_cases hroom hturn).2 with ⟨⟨d, hd, -⟩, -⟩ | ⟨hrun, -⟩
      · exact ⟨d, hd⟩
      · obtain ⟨d, hd, -⟩ := hrun.window
        exact ⟨d, hd⟩
    | longer hvisited hgrows hroom =>
      have hfirst := hgrows.first
      obtain ⟨⟨windows, next⟩, hturn⟩ := h i hvisited (by omega)
      rcases (turn_cases (by omega) hturn).2 with ⟨hrough, -⟩ | ⟨hrun, -⟩
      · exact absurd hgrows hrough.not_grows
      · exact hgrows.measurable hroom hrun
  · have hfirst := hreported.first
    have hlast := hreported.last
    obtain ⟨⟨windows, next⟩, hturn⟩ := h i hreported.visited (by omega)
    rcases (turn_cases (by omega) hturn).2 with ⟨hrough, -⟩ | ⟨hrun, hreport⟩
    · exact absurd hreported.toGrows hrough.not_grows
    · obtain rfl := hreported.toRun.unique hrun
      rw [report, if_pos hreported.long] at hreport
      cases hdescribe : s.describe i e with
      | ok window => exact ⟨window, rfl⟩
      | error raised =>
        rw [hdescribe] at hreport
        cases hreport

theorem scan_succ {fuel : ℕ} {windows : List Window} (h : s.scan (fuel + 1) i = some (.ok windows)) :
    s.count < i + s.windowSize ∧ windows = [] ∨
      i + s.windowSize ≤ s.count ∧ ∃ first next rest, s.turn i = .ok (first, next) ∧
        s.scan fuel next = some (.ok rest) ∧ windows = first ++ rest := by
  rw [scan] at h
  split at h
  · next hroom =>
    split at h
    · cases h
    · next first next hturn =>
      obtain ⟨result, hrest, hmap⟩ := Option.map_eq_some_iff.mp h
      cases result with
      | error raised => cases hmap
      | ok rest =>
        exact .inr ⟨hroom, first, next, rest, hturn, hrest, (Except.ok.inj hmap).symm⟩
  · next hroom => exact .inl ⟨by omega, (Except.ok.inj (Option.some.inj h)).symm⟩

theorem turns_of_scan : ∀ {fuel : ℕ} {i : ℤ} {windows : List Window}, s.scan fuel i = some (.ok windows) →
    ∀ j, Relation.ReflTransGen s.Goes i j → j + s.windowSize ≤ s.count → ∃ result, s.turn j = .ok result
  | 0, _, _, h => nomatch h
  | fuel + 1, i, windows, h => by
    intro j hj hroom
    rcases scan_succ h with ⟨hend, -⟩ | ⟨hstart, first, next, rest, hturn, hrest, -⟩
    · rcases hj.cases_head with rfl | ⟨k, hk, -⟩
      · omega
      · have := hk.1
        omega
    · rcases hj.cases_head with rfl | ⟨k, hk, hkj⟩
      · exact ⟨_, hturn⟩
      · obtain rfl := hk.unique (turn_cases hstart hturn).1
        exact turns_of_scan hrest j hkj hroom

end Scan

/-! ## Its end -/

theorem le_trans' {a b c : FloatNum} (hab : le a b = true) (hbc : le b c = true) : le a c = true := by
  cases a with
  | nan => cases hab
  | val x =>
    cases b with
    | nan => cases hab
    | val y =>
      cases c with
      | nan => cases hbc
      | val z => exact decide_eq_true ((of_decide_eq_true hab).trans (of_decide_eq_true hbc))

theorem toFloat_nonneg {q : ℚ} (hq : 0 ≤ q) {d : FloatNum} (h : toFloat q = .ok d) : ∃ r : ℚ, d = .fin r ∧ 0 ≤ r := by
  have hround : 0 ≤ binary64.round q := by
    have hscale : (0 : ℚ) < 2 ^ binary64.exponent q := two_zpow_pos _
    refine mul_nonneg ?_ hscale.le
    have hfloor : 0 ≤ ⌊q / 2 ^ binary64.exponent q⌋ := Int.floor_nonneg.mpr (div_nonneg hq hscale.le)
    exact_mod_cast hfloor.trans (floor_le_roundEven _).1
  unfold toFloat at h
  split at h
  · next hfinite =>
    obtain rfl := Except.ok.inj h
    unfold FloatFormat.ofRat at hfinite ⊢
    split at hfinite
    · cases hfinite
    · next hhigh =>
      rw [if_neg hhigh]
      split at hfinite
      · cases hfinite
      · next hlow =>
        rw [if_neg hlow]
        exact ⟨_, rfl, hround⟩
  · cases h

theorem spread_spec {xs : List FloatNum} {d : FloatNum} (h : spread xs = .ok d) : ∃ r : ℚ, d = .fin r ∧ 0 ≤ r := by
  unfold spread at h
  split at h
  · unfold stdev at h
    split at h
    · cases h
    · split at h
      · unfold floatSqrt at h
        dsimp only at h
        split at h
        · exact toFloat_nonneg (Nat.cast_nonneg _) h
        · exact toFloat_nonneg (by positivity) h
      · cases h
  · obtain rfl := Except.ok.inj h
    exact ⟨0, rfl, le_refl _⟩

theorem le_zero_fin {r : ℚ} (h : 0 ≤ r) : le zero (.fin r) = true := by
  refine decide_eq_true ?_
  rw [WithBot.coe_le_coe, WithTop.coe_le_coe]
  exact h

namespace Scan

variable {s : Scan} {i next : ℤ}

theorem slice_end (hend : i + s.windowSize = s.count) (hsize : s.windowSize ≤ 0) :
    slice s.values i (i + s.windowSize) = [] := by
  have hlength : s.count = s.values.length := rfl
  unfold slice slice.place
  rw [List.drop_eq_nil_of_le, List.take_nil]
  split <;> omega

/-- No window without readings is in order, unless the tolerance is negative and standard deviations are compared. -/
def Empty (s : Scan) : Prop := s.windowSize ≤ 0 ∧ (s.metric = .range ∨ le zero s.tolerance = true)

theorem Empty.turn (h : s.Empty) (hroom : i + s.windowSize ≤ s.count) {windows : List Window}
    (hturn : s.turn i = .ok (windows, next)) : next + s.windowSize ≤ s.count := by
  obtain ⟨hsize, hmetric⟩ := h
  rcases (turn_cases hroom hturn).1.2 with ⟨⟨d, hd, hle⟩, rfl⟩ | hrun
  · rcases Int.lt_or_eq_of_le hroom with hless | hend
    · omega
    · -- the window behind the last reading is empty
      rw [deviation, slice_end hend hsize] at hd
      cases hm : s.metric with
      | range =>
        rw [hm] at hd
        cases hd
      | std =>
        rw [hm] at hd
        obtain rfl := Except.ok.inj hd
        rw [hmetric.resolve_left (by simp [hm])] at hle
        cases hle
  · have := hrun.last
    omega

theorem Empty.not_scan (h : s.Empty) :
    ∀ {fuel : ℕ} {i : ℤ} {windows : List Window}, i + s.windowSize ≤ s.count → s.scan fuel i ≠ some (.ok windows)
  | 0, _, _, _ => nofun
  | fuel + 1, i, windows, hroom => by
    intro hscan
    rcases scan_succ hscan with ⟨hend, -⟩ | ⟨-, first, next, rest, hturn, hrest, -⟩
    · omega
    · exact h.not_scan (h.turn hroom hturn) hrest

theorem Goes.lt (hempty : ¬ s.Empty) (h : s.Goes i next) : i < next := by
  rcases h.2 with ⟨-, rfl⟩ | hrun
  · exact Int.lt_succ i
  · have hfirst := hrun.first
    by_cases hsize : s.windowSize ≤ 0
    · exfalso
      obtain ⟨d, hd, hle⟩ := hrun.window
      refine hempty ⟨hsize, ?_⟩
      cases hm : s.metric with
      | range => exact .inl rfl
      | std =>
        rw [deviation, hm] at hd
        obtain ⟨r, rfl, hr⟩ := spread_spec hd
        exact .inr (le_trans' (le_zero_fin hr) hle)
    · omega

/-- The scan ends, its index increases in every turn, and no exception escapes. -/
structure Ends (s : Scan) : Prop where
  returns : ∃ fuel windows, s.scan fuel 0 = some (.ok windows)
  increases : ∀ i windows next, s.Visited i → i + s.windowSize ≤ s.count → s.turn i = .ok (windows, next) → i < next

theorem returns_of_defined (hempty : ¬ s.Empty) (hdefined : s.Defined) :
    ∀ (left : ℕ) {i : ℤ}, s.Visited i → (s.count - s.windowSize + 1 - i).toNat ≤ left →
      ∃ fuel windows, s.scan fuel i = some (.ok windows) := by
  intro left
  induction left with
  | zero =>
    intro i _ hleft
    refine ⟨1, [], ?_⟩
    rw [scan, if_neg (by omega)]
  | succ left ih =>
    intro i hvisited hleft
    by_cases hroom : i + s.windowSize ≤ s.count
    · obtain ⟨⟨windows, next⟩, hturn⟩ := hdefined.turn hvisited hroom
      have hgoes := (turn_cases hroom hturn).1
      have hlt := hgoes.lt hempty
      obtain ⟨fuel, rest, hrest⟩ := ih (hvisited.tail hgoes) (by omega)
      refine ⟨fuel + 1, windows ++ rest, ?_⟩
      rw [scan, if_pos hroom, hturn]
      dsimp only
      rw [hrest]
      rfl
    · refine ⟨1, [], ?_⟩
      rw [scan, if_neg hroom]

/-- **When the scan ends**: windows have readings, or standard deviations are compared with what is no number from zero
on; and no statistic of a segment that is looked at fails. -/
theorem ends_iff (s : Scan) :
    s.Ends ↔ (0 < s.windowSize ∨ s.metric = .std ∧ le zero s.tolerance = false) ∧ s.Defined := by
  have hempty : (0 < s.windowSize ∨ s.metric = .std ∧ le zero s.tolerance = false) ↔ ¬ s.Empty := by
    unfold Empty
    cases s.metric <;> simp [or_iff_not_imp_left]
  rw [hempty]
  constructor
  · rintro ⟨⟨fuel, windows, hscan⟩, -⟩
    refine ⟨fun h => ?_, defined_of_turns (turns_of_scan hscan)⟩
    have hsize := h.1
    have : 0 ≤ s.count := Int.natCast_nonneg _
    exact h.not_scan (by omega) hscan
  · rintro ⟨hempty, hdefined⟩
    refine ⟨returns_of_defined hempty hdefined _ .refl (le_refl _), fun i windows next _ hroom hturn => ?_⟩
    exact (turn_cases hroom hturn).1.lt hempty

/-- A window of no readings is as good as any, and is found again and again. -/
theorem no_end_without_readings : ¬ (Scan.mk [] 0 zero 1 .std).Ends := by
  rintro ⟨⟨fuel, windows, hscan⟩, -⟩
  exact Empty.not_scan ⟨le_refl _, .inr (le_zero_fin (le_refl _))⟩ (by decide) hscan

end Scan

end Irip.Transform.Steady
