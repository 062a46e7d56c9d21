import Irip.Base.Eval
import Irip.Common.PyText

/-!
# `Facts.Quality` — the quality rules of particle sizes, and the engine that runs them

An assessment is as bad as the worst of the results of its rules.
-/

namespace Irip.Facts.Quality

open Evaluation (bind_ok_iff mapM_ok_iff mapM_error_iff exists_of_forall₂)

/-! ## Results -/

inductive QualityLevel where
  | q0
  | q1
  | q2
  | q3
  deriving DecidableEq

inductive Status where
  | passed
  | warning
  | blocked
  deriving DecidableEq

/-- How bad a status is. -/
def Status.rank : Status → Nat
  | .passed => 0
  | .warning => 1
  | .blocked => 2

/-- What a result rests on: a list of names, or named numbers, under a name or not. -/
inductive Evidence where
  | names (key : String) (names : List String)
  | numbers (numbers : List (String × FloatNum))
  | under (key : String) (numbers : List (String × FloatNum))

structure QualityResult where
  level : QualityLevel
  code : String
  status : Status
  evidence : Evidence

/-- How many results have each status. -/
structure Summary where
  passed : Nat
  warning : Nat
  blocked : Nat

structure QualityAssessment where
  results : List QualityResult
  overallStatus : Status
  summary : Summary

/-- The values of the fields. -/
abbrev Observations := List (String × Json)

/-! ## Engine -/

/-- A rule; it does not apply where it gives nothing. -/
structure QualityRule where
  code : String
  level : QualityLevel
  evaluate : Observations → Except FloatError (Option QualityResult)

def overall (statuses : List Status) : Status :=
  if .blocked ∈ statuses then .blocked
  else if .warning ∈ statuses then .warning
  else .passed

def summarize (statuses : List Status) : Summary :=
  { passed := statuses.count .passed
    warning := statuses.count .warning
    blocked := statuses.count .blocked }

def evaluate (rules : List QualityRule) (observations : Observations) : Except FloatError QualityAssessment := do
  let results ← rules.mapM (fun rule => rule.evaluate observations)
  let results := results.filterMap id
  let statuses := results.map QualityResult.status
  return { results := results, overallStatus := overall statuses, summary := summarize statuses }

/-- No result is worse than the status, and it is the status of a result, or nothing was found. -/
structure Worst (results : List QualityResult) (status : Status) : Prop where
  bound : ∀ r ∈ results, r.status.rank ≤ status.rank
  attained : (∃ r ∈ results, r.status = status) ∨ results = [] ∧ status = .passed

theorem worst_overall (results : List QualityResult) : Worst results (overall (results.map QualityResult.status)) := by
  unfold overall
  constructor
  · intro r hr
    have hmem : r.status ∈ results.map QualityResult.status := List.mem_map_of_mem hr
    split
    · cases r.status <;> decide
    · next hblocked =>
        cases hstatus : r.status with
        | passed => exact Nat.zero_le _
        | warning => rw [if_pos (hstatus ▸ hmem)]
        | blocked => exact absurd (hstatus ▸ hmem) hblocked
  · split
    · next hblocked => exact .inl (List.mem_map.mp hblocked)
    · next hblocked =>
        split
        · next hwarning => exact .inl (List.mem_map.mp hwarning)
        · next hwarning =>
            cases results with
            | nil => exact .inr ⟨rfl, rfl⟩
            | cons r rs =>
              refine .inl ⟨r, List.mem_cons_self, ?_⟩
              cases hstatus : r.status with
              | passed => rfl
              | warning => exact absurd (List.mem_map.mpr ⟨r, List.mem_cons_self, hstatus⟩) hwarning
              | blocked => exact absurd (List.mem_map.mpr ⟨r, List.mem_cons_self, hstatus⟩) hblocked

variable {observations : Observations} {rules : List QualityRule}

/-- **The overall status is the worst** of the results, whatever the rules are. -/
theorem evaluate_worst {assessment : QualityAssessment}
    (h : evaluate rules observations = .ok assessment) : Worst assessment.results assessment.overallStatus := by
  obtain ⟨results, _, h⟩ := bind_ok_iff.mp h
  obtain rfl := Except.ok.inj h
  exact worst_overall _

theorem evaluate_returns : (∃ assessment, evaluate rules observations = .ok assessment) ↔
      ∀ rule ∈ rules, ∃ result, rule.evaluate observations = .ok result := by
  constructor
  · rintro ⟨_, h⟩ rule hrule
    obtain ⟨results, hresults, _⟩ := bind_ok_iff.mp h
    obtain ⟨result, _, hresult⟩ := exists_of_forall₂ (mapM_ok_iff.mp hresults) hrule
    exact ⟨result, hresult⟩
  · intro h
    cases hresults : rules.mapM (fun rule => rule.evaluate observations) with
    | error e =>
      obtain ⟨as, rule, bs, _, rfl, _, hrule⟩ := mapM_error_iff.mp hresults
      obtain ⟨_, hok⟩ := h rule (List.mem_append_right as List.mem_cons_self)
      rw [hrule] at hok
      cases hok
    | ok results => exact ⟨_, bind_ok_iff.mpr ⟨results, hresults, rfl⟩⟩

/-- A rule has a result that blocks. -/
def Blocks (rule : QualityRule) (observations : Observations) : Prop :=
  ∃ result, rule.evaluate observations = .ok (some result) ∧ result.status = .blocked

theorem evaluate_blocked {assessment : QualityAssessment} (h : evaluate rules observations = .ok assessment) :
    assessment.overallStatus = .blocked ↔ ∃ rule ∈ rules, Blocks rule observations := by
  obtain ⟨results, hresults, h⟩ := bind_ok_iff.mp h
  obtain rfl := Except.ok.inj h
  have hrules := mapM_ok_iff.mp hresults
  have hstatus : overall ((results.filterMap id).map QualityResult.status) = .blocked ↔
      ∃ result, some result ∈ results ∧ result.status = .blocked := by
    have hmem : .blocked ∈ (results.filterMap id).map QualityResult.status ↔
        ∃ result, some result ∈ results ∧ result.status = .blocked := by
      simp [List.mem_map]
    unfold overall
    split
    · next hblocked => exact ⟨fun _ => hmem.mp hblocked, fun _ => rfl⟩
    · next hblocked =>
        constructor
        · intro heq
          split at heq <;> cases heq
        · intro hex
          exact absurd (hmem.mpr hex) hblocked
  show overall _ = _ ↔ _
  rw [hstatus]
  constructor
  · rintro ⟨result, hmem, hblocked⟩
    obtain ⟨rule, hrule, hresult⟩ := exists_of_forall₂ hrules.flip hmem
    exact ⟨rule, hrule, result, hresult, hblocked⟩
  · rintro ⟨rule, hrule, result, hresult, hblocked⟩
    obtain ⟨found, hmem, hfound⟩ := exists_of_forall₂ hrules hrule
    rw [hresult] at hfound
    obtain rfl := Except.ok.inj hfound
    exact ⟨result, hmem, hblocked⟩

/-! ## Rules -/

/-- A number that is asked for in a `try`: a `TypeError` and a `ValueError` are nothing. -/
def attempt : Except FloatError FloatNum → Except FloatError (Option FloatNum)
  | .ok x => .ok (some x)
  | .error .typeError => .ok none
  | .error .valueError => .ok none
  | .error e => .error e

def floatOrNone (v : Json) : Except FloatError (Option FloatNum) := attempt (pyFloat v)

/-- The number of a value that may be missing. -/
def presentNumber : Json → Except FloatError (Option FloatNum)
  | .null => .ok none
  | v => floatOrNone v

/-- The number of the first field of the two that is not null. -/
def firstNumber (observations : Observations) (first second : String) : Except FloatError (Option FloatNum) :=
  match Json.get observations first with
  | .null => presentNumber (Json.get observations second)
  | v => floatOrNone v

def getQuantile (observations : Observations) (name : String) : Except FloatError (Option FloatNum) :=
  firstNumber observations (name ++ "_um") (name ++ "_mm")

/-- `a <= b`. -/
def le (a b : FloatNum) : Bool := a.lt b || (a == b && a != .nan)

def zero : FloatNum := .fin 0

/-- `RequiredFieldRule`. -/
def requiredField : QualityRule where
  code := "required_field_missing"
  level := .q0
  evaluate observations := do
    let d10 ← getQuantile observations "d10"
    let d50 ← getQuantile observations "d50"
    let d90 ← getQuantile observations "d90"
    match d10, d50, d90 with
    | some x, some y, some z =>
      return some { level := .q0, code := "required_field_missing", status := .passed,
                    evidence := .numbers [("d10", x), ("d50", y), ("d90", z)] }
    | _, _, _ =>
      let missing := [("d10", d10), ("d50", d50), ("d90", d90)].filterMap (fun q => if q.2.isNone then some q.1 else none)
      return some { level := .q0, code := "required_field_missing", status := .blocked,
                    evidence := .names "missing_fields" missing }

/-- The fields whose numbers have to be positive, with the numbers they have. -/
def fieldsToCheck (observations : Observations) : Except FloatError (List (String × FloatNum)) := do
  let d10 ← getQuantile observations "d10"
  let d50 ← getQuantile observations "d50"
  let d90 ← getQuantile observations "d90"
  let surface ← presentNumber (Json.get observations "specific_surface")
  return [("d10_um", d10), ("d50_um", d50), ("d90_um", d90), ("specific_surface", surface)].filterMap
    (fun q => q.2.map (fun x => (q.1, x)))

/-- `PositiveValueRule`. -/
def positiveValue : QualityRule where
  code := "positive_value"
  level := .q1
  evaluate observations := do
    let fields ← fieldsToCheck observations
    if fields.isEmpty then return none
    else
      let nonPositive := fields.filter (fun q => le q.2 zero)
      if nonPositive.isEmpty then
        return some { level := .q1, code := "positive_value", status := .passed,
                      evidence := .names "checked" (fields.map Prod.fst) }
      else
        return some { level := .q1, code := "positive_value", status := .blocked,
                      evidence := .under "non_positive" nonPositive }

def threshold : FloatNum := .fin 3

/-- `MoistureRangeRule`. -/
def moistureRange : QualityRule where
  code := "moisture_range"
  level := .q1
  evaluate observations := do
    match ← firstNumber observations "moisture_pct" "moisture" with
    | none => return none
    | some moisture =>
      return some { level := .q1, code := "moisture_range", status := if threshold.lt moisture then .warning else .passed,
                    evidence := .numbers [("moisture", moisture), ("threshold", threshold)] }

/-- `ParticleQuantileOrderRule`. -/
def particleQuantileOrder : QualityRule where
  code := "particle_quantile_order"
  level := .q2
  evaluate observations := do
    let d10 ← getQuantile observations "d10"
    let d50 ← getQuantile observations "d50"
    let d90 ← getQuantile observations "d90"
    match d10, d50, d90 with
    | some x, some y, some z =>
      return some { level := .q2, code := "particle_quantile_order", status := if x.lt y && y.lt z then .passed else .blocked,
                    evidence := .numbers [("d10", x), ("d50", y), ("d90", z)] }
    | _, _, _ => return none

def defaultRules : List QualityRule := [requiredField, positiveValue, moistureRange, particleQuantileOrder]

end Irip.Facts.Quality
