import Irip.Base.Loop
import Irip.Common
import Irip.Execution.Dag
import Irip.Research.StateMachine

/-!
# `Execution.Eligibility` — the check before a result is published

The check collects what the requested steps depend on, over dictionaries made from the step rows, and asks that all of it
has succeeded. It does not look at the requested steps themselves.
-/

namespace Irip.Execution

/-! ## The closure -/

/-- The variables of `_get_dependency_closure`; the top of the stack comes first. -/
structure Walk where
  stack : List String
  visited : List String

section Closure

variable (depMap : Dict String (List String))

/-- One turn of the loop; there is none when the stack is empty. -/
def pop (w : Walk) : Option Walk :=
  match w.stack with
  | [] => none
  | current :: stack =>
    if current ∈ w.visited then some { w with stack := stack }
    else some { stack := (depMap.getD current []).reverse ++ stack, visited := w.visited ++ [current] }

/-- The steps with dependencies that have not been visited. -/
def Walk.unvisited (w : Walk) : Nat := (depMap.keys.filter (fun k => k ∉ w.visited)).length

variable {depMap}

theorem pop_decreases {w w' : Walk} (h : pop depMap w = some w') :
    w'.unvisited depMap < w.unvisited depMap ∨
      w'.unvisited depMap = w.unvisited depMap ∧ w'.stack.length < w.stack.length := by
  unfold pop at h
  split at h
  · cases h
  · next current stack hstack =>
      split at h
      · obtain rfl := Option.some.inj h
        refine .inr ⟨rfl, ?_⟩
        rw [hstack]
        exact Nat.lt_succ_self _
      · next hnew =>
          obtain rfl := Option.some.inj h
          by_cases hkey : current ∈ depMap.keys
          · refine .inl ?_
            -- the key drops out of the filter
            unfold Walk.unvisited
            have hsplit : depMap.keys.filter (fun k => k ∉ w.visited ++ [current])
                = (depMap.keys.filter (fun k => k ∉ w.visited)).filter (fun k => k ≠ current) := by
              rw [List.filter_filter]
              refine List.filter_congr (fun k _ => ?_)
              simp [and_comm]
            rw [hsplit, List.length_filter_lt_length_iff_exists]
            exact ⟨current, List.mem_filter.mpr ⟨hkey, by simpa using hnew⟩, by simp⟩
          · refine .inr ⟨?_, ?_⟩
            · unfold Walk.unvisited
              refine congrArg List.length (List.filter_congr (fun k hk => ?_))
              have hne : k ≠ current := fun heq => hkey (heq ▸ hk)
              simp [hne]
            · -- a step that is not in the dictionary has no dependencies
              have hnone : depMap.getD current [] = [] := by
                unfold Dict.getD
                rw [Dict.get?_eq_none_iff.mpr hkey]
                rfl
              rw [hstack, hnone]
              exact Nat.lt_succ_self _

/-- **The loop ends on every dictionary of dependencies**, whatever it starts from. -/
theorem pop_ends (depMap : Dict String (List String)) : Loop.Ends (pop depMap) :=
  Loop.ends_of_decreases (Walk.unvisited depMap) (fun w => w.stack.length) pop_decreases

variable (depMap)

def getDependencyClosure (stepKey : String) : List String :=
  (Loop.run (pop_ends depMap) { stack := (depMap.getD stepKey []).reverse, visited := [] }).visited

/-- A step depends on another one directly. -/
def Needs (k d : String) : Prop := d ∈ depMap.getD k []

/-- What has been visited or waits is reached from the step, and nothing that is needed has been lost. -/
structure Walking (start : String) (w : Walk) : Prop where
  sound : ∀ d, d ∈ w.visited ∨ d ∈ w.stack → Relation.TransGen (Needs depMap) start d
  direct : ∀ d, Needs depMap start d → d ∈ w.visited ∨ d ∈ w.stack
  closed : ∀ k ∈ w.visited, ∀ d, Needs depMap k d → d ∈ w.visited ∨ d ∈ w.stack

variable {depMap}

theorem Walking.pop {start : String} {w w' : Walk} (hw : Walking depMap start w) (h : pop depMap w = some w') :
    Walking depMap start w' := by
  unfold Execution.pop at h
  split at h
  · cases h
  · next current stack hstack =>
      split at h
      · next hseen =>
          obtain rfl := Option.some.inj h
          refine ⟨fun d hd => hw.sound d ?_, fun d hd => ?_, fun k hk d hd => ?_⟩
          · grind
          · have := hw.direct d hd
            grind
          · have := hw.closed k hk d hd
            grind
      · obtain rfl := Option.some.inj h
        have hcurrent := hw.sound current (.inr (by rw [hstack]; exact List.mem_cons_self))
        refine ⟨fun d hd => ?_, fun d hd => ?_, fun k hk d hd => ?_⟩
        · simp only [List.mem_append, List.mem_singleton, List.mem_reverse] at hd
          rcases hd with (hd | rfl) | hd | hd
          · exact hw.sound d (.inl hd)
          · exact hcurrent
          · exact hcurrent.tail hd
          · exact hw.sound d (.inr (by rw [hstack]; exact List.mem_cons_of_mem _ hd))
        · have := hw.direct d hd
          grind
        · rcases List.mem_append.mp hk with hk | hk
          · have := hw.closed k hk d hd
            grind
          · rw [List.mem_singleton.mp hk] at hd
            exact .inr (List.mem_append_left _ (List.mem_reverse.mpr hd))

/-- **The closure of a step** is what it is led to by one dependency after another. -/
theorem mem_getDependencyClosure_iff (k d : String) :
    d ∈ getDependencyClosure depMap k ↔ Relation.TransGen (Needs depMap) k d := by
  have hstart : Walking depMap k { stack := (depMap.getD k []).reverse, visited := [] } := by
    refine ⟨fun d hd => ?_, fun d hd => ?_, List.forall_mem_nil _⟩
    · exact .single (List.mem_reverse.mp (hd.resolve_left List.not_mem_nil))
    · exact .inr (List.mem_reverse.mpr hd)
  obtain ⟨hw, hnone⟩ := Loop.run_spec (pop_ends depMap) (fun hpop h => Walking.pop h hpop) hstart
  unfold getDependencyClosure
  generalize Loop.run (pop_ends depMap) { stack := (depMap.getD k []).reverse, visited := [] } = w at hw hnone
  -- no turn is left, so the stack is empty
  have hstack : w.stack = [] := by
    unfold pop at hnone
    split at hnone
    · assumption
    · split at hnone
      · cases hnone
      · cases hnone
  have hend : ∀ x, x ∈ w.visited ∨ x ∈ w.stack → x ∈ w.visited := by
    intro x hx
    rw [hstack] at hx
    exact hx.resolve_right List.not_mem_nil
  constructor
  · exact fun hd => hw.sound d (.inl hd)
  · intro hpath
    induction hpath with
    | single hd => exact hend _ (hw.direct _ hd)
    | tail _ hd ih => exact hend _ (hw.closed _ ih _ hd)

end Closure

/-! ## The check -/

structure EligibilityResult where
  isEligible : Bool
  failedStepKeys : List String := []
  sourceRunPartial : Bool := false
  message : String := ""
deriving DecidableEq

def stepStatusMap (steps : List StepRow) : Dict String StepStatus :=
  Dict.ofList (steps.map (fun s => (s.stepKey, s.status)))

def stepDepMap (steps : List StepRow) : Dict String (List String) :=
  Dict.ofList (steps.map (fun s => (s.stepKey, s.dependsOn)))

/-- `target_keys`: the requested ones, or without a request those that have succeeded. -/
def targetKeys (steps : List StepRow) (stepKeys : List String) : List String :=
  if stepKeys = [] then (stepStatusMap steps).keys.filter (fun k => (stepStatusMap steps).get? k = some .succeeded)
  else stepKeys.eraseDups

def failedDeps (steps : List StepRow) (stepKeys : List String) : List String :=
  (targetKeys steps stepKeys).flatMap (fun key =>
    (getDependencyClosure (stepDepMap steps) key).filter (fun depKey =>
      (stepStatusMap steps).getD depKey .pending ≠ .succeeded))

open Research (RunStatus)

/-- The run can be a source of a publication. -/
def publishable (status : RunStatus) : Bool := status ∈ [RunStatus.succeeded, .partiallySucceeded]

/-- `check_publish_eligibility`, given what the session finds: the status of the run and its step rows. No list of step
keys and an empty one mean the same. -/
def checkPublishEligibility (runId : Uuid) (run : Option RunStatus) (steps : List StepRow) (stepKeys : List String) :
    Except AppError EligibilityResult :=
  match run with
  | none => .error { code := "not_found", message := "分析 Run 不存在", fields := [("run_id", .str runId)] }
  | some .cancelled => .ok { isEligible := false, message := "已取消的 Run 不允许发布" }
  | some status =>
    let failed := failedDeps steps stepKeys
    let isPartial := decide (status = .partiallySucceeded)
    let isEligible := failed.length == 0 && publishable status
    .ok { isEligible := isEligible, failedStepKeys := failed.eraseDups, sourceRunPartial := isPartial,
          message :=
            if !isEligible then
              if failed ≠ [] then "依赖闭包不完整，存在失败步骤" else "Run 状态为 " ++ status.value ++ "，不可发布"
            else if isPartial then "可发布（源 Run 部分成功，仅发布成功步骤输出）"
            else "可发布" }

/-! ## Soundness -/

/-- The row that stands for a key: of several the last one. -/
def stepAt (steps : List StepRow) (k : String) : Option StepRow := steps.reverse.find? (fun s => s.stepKey = k)

/-- The step exists and has succeeded. -/
def Succeeded (steps : List StepRow) (k : String) : Prop := ∃ s, stepAt steps k = some s ∧ s.status = .succeeded

/-- A step depends on another one, directly or through others. -/
def ReliesOn (steps : List StepRow) : String → String → Prop :=
  Relation.TransGen (fun k d => ∃ s, stepAt steps k = some s ∧ d ∈ s.dependsOn)

/-- The steps a request asks about: without any, all that have succeeded. -/
def Asked (steps : List StepRow) (stepKeys : List String) (k : String) : Prop :=
  if stepKeys = [] then Succeeded steps k else k ∈ stepKeys

/-- A positive answer is given only where every requested step and all it depends on exist and have succeeded; and the
closure is computed in finitely many turns on every dictionary. -/
structure EligibilitySound (runId : Uuid) (run : Option RunStatus) (steps : List StepRow) (stepKeys : List String) :
    Prop where
  terminates : ∀ depMap, Loop.Ends (pop depMap)
  sound : ∀ result, checkPublishEligibility runId run steps stepKeys = .ok result → result.isEligible = true →
    ∀ k, Asked steps stepKeys k → Succeeded steps k ∧ ∀ d, ReliesOn steps k d → Succeeded steps d

section Soundness

variable {steps : List StepRow} {stepKeys : List String} {k d : String}

theorem get?_ofRows {α : Type} (f : StepRow → α) (steps : List StepRow) (k : String) :
    (Dict.ofList (steps.map (fun s => (s.stepKey, f s)))).get? k = (stepAt steps k).map f := by
  rw [Dict.get?_ofList, ← List.map_reverse, List.find?_map, Option.map_map]
  rfl

theorem succeeded_iff : Succeeded steps k ↔ (stepStatusMap steps).get? k = some .succeeded := by
  rw [stepStatusMap, get?_ofRows, Option.map_eq_some_iff]
  rfl

theorem needs_iff : Needs (stepDepMap steps) k d ↔ ∃ s, stepAt steps k = some s ∧ d ∈ s.dependsOn := by
  unfold Needs stepDepMap Dict.getD
  rw [get?_ofRows]
  cases hstep : stepAt steps k with
  | none => simp
  | some s => simp

theorem mem_closure_iff : d ∈ getDependencyClosure (stepDepMap steps) k ↔ ReliesOn steps k d := by
  rw [mem_getDependencyClosure_iff]
  unfold ReliesOn
  have hsame : Needs (stepDepMap steps) = fun k d => ∃ s, stepAt steps k = some s ∧ d ∈ s.dependsOn := by
    funext k d
    exact propext needs_iff
  rw [hsame]

theorem mem_targetKeys_iff : k ∈ targetKeys steps stepKeys ↔ Asked steps stepKeys k := by
  unfold targetKeys Asked
  split
  · rw [List.mem_filter, succeeded_iff, decide_eq_true_iff]
    exact ⟨fun h => h.2, fun h => ⟨Dict.mem_keys_iff.mpr ⟨_, h⟩, h⟩⟩
  · exact List.mem_eraseDups

theorem failedDeps_eq_nil_iff :
    failedDeps steps stepKeys = [] ↔ ∀ k, Asked steps stepKeys k → ∀ d, ReliesOn steps k d → Succeeded steps d := by
  unfold failedDeps
  rw [List.flatMap_eq_nil_iff]
  constructor
  · intro hall k hk d hd
    have hnone := List.filter_eq_nil_iff.mp (hall k (mem_targetKeys_iff.mpr hk)) d (mem_closure_iff.mpr hd)
    rw [succeeded_iff]
    unfold Dict.getD at hnone
    cases hstatus : (stepStatusMap steps).get? d with
    | none => simp [hstatus] at hnone
    | some status => simpa [hstatus] using hnone
  · intro hall k hk
    refine List.filter_eq_nil_iff.mpr (fun d hd => ?_)
    have hsucceeded := succeeded_iff.mp (hall k (mem_targetKeys_iff.mp hk) d (mem_closure_iff.mp hd))
    unfold Dict.getD
    simp [hsucceeded]

/-- The answer is positive for a publishable run of whose requested steps all dependencies have succeeded. -/
theorem eligible_iff (runId : Uuid) (run : Option RunStatus) :
    (∃ result, checkPublishEligibility runId run steps stepKeys = .ok result ∧ result.isEligible = true) ↔
      (∃ status, run = some status ∧ publishable status = true) ∧
        ∀ k, Asked steps stepKeys k → ∀ d, ReliesOn steps k d → Succeeded steps d := by
  rw [← failedDeps_eq_nil_iff]
  unfold checkPublishEligibility
  split
  · simp
  · simp [publishable]
  · next status hne =>
      simp only [Except.ok.injEq, exists_eq_left', Bool.and_eq_true, beq_iff_eq, List.length_eq_zero_iff,
        Option.some.injEq]
      exact and_comm

/-- **When a positive answer is sound**: the run cannot be published, or something a requested step depends on has not
succeeded, or the requested steps have all succeeded themselves. -/
theorem eligibility_sound_iff (runId : Uuid) (run : Option RunStatus) (steps : List StepRow) (stepKeys : List String) :
    EligibilitySound runId run steps stepKeys ↔
      (∀ status, run = some status → publishable status = false) ∨
      (∃ k, Asked steps stepKeys k ∧ ∃ d, ReliesOn steps k d ∧ ¬ Succeeded steps d) ∨
      ∀ k ∈ stepKeys, Succeeded steps k := by
  have heligible := @eligible_iff steps stepKeys runId run
  constructor
  · intro h
    by_cases hany : ∃ result, checkPublishEligibility runId run steps stepKeys = .ok result ∧ result.isEligible = true
    · obtain ⟨result, hresult, hpositive⟩ := hany
      refine .inr (.inr (fun k hk => (h.sound result hresult hpositive k ?_).1))
      unfold Asked
      rw [if_neg (List.ne_nil_of_mem hk)]
      exact hk
    · rw [heligible, not_and_or] at hany
      rcases hany with hrun | hdeps
      · refine .inl (fun status hstatus => ?_)
        by_contra hpub
        exact hrun ⟨status, hstatus, by simpa using hpub⟩
      · push Not at hdeps
        exact .inr (.inl hdeps)
  · intro h
    refine ⟨pop_ends, fun result hresult hpositive k hk => ?_⟩
    obtain ⟨⟨status, hstatus, hpub⟩, hdeps⟩ := heligible.mp ⟨result, hresult, hpositive⟩
    refine ⟨?_, hdeps k hk⟩
    rcases h with hrun | ⟨k', hk', d, hd, hnot⟩ | hall
    · rw [hrun status hstatus] at hpub
      cases hpub
    · exact absurd (hdeps k' hk' d hd) hnot
    · unfold Asked at hk
      split at hk
      · exact hk
      · exact hall k hk

/-- A run with one step that has succeeded and one that has failed; neither depends on anything. -/
def halfDone : List StepRow :=
  [{ stepKey := "s1", stepIndex := 0, method := "m", status := .succeeded, dependsOn := [] },
   { stepKey := "s2", stepIndex := 1, method := "m", status := .failed, dependsOn := [] }]

/-- The failed step is found fit for publication when it is asked about. -/
theorem failed_step_eligible :
    ¬ ∀ (runId : Uuid) (run : Option RunStatus) (steps : List StepRow) (stepKeys : List String),
      EligibilitySound runId run steps stepKeys := by
  intro hall
  have hsound := (hall "r" (some .partiallySucceeded) halfDone ["s2"]).sound
  have hnone : ∀ d, ¬ ReliesOn halfDone "s2" d := by
    intro d hd
    obtain ⟨e, ⟨s, hs, he⟩, -⟩ := Relation.TransGen.head'_iff.mp hd
    obtain rfl := Option.some.inj hs
    exact List.not_mem_nil he
  have hasked : ∀ k, Asked halfDone ["s2"] k → k = "s2" := fun k hk => List.mem_singleton.mp hk
  obtain ⟨result, hresult, hpositive⟩ := (@eligible_iff halfDone ["s2"] "r"
    (some .partiallySucceeded)).mpr ⟨⟨_, rfl, rfl⟩, fun k hk d hd => absurd (hasked k hk ▸ hd) (hnone d)⟩
  obtain ⟨⟨s, hs, hstatus⟩, -⟩ := hsound result hresult hpositive "s2" (List.mem_singleton_self _)
  obtain rfl := Option.some.inj hs
  cases hstatus

end Soundness

end Irip.Execution
