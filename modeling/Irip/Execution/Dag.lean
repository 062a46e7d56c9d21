import Irip.Base.Dict
import Irip.Base.Kahn

/-!
# `Execution.Dag` — a run over the steps of a plan

A plan lists step definitions; a step may name a key and the keys of the steps it depends on. The orchestrator
sorts the steps with Kahn's algorithm over dictionaries that are keyed by step key, writes one row for each, and
executes or skips them one after the other.
-/

namespace Irip.Execution

/-! ## Steps -/

/-- A step definition of a plan; every entry may be missing. -/
structure StepDef where
  stepKey : Option String := none
  method : Option String := none
  dependencies : List String := []

/-- The key of a step: its own, or one made from a position. -/
def StepDef.keyAt (s : StepDef) (i : Nat) : String := s.stepKey.getD ("step_" ++ toString i)

/-- A step definition with its position in the plan. -/
abbrev Placed := StepDef × Nat

/-- The key under which the sort knows a step. -/
def sortKey (x : Placed) : String := x.1.keyAt x.2

/-- `step_map` of the sort: a later step takes the place of an earlier one with the same key. -/
def stepMap (steps : List StepDef) : Dict String Placed :=
  Dict.ofList (steps.zipIdx.map (fun x => (sortKey x, x)))

/-- The edges of the sort: from a dependency that is a key to the step, which goes by `""` if it names no key of
its own. -/
def sortEdges (steps : List StepDef) : List (String × String) :=
  steps.flatMap (fun s =>
    (s.dependencies.filter (fun d => d ∈ (stepMap steps).keys)).map (fun d => (d, s.stepKey.getD "")))

/-! ## Sorting -/

/-- `_topological_sort`: a `KeyError` where an edge ends in no key, `none` where there is a cycle. -/
def topologicalSort (steps : List StepDef) : Except String (Option (List Placed)) :=
  let keys := (stepMap steps).keys
  let edges := sortEdges steps
  if edges.all (fun e => e.2 ∈ keys) then
    let order := (Kahn.run keys edges).order
    if order.length ≠ keys.length then .ok none else .ok (some (order.filterMap (stepMap steps).get?))
  else .error "''"

variable {steps : List StepDef} {x : Placed}

theorem mem_placed : x ∈ steps.zipIdx ↔ steps[x.2]? = some x.1 :=
  List.mem_zipIdx_iff_getElem?

theorem get?_stepMap {k : String} (h : (stepMap steps).get? k = some x) : steps[x.2]? = some x.1 ∧ sortKey x = k := by
  obtain ⟨y, hy, hxy⟩ := List.mem_map.mp (Dict.mem_of_get?_ofList h)
  obtain ⟨hk, rfl⟩ := Prod.mk.inj hxy
  exact ⟨mem_placed.mp hy, hk⟩

theorem sortKey_mem_keys (h : steps[x.2]? = some x.1) : sortKey x ∈ (stepMap steps).keys := by
  unfold stepMap
  rw [Dict.mem_keys_ofList, List.map_map]
  exact List.mem_map.mpr ⟨x, mem_placed.mpr h, rfl⟩

section Sorted

variable {steps : List StepDef} {sorted : List Placed}

theorem order_of_sorted (h : topologicalSort steps = .ok (some sorted)) :
    (∀ e ∈ sortEdges steps, e.2 ∈ (stepMap steps).keys) ∧
      (Kahn.run (stepMap steps).keys (sortEdges steps)).order.Perm (stepMap steps).keys ∧
      sorted = (Kahn.run (stepMap steps).keys (sortEdges steps)).order.filterMap (stepMap steps).get? := by
  unfold topologicalSort at h
  dsimp only at h
  split at h
  · next hedges =>
      have hends : ∀ e ∈ sortEdges steps, e.2 ∈ (stepMap steps).keys := by simpa using hedges
      split at h
      · cases h
      · next hlen =>
          exact ⟨hends, Kahn.perm_of_length hends (not_not.mp hlen), (Option.some.inj (Except.ok.inj h)).symm⟩
  · cases h

theorem mem_sorted (h : topologicalSort steps = .ok (some sorted)) {x : Placed} :
    x ∈ sorted ↔ (stepMap steps).get? (sortKey x) = some x := by
  obtain ⟨_, hperm, rfl⟩ := order_of_sorted h
  rw [List.mem_filterMap]
  constructor
  · rintro ⟨k, _, hx⟩
    rw [(get?_stepMap hx).2]
    exact hx
  · intro hx
    have hkey : sortKey x ∈ (stepMap steps).keys := Dict.mem_keys_iff.mpr ⟨x, hx⟩
    exact ⟨sortKey x, hperm.mem_iff.mpr hkey, hx⟩

theorem getElem?_of_mem_sorted (h : topologicalSort steps = .ok (some sorted)) {x : Placed} (hx : x ∈ sorted) :
    steps[x.2]? = some x.1 :=
  (get?_stepMap ((mem_sorted h).mp hx)).1

theorem nodup_sorted (h : topologicalSort steps = .ok (some sorted)) : (sorted.map Prod.snd).Nodup := by
  have hnodup : sorted.Nodup := by
    obtain ⟨_, hperm, rfl⟩ := order_of_sorted h
    refine List.Nodup.filterMap (fun k k' x hk hk' => ?_) (hperm.nodup_iff.mpr (stepMap steps).nodup)
    rw [← (get?_stepMap hk).2, (get?_stepMap hk').2]
  refine hnodup.map_on fun x hx y hy hxy => ?_
  have hx' := getElem?_of_mem_sorted h hx
  rw [hxy, getElem?_of_mem_sorted h hy] at hx'
  exact Prod.ext (Option.some.inj hx').symm hxy

theorem map_sortKey_sorted (h : topologicalSort steps = .ok (some sorted)) :
    sorted.map sortKey = (Kahn.run (stepMap steps).keys (sortEdges steps)).order := by
  obtain ⟨_, hperm, rfl⟩ := order_of_sorted h
  have hall : ∀ k ∈ (Kahn.run (stepMap steps).keys (sortEdges steps)).order,
      ∃ x, (stepMap steps).get? k = some x := fun k hk => Dict.mem_keys_iff.mp (hperm.mem_iff.mp hk)
  generalize (Kahn.run (stepMap steps).keys (sortEdges steps)).order = order at hall
  induction order with
  | nil => rfl
  | cons k order ih =>
    obtain ⟨x, hx⟩ := hall k List.mem_cons_self
    rw [List.filterMap_cons_some hx, List.map_cons, (get?_stepMap hx).2,
      ih (fun k' hk' => hall k' (List.mem_cons_of_mem _ hk'))]

/-- **A step with a key of its own comes after its dependencies.** -/
theorem dependency_before (h : topologicalSort steps = .ok (some sorted)) {j : Nat} {x : Placed}
    (hj : sorted[j]? = some x) {key d : String} (hkey : x.1.stepKey = some key) (hd : d ∈ x.1.dependencies)
    (hknown : d ∈ (stepMap steps).keys) : ∃ l y, l < j ∧ sorted[l]? = some y ∧ sortKey y = d := by
  obtain ⟨hends, _, _⟩ := order_of_sorted h
  have hmem := getElem?_of_mem_sorted h (List.mem_of_getElem? hj)
  have hedge : (d, sortKey x) ∈ sortEdges steps := by
    refine List.mem_flatMap.mpr ⟨x.1, List.mem_of_getElem? hmem, List.mem_map.mpr ⟨d, ?_, ?_⟩⟩
    · exact List.mem_filter.mpr ⟨hd, by simpa using hknown⟩
    · simp [sortKey, StepDef.keyAt, hkey]
  -- the order is cut at the step
  have hlt := (List.getElem?_eq_some_iff.mp hj).1
  have hsplit : sorted = sorted.take j ++ x :: sorted.drop (j + 1) := by
    have hget : sorted[j] = x := (List.getElem?_eq_some_iff.mp hj).2
    rw [← hget, ← List.drop_eq_getElem_cons hlt, List.take_append_drop]
  have horder : (Kahn.run (stepMap steps).keys (sortEdges steps)).order
      = (sorted.take j).map sortKey ++ sortKey x :: (sorted.drop (j + 1)).map sortKey := by
    rw [← map_sortKey_sorted h, ← List.map_cons, ← List.map_append, ← hsplit]
  have hbefore := Kahn.before hends horder hedge rfl
  obtain ⟨y, hy, hyd⟩ := List.mem_map.mp hbefore
  obtain ⟨l, hl⟩ := List.mem_iff_getElem?.mp hy
  rw [List.getElem?_take] at hl
  split at hl
  · next hlj => exact ⟨l, y, hlj, hl, hyd⟩
  · cases hl

end Sorted

/-! ## Sources -/

/-- The steps have distinct keys. -/
def Distinct (steps : List StepDef) : Prop := (steps.zipIdx.map sortKey).Nodup

/-- No edge of the sort ends in the step. -/
def Source (steps : List StepDef) (x : Placed) : Prop := ∀ e ∈ sortEdges steps, e.2 ≠ sortKey x

instance (steps : List StepDef) (x : Placed) : Decidable (Source steps x) :=
  inferInstanceAs (Decidable (∀ e ∈ sortEdges steps, e.2 ≠ sortKey x))

/-- The number of sources before a position. -/
def sourcePlace (steps : List StepDef) (i : Nat) : Nat :=
  (steps.zipIdx.take i).countP (fun x => decide (Source steps x))

/-- The key of a step in a run; a step without one of its own gets it from its place among the sources. -/
def runKey (steps : List StepDef) (x : Placed) : String := x.1.keyAt (sourcePlace steps x.2)

/-- `y` is a source and comes before `x`. -/
def Ahead (steps : List StepDef) (y x : Placed) : Prop := Source steps y ∧ (Source steps x → y.2 < x.2)

theorem Distinct.eq (h : Distinct steps) {y : Placed} (hx : steps[x.2]? = some x.1)
    (hy : steps[y.2]? = some y.1) (hkey : sortKey x = sortKey y) : x = y :=
  List.inj_on_of_nodup_map h (mem_placed.mpr hx) (mem_placed.mpr hy) hkey

theorem Distinct.source (h : Distinct steps) (hx : steps[x.2]? = some x.1)
    (hkey : x.1.stepKey = none) : Source steps x := by
  intro e he hend
  obtain ⟨s, hs, hd⟩ := List.mem_flatMap.mp he
  obtain ⟨d, _, rfl⟩ := List.mem_map.mp hd
  have hx' : sortKey x = "step_" ++ toString x.2 := by simp [sortKey, StepDef.keyAt, hkey]
  cases hown : s.stepKey with
  | none =>
    simp only [hown, Option.getD_none, hx'] at hend
    have hlen := congrArg String.length hend
    have hfive : "step_".length = 5 := rfl
    rw [String.length_append, hfive] at hlen
    have hzero : "".length = 0 := rfl
    omega
  | some key =>
    obtain ⟨i, hi⟩ := List.mem_iff_getElem?.mp hs
    have hsame : sortKey (s, i) = sortKey x := by
      simpa [sortKey, StepDef.keyAt, hown] using hend
    have heq := h.eq (x := (s, i)) hi hx hsame
    rw [← heq, hown] at hkey
    cases hkey

theorem getElem?_filter {α : Type} {p : α → Bool} {l : List α} {i : Nat} {a : α} (hi : l[i]? = some a)
    (ha : p a = true) : (l.filter p)[(l.take i).countP p]? = some a := by
  have hlt := (List.getElem?_eq_some_iff.mp hi).1
  have hget : l[i] = a := (List.getElem?_eq_some_iff.mp hi).2
  have hsplit : l = l.take i ++ a :: l.drop (i + 1) := by
    rw [← hget, ← List.drop_eq_getElem_cons hlt, List.take_append_drop]
  have hlen : (l.take i).countP p = ((l.take i).filter p).length := List.countP_eq_length_filter
  have hfilter : l.filter p = (l.take i).filter p ++ a :: (l.drop (i + 1)).filter p := by
    conv_lhs => rw [hsplit]
    rw [List.filter_append, List.filter_cons_of_pos ha]
  rw [hfilter, hlen, List.getElem?_append_right (Nat.le_refl _), Nat.sub_self]
  rfl

section Sources

variable {steps : List StepDef} {sorted : List Placed}

theorem Distinct.entries (hd : Distinct steps) :
    (stepMap steps).entries = steps.zipIdx.map (fun x => (sortKey x, x)) := by
  refine Dict.entries_ofList ?_
  rw [List.map_map]
  exact hd

theorem Distinct.mem_sorted (hd : Distinct steps) (h : topologicalSort steps = .ok (some sorted)) {x : Placed} :
    x ∈ sorted ↔ steps[x.2]? = some x.1 := by
  refine ⟨getElem?_of_mem_sorted h, fun hx => (Execution.mem_sorted h).mpr ?_⟩
  rw [Dict.get?_eq_some_iff, hd.entries]
  exact List.mem_map.mpr ⟨x, mem_placed.mpr hx, rfl⟩

/-- **The sort starts with the sources**, in the order of the plan. -/
theorem sorted_sources (hd : Distinct steps) (h : topologicalSort steps = .ok (some sorted)) :
    ∃ rest, sorted = steps.zipIdx.filter (fun x => Source steps x) ++ rest ∧ ∀ x ∈ rest, ¬ Source steps x := by
  obtain ⟨hends, hperm, hsorted⟩ := order_of_sorted h
  obtain ⟨tail, htail⟩ := Kahn.sources_first hends
  have hkeys : (stepMap steps).keys = steps.zipIdx.map sortKey := by
    unfold Dict.keys
    rw [hd.entries, List.map_map]
    rfl
  have hindeg : ∀ x : Placed, Kahn.indeg (sortEdges steps) (sortKey x) = 0 ↔ Source steps x := by
    intro x
    unfold Kahn.indeg Source
    rw [Int.natCast_eq_zero, List.countP_eq_zero]
    simp
  have hfound : ∀ x ∈ steps.zipIdx.filter (fun x => Source steps x),
      (stepMap steps).get? (sortKey x) = some x := by
    intro x hx
    rw [Dict.get?_eq_some_iff, hd.entries]
    exact List.mem_map.mpr ⟨x, (List.mem_filter.mp hx).1, rfl⟩
  have hfront : (steps.zipIdx.filter (fun x => Source steps x)).filterMap ((stepMap steps).get? ∘ sortKey)
      = steps.zipIdx.filter (fun x => Source steps x) := by
    exact (List.filterMap_congr (g := some) hfound).trans List.filterMap_some
  have hsources : (Kahn.keys (stepMap steps).keys).filter (fun v => Kahn.indeg (sortEdges steps) v = 0)
      = (steps.zipIdx.filter (fun x => Source steps x)).map sortKey := by
    have hnodes : Kahn.keys (stepMap steps).keys = (stepMap steps).keys := Kahn.keys_of_nodup (stepMap steps).nodup
    rw [hnodes, hkeys, List.filter_map]
    congr 1
    apply List.filter_congr
    intro x _
    simpa using hindeg x
  rw [← htail, List.filterMap_append, hsources, List.filterMap_map] at hsorted
  refine ⟨tail.filterMap (stepMap steps).get?, ?_, fun x hx hsource => ?_⟩
  · rw [hsorted, hfront]
  · -- the key of a source is in front, and the order is without repetition
    obtain ⟨k, hk, hget⟩ := List.mem_filterMap.mp hx
    have hnodup := hperm.nodup_iff.mpr (stepMap steps).nodup
    rw [← htail, hsources] at hnodup
    obtain ⟨hmem, rfl⟩ := get?_stepMap hget
    have hkey : sortKey x ∈ (steps.zipIdx.filter (fun x => Source steps x)).map sortKey :=
      List.mem_map.mpr ⟨x, List.mem_filter.mpr ⟨mem_placed.mpr hmem, by simpa using hsource⟩, rfl⟩
    exact (List.nodup_append.mp hnodup).2.2 _ hkey _ hk rfl

theorem place_source (hd : Distinct steps) (h : topologicalSort steps = .ok (some sorted)) {j : Nat} {x : Placed}
    (hj : sorted[j]? = some x) (hsource : Source steps x) : j = sourcePlace steps x.2 := by
  obtain ⟨rest, hsorted, _⟩ := sorted_sources hd h
  have hmem := getElem?_of_mem_sorted h (List.mem_of_getElem? hj)
  have hplace : sorted[sourcePlace steps x.2]? = some x := by
    have hat : steps.zipIdx[x.2]? = some x := by
      rw [List.getElem?_zipIdx, hmem]
      simp
    have hfilter := getElem?_filter (p := fun x => decide (Source steps x)) hat (by simpa using hsource)
    rw [hsorted]
    exact (List.getElem?_append_left (List.getElem?_eq_some_iff.mp hfilter).1).trans hfilter
  have hnodup : sorted.Nodup := (nodup_sorted h).of_map
  exact (List.getElem?_inj (List.getElem?_eq_some_iff.mp hj).1 hnodup).mp (hj.trans hplace.symm)

theorem ahead_iff (hd : Distinct steps) (h : topologicalSort steps = .ok (some sorted)) {l j : Nat} {y x : Placed}
    (hl : sorted[l]? = some y) (hj : sorted[j]? = some x) (hy : Source steps y) : l < j ↔ Ahead steps y x := by
  obtain ⟨rest, hsorted, hrest⟩ := sorted_sources hd h
  set front := steps.zipIdx.filter (fun x => Source steps x) with hfront
  -- the place of a source is among the sources
  have hin : ∀ {i z}, sorted[i]? = some z → (Source steps z ↔ i < front.length) := by
    intro i z hi
    rw [hsorted] at hi
    constructor
    · intro hz
      by_contra hge
      rw [List.getElem?_append_right (by omega)] at hi
      exact hrest z (List.mem_of_getElem? hi) hz
    · intro hlt
      rw [List.getElem?_append_left hlt] at hi
      simpa using (List.mem_filter.mp (List.mem_of_getElem? hi)).2
  have hpairs : front.Pairwise (fun a b => a.2 < b.2) := by
    refine List.Pairwise.filter _ ?_
    have hrange := List.pairwise_lt_range' (s := 0) (n := steps.length)
    rw [← List.zipIdx_map_snd 0 steps, List.pairwise_map] at hrange
    exact hrange
  have hless : ∀ {i k : Nat} {a b : Placed}, sorted[i]? = some a → sorted[k]? = some b → k < front.length →
      i < k → a.2 < b.2 := by
    intro i k a b hi hk hlt hik
    rw [hsorted, List.getElem?_append_left (by omega)] at hi hk
    obtain ⟨hi', rfl⟩ := List.getElem?_eq_some_iff.mp hi
    obtain ⟨hk', rfl⟩ := List.getElem?_eq_some_iff.mp hk
    exact List.pairwise_iff_getElem.mp hpairs i k hi' hk' hik
  have hlf := (hin hl).mp hy
  constructor
  · intro hlj
    exact ⟨hy, fun hx => hless hl hj ((hin hj).mp hx) hlj⟩
  · rintro ⟨_, hbefore⟩
    by_contra hge
    have hlt := hbefore ((hin hj).mpr (by omega))
    have hle : j ≤ l := by omega
    rcases Nat.lt_or_eq_of_le hle with hjl | rfl
    · have hgt := hless hj hl hlf hjl
      omega
    · rw [Option.some.inj (hl.symm.trans hj)] at hlt
      omega

/-- **The key that the run gives to a step.** -/
theorem keyAt_sorted (hd : Distinct steps) (h : topologicalSort steps = .ok (some sorted)) {j : Nat} {x : Placed}
    (hj : sorted[j]? = some x) : x.1.keyAt j = runKey steps x := by
  cases hkey : x.1.stepKey with
  | some key => simp [runKey, StepDef.keyAt, hkey]
  | none =>
    have hmem := getElem?_of_mem_sorted h (List.mem_of_getElem? hj)
    unfold runKey
    rw [← place_source hd h hj (hd.source hmem hkey)]

end Sources

/-! ## Executing -/

/-- The values of `research_analysis_step.status`. -/
inductive StepStatus where
  | pending
  | running
  | succeeded
  | failed
  | skipped
  | cancelled
deriving DecidableEq, Repr

/-- What the method of a step comes to: a coverage declaration, none (a knowledge step always), an exception, or
a method that is not known. -/
inductive Attempt where
  | coverage
  | nothing
  | raised (message : String)
  | unknownMethod
deriving DecidableEq

/-- `_execute_step`: the status it leaves in the row, and whether it returns a coverage declaration. A step whose
method is not known is left running. -/
def executeStep : Attempt → StepStatus × Bool
  | .coverage => (.succeeded, true)
  | .nothing => (.failed, false)
  | .raised _ => (.failed, false)
  | .unknownMethod => (.running, false)

/-- A row of `research_analysis_step`. -/
structure StepRow where
  stepKey : String
  stepIndex : Nat
  method : String
  dependsOn : List String
  status : StepStatus := .pending

/-- `batch_insert_steps`. A step without a key of its own gets one from its place in the sorted list. -/
def initRows (sorted : List Placed) : List StepRow :=
  sorted.zipIdx.map (fun x =>
    { stepKey := x.1.1.keyAt x.2, stepIndex := x.2, method := x.1.1.method.getD "python",
      dependsOn := x.1.1.dependencies })

/-- `update_step_status(step_map[key], status)`: `step_map` keeps the last row with a key. -/
def setStatus (key : String) (status : StepStatus) : List StepRow → List StepRow
  | [] => []
  | r :: rs =>
    if r.stepKey = key ∧ key ∉ rs.map StepRow.stepKey then { r with status := status } :: rs
    else r :: setStatus key status rs

/-- What the loop does about a step. -/
inductive Event where
  | executed (attempt : Attempt)
  | skipped
deriving DecidableEq

/-- The step has been executed and has succeeded. -/
def Event.good (e : Event) : Prop := e = .executed .coverage

instance (e : Event) : Decidable e.good := inferInstanceAs (Decidable (_ = _))

/-- The variables of the loop of `execute_run`, and what it has done so far, by position in the plan. -/
structure Progress where
  rows : List StepRow
  failed : List String := []
  succeeded : List String := []
  trace : List (Nat × Event) := []

/-- One step of the loop: `attempts` says what executing the step at a position comes to. -/
def runStep (attempts : Nat → Attempt) (p : Progress) (x : Placed × Nat) : Progress :=
  let key := x.1.1.keyAt x.2
  if x.1.1.dependencies.any (fun d => d ∈ p.failed) then
    { p with
      rows := setStatus key .skipped p.rows
      failed := p.failed ++ [key]
      trace := p.trace ++ [(x.1.2, .skipped)] }
  else
    let attempt := attempts x.1.2
    let result := executeStep attempt
    { rows := setStatus key result.1 (setStatus key .running p.rows)
      failed := if result.2 then p.failed else p.failed ++ [key]
      succeeded := if result.2 then p.succeeded ++ [key] else p.succeeded
      trace := p.trace ++ [(x.1.2, .executed attempt)] }

/-- The loop of `execute_run`. -/
def runSteps (attempts : Nat → Attempt) (sorted : List Placed) : Progress :=
  sorted.zipIdx.foldl (runStep attempts) { rows := initRows sorted }

/-- The final status of a run. -/
inductive FinalStatus where
  | succeeded
  | partiallySucceeded
  | failed
deriving DecidableEq, Repr

def determineFinalStatus (succeeded failed : List String) : FinalStatus :=
  if failed = [] then .succeeded else if succeeded ≠ [] then .partiallySucceeded else .failed

/-- How a run ends: with an error, before any step, or with the steps done and a status. -/
inductive RunEnd where
  | error (message : String)
  | done (progress : Progress) (status : FinalStatus)

/-- `execute_run`, from the steps of the plan to the final status, where nobody cancels the run. -/
def executeRun (steps : List StepDef) (attempts : Nat → Attempt) : RunEnd :=
  match topologicalSort steps with
  | .error e => .error ("执行异常: " ++ e)
  | .ok none => .error "DAG 存在环，无法拓扑排序"
  | .ok (some sorted) =>
    if sorted = [] then .error "步骤初始化失败：步骤未写入数据库"
    else
      let progress := runSteps attempts sorted
      .done progress (determineFinalStatus progress.succeeded progress.failed)

end Irip.Execution
