import Irip.Execution.Course

/-!
# `Execution.Dependencies` — when a run respects the dependencies of its plan

Dependencies are read by the keys of the plan; the loop sees those the run gives to the steps.
-/

namespace Irip.Execution

open Relation (TransGen)

/-! ## Respecting dependencies -/

/-- The step at position `i` names the key of the step at position `k`. -/
def DependsOn (steps : List StepDef) (i k : Nat) : Prop :=
  ∃ s t, steps[i]? = some s ∧ steps[k]? = some t ∧ t.keyAt k ∈ s.dependencies

/-- The step at position `i` has been executed and has succeeded. -/
def Progress.HasSucceeded (p : Progress) (i : Nat) : Prop := (i, .executed .coverage) ∈ p.trace

/-- What a run owes to the dependencies of its plan. -/
structure Respects (steps : List StepDef) (p : Progress) (status : FinalStatus) : Prop where
  once : ∀ i, i < steps.length → (p.trace.map Prod.fst).count i = 1
  executed : ∀ i s, steps[i]? = some s → ((∃ a, (i, .executed a) ∈ p.trace) ↔
    ∀ d ∈ s.dependencies, ∃ k t, steps[k]? = some t ∧ t.keyAt k = d ∧ p.HasSucceeded k)
  recorded : ∀ (j i : Nat), p.trace[j]? = some (i, .skipped) →
    ∃ r : StepRow, p.rows[j]? = some r ∧ r.status = .skipped
  because : ∀ i, (i, .skipped) ∈ p.trace →
    ∃ k a, TransGen (DependsOn steps) i k ∧ (k, .executed a) ∈ p.trace ∧ a ≠ .coverage
  succeeded : status = .succeeded ↔ ∀ i, i < steps.length → p.HasSucceeded i
  partially : status = .partiallySucceeded ↔
    (∃ i, i < steps.length ∧ p.HasSucceeded i) ∧ ∃ i, i < steps.length ∧ ¬ p.HasSucceeded i
  failed : status = .failed ↔ ∀ i, i < steps.length → ¬ p.HasSucceeded i

/-! ## Regular plans -/

/-- Every dependency is the key of a step. -/
def Known (steps : List StepDef) : Prop :=
  ∀ s ∈ steps, ∀ d ∈ s.dependencies, ∃ (k : Nat) (t : StepDef), steps[k]? = some t ∧ t.keyAt k = d

/-- The step at position `i` names the key that the run gives to the step at position `k`; if it has no key of its
own, that step has to come before it. -/
def DependsInRun (steps : List StepDef) (i k : Nat) : Prop :=
  ∃ s t, steps[i]? = some s ∧ steps[k]? = some t ∧ runKey steps (t, k) ∈ s.dependencies ∧
    (s.stepKey = none → Ahead steps (t, k) (s, i))

/-- The plans whose dependencies a run respects. Keys made from a position are the difficulty: the sort and the run
make them from different ones. -/
structure Regular (steps : List StepDef) : Prop where
  distinct : Distinct steps
  known : Known steps
  followed : ∀ i k, TransGen (DependsOn steps) i k ↔ TransGen (DependsInRun steps) i k
  recorded : ∀ i k j s t, steps[i]? = some s → steps[j]? = some t → DependsInRun steps i k → j ≠ i →
    runKey steps (t, j) = runKey steps (s, i) → Ahead steps (t, j) (s, i)

theorem runKey_of_some {steps : List StepDef} {x : Placed} {key : String} (h : x.1.stepKey = some key) :
    runKey steps x = key := by
  simp [runKey, StepDef.keyAt, h]

theorem sortKey_of_some {x : Placed} {key : String} (h : x.1.stepKey = some key) : sortKey x = key := by
  simp [sortKey, StepDef.keyAt, h]

/-- **Distinct and known keys are enough** where every step has a key of its own. -/
theorem regular_of_keyed {steps : List StepDef} (hkeyed : ∀ s ∈ steps, s.stepKey ≠ none) (hd : Distinct steps)
    (hknown : Known steps) : Regular steps := by
  have hsame : ∀ {k t}, steps[k]? = some t → runKey steps (t, k) = t.keyAt k := by
    intro k t ht
    obtain ⟨key, hkey⟩ := Option.ne_none_iff_exists'.mp (hkeyed t (List.mem_of_getElem? ht))
    rw [runKey_of_some (x := (t, k)) hkey]
    exact (sortKey_of_some (x := (t, k)) hkey).symm
  have hdep : ∀ i k, DependsInRun steps i k ↔ DependsOn steps i k := by
    intro i k
    constructor
    · rintro ⟨s, t, hs, ht, hk, _⟩
      exact ⟨s, t, hs, ht, hsame ht ▸ hk⟩
    · rintro ⟨s, t, hs, ht, hk⟩
      refine ⟨s, t, hs, ht, (hsame ht).symm ▸ hk, fun hnone => ?_⟩
      exact absurd hnone (hkeyed s (List.mem_of_getElem? hs))
  refine ⟨hd, hknown, fun i k => ?_, fun i k j s t hs ht _ hne hkey => ?_⟩
  · rw [funext fun i => funext fun k => propext (hdep i k)]
  · rw [hsame ht, hsame hs] at hkey
    have heq := hd.eq (x := (t, j)) (y := (s, i)) ht hs hkey
    exact absurd (Prod.mk.inj heq).2 hne

/-! ## The dependencies of a run -/

section Sorted

variable {steps : List StepDef} {sorted : List Placed}

theorem Distinct.place (hd : Distinct steps) (h : topologicalSort steps = .ok (some sorted)) {i : Nat} {s : StepDef}
    (hs : steps[i]? = some s) : ∃ j : Nat, sorted[j]? = some (s, i) :=
  List.mem_iff_getElem?.mp ((hd.mem_sorted h (x := (s, i))).mpr hs)

theorem place_unique (h : topologicalSort steps = .ok (some sorted)) {j l : Nat} {x : Placed}
    (hj : sorted[j]? = some x) (hl : sorted[l]? = some x) : j = l :=
  (List.getElem?_inj (List.getElem?_eq_some_iff.mp hj).1 (nodup_sorted h).of_map).mp (hj.trans hl.symm)

theorem source_of_lt (hd : Distinct steps) (h : topologicalSort steps = .ok (some sorted)) {l j : Nat} {y x : Placed}
    (hl : sorted[l]? = some y) (hj : sorted[j]? = some x) (hlt : l < j) (hx : Source steps x) : Source steps y := by
  by_contra hy
  have hahead := (ahead_iff hd h hj hl hx).mpr ⟨hx, fun hy' => absurd hy' hy⟩
  omega

/-- **The dependencies that the loop sees**, read off the plan. -/
theorem runDepends_iff (hd : Distinct steps) (hknown : Known steps) (h : topologicalSort steps = .ok (some sorted))
    {i k : Nat} : RunDepends sorted i k ↔ DependsInRun steps i k := by
  constructor
  · rintro ⟨j, x, l, y, hj, rfl, hl, hy, rfl, hkey⟩
    have hx := getElem?_of_mem_sorted h (List.mem_of_getElem? hj)
    have hy' := getElem?_of_mem_sorted h (List.mem_of_getElem? hy)
    refine ⟨x.1, y.1, hx, hy', keyAt_sorted hd h hy ▸ hkey, fun hnone => ?_⟩
    exact (ahead_iff hd h hy hj (source_of_lt hd h hy hj hl (hd.source hx hnone))).mp hl
  · rintro ⟨s, t, hs, ht, hkey, hahead⟩
    obtain ⟨j, hj⟩ := Distinct.place hd h hs
    obtain ⟨l, hl⟩ := Distinct.place hd h ht
    refine ⟨j, (s, i), l, (t, k), hj, rfl, ?_, hl, rfl, by rw [keyAt_sorted hd h hl]; exact hkey⟩
    cases hs' : s.stepKey with
    | none =>
      have ha := hahead hs'
      exact (ahead_iff hd h hl hj ha.1).mpr ha
    | some key =>
      have hkeys : runKey steps (t, k) ∈ (stepMap steps).keys := by
        obtain ⟨k', t', ht', hk'⟩ := hknown s (List.mem_of_getElem? hs) _ hkey
        rw [← hk']
        exact sortKey_mem_keys (x := (t', k')) ht'
      cases ht' : t.stepKey with
      | some key' =>
        -- the sort knows the step by the same key
        rw [runKey_of_some (x := (t, k)) ht'] at hkey hkeys
        obtain ⟨l', y, hlt, hy, hyk⟩ := dependency_before h hj hs' hkey hkeys
        have hmem := getElem?_of_mem_sorted h (List.mem_of_getElem? hy)
        rw [hd.eq hmem (y := (t, k)) ht (hyk.trans (sortKey_of_some (x := (t, k)) ht').symm)] at hy
        rw [place_unique h hl hy]
        exact hlt
      | none =>
        -- a source, which the step that depends on it is not
        have hsource := hd.source (x := (t, k)) ht ht'
        refine (ahead_iff hd h hl hj hsource).mpr ⟨hsource, fun hno => ?_⟩
        have hedge : (runKey steps (t, k), key) ∈ sortEdges steps := by
          refine List.mem_flatMap.mpr ⟨s, List.mem_of_getElem? hs, List.mem_map.mpr ⟨_, ?_, by rw [hs']; rfl⟩⟩
          exact List.mem_filter.mpr ⟨hkey, by simpa using hkeys⟩
        exact absurd (sortKey_of_some (x := (s, i)) hs').symm (hno _ hedge)

theorem shadowed_iff (hd : Distinct steps) (h : topologicalSort steps = .ok (some sorted)) {l : Nat} {s : StepDef}
    {i : Nat} (hl : sorted[l]? = some (s, i)) :
    Shadowed sorted l (s, i) ↔ ∃ j t, steps[j]? = some t ∧ j ≠ i ∧ runKey steps (t, j) = runKey steps (s, i) ∧
      ¬ Ahead steps (t, j) (s, i) := by
  constructor
  · rintro ⟨l', y, hlt, hy, hkey⟩
    rw [keyAt_sorted hd h hy, keyAt_sorted hd h hl] at hkey
    have hy' := getElem?_of_mem_sorted h (List.mem_of_getElem? hy)
    refine ⟨y.2, y.1, hy', fun hpos => ?_, hkey, fun hahead => ?_⟩
    · have hs := getElem?_of_mem_sorted h (List.mem_of_getElem? hl)
      rw [hpos] at hy'
      have heq : y = (s, i) := Prod.ext (Option.some.inj (hy'.symm.trans hs)) hpos
      rw [heq] at hy
      have := place_unique h hl hy
      omega
    · have := (ahead_iff hd h hy hl hahead.1).mpr hahead
      omega
  · rintro ⟨j, t, ht, hne, hkey, hno⟩
    obtain ⟨l', hl'⟩ := Distinct.place hd h ht
    refine ⟨l', (t, j), ?_, hl', by rw [keyAt_sorted hd h hl', keyAt_sorted hd h hl]; exact hkey⟩
    have hs := getElem?_of_mem_sorted h (List.mem_of_getElem? hl)
    by_contra hge
    have hle : l' ≠ l := by
      rintro rfl
      exact hne (Prod.mk.inj (Option.some.inj (hl'.symm.trans hl))).2
    have hlt : l' < l := by omega
    by_cases hsource : Source steps (t, j)
    · exact hno ((ahead_iff hd h hl' hl hsource).mp hlt)
    · -- neither is a source, so both have keys of their own
      have hsource' : ¬ Source steps (s, i) := fun hx => hsource (source_of_lt hd h hl' hl hlt hx)
      obtain ⟨a, ha⟩ := Option.ne_none_iff_exists'.mp (fun hx => hsource (hd.source (x := (t, j)) ht hx))
      obtain ⟨b, hb⟩ := Option.ne_none_iff_exists'.mp (fun hx => hsource' (hd.source (x := (s, i)) hs hx))
      rw [runKey_of_some (x := (t, j)) ha, runKey_of_some (x := (s, i)) hb] at hkey
      have hsame : sortKey (t, j) = sortKey (s, i) := by
        rw [sortKey_of_some (x := (t, j)) ha, sortKey_of_some (x := (s, i)) hb, hkey]
      exact hne (Prod.mk.inj (hd.eq ht hs hsame)).2

/-! ## Result -/

theorem Distinct.event (hd : Distinct steps) (h : topologicalSort steps = .ok (some sorted))
    (attempts : Nat → Attempt) {i : Nat} {s : StepDef} (hs : steps[i]? = some s) :
    ∃ e, (i, e) ∈ (runSteps attempts sorted).trace := by
  obtain ⟨j, hj⟩ := Distinct.place hd h hs
  obtain ⟨e, he⟩ := event_of_sorted sorted attempts hj
  exact ⟨e, List.mem_of_getElem? he⟩

theorem lt_of_event (h : topologicalSort steps = .ok (some sorted)) {attempts : Nat → Attempt} {i : Nat} {e : Event}
    (he : (i, e) ∈ (runSteps attempts sorted).trace) : i < steps.length := by
  obtain ⟨j, x, hj, rfl, _⟩ := sorted_of_event he
  exact (List.getElem?_eq_some_iff.mp (getElem?_of_mem_sorted h (List.mem_of_getElem? hj))).1

theorem status_iff (hd : Distinct steps) (h : topologicalSort steps = .ok (some sorted)) (hne : sorted ≠ [])
    (attempts : Nat → Attempt) :
    let p := runSteps attempts sorted
    let status := determineFinalStatus p.succeeded p.failed
    (status = .succeeded ↔ ∀ i, i < steps.length → p.HasSucceeded i) ∧
    (status = .partiallySucceeded ↔
      (∃ i, i < steps.length ∧ p.HasSucceeded i) ∧ ∃ i, i < steps.length ∧ ¬ p.HasSucceeded i) ∧
    (status = .failed ↔ ∀ i, i < steps.length → ¬ p.HasSucceeded i) := by
  intro p status
  have hcourse := course_runSteps sorted attempts
  have hnd := nodup_sorted h
  have hall : p.failed = [] ↔ ∀ i, i < steps.length → p.HasSucceeded i := by
    rw [hcourse.failed_eq_nil]
    constructor
    · intro hgood i hi
      obtain ⟨e, he⟩ := hd.event h attempts (List.getElem?_eq_getElem hi)
      obtain rfl : e = .executed .coverage := hgood _ he
      exact he
    · intro hsucc t ht
      exact event_unique hnd ht (hsucc t.1 (lt_of_event h (e := t.2) ht))
  have hsome : p.succeeded ≠ [] ↔ ∃ i, i < steps.length ∧ p.HasSucceeded i := by
    rw [hcourse.succeeded]
    constructor
    · rintro ⟨⟨i, e⟩, ht, hgood⟩
      obtain rfl : e = .executed .coverage := hgood
      exact ⟨i, lt_of_event h ht, ht⟩
    · rintro ⟨i, _, ht⟩
      exact ⟨_, ht, rfl⟩
  have hstep : 0 < steps.length := by
    obtain ⟨x, hx⟩ := List.exists_mem_of_ne_nil sorted hne
    have := (List.getElem?_eq_some_iff.mp (getElem?_of_mem_sorted h hx)).1
    omega
  have hnot : (∃ i, i < steps.length ∧ ¬ p.HasSucceeded i) ↔ ¬ p.failed = [] := by
    rw [hall]
    push Not
    rfl
  have hnone : (∀ i, i < steps.length → ¬ p.HasSucceeded i) ↔ p.succeeded = [] := by
    rw [← not_iff_not, ← ne_eq, hsome]
    push Not
    rfl
  rw [hnot, ← hall, ← hsome, hnone]
  show (determineFinalStatus p.succeeded p.failed = _ ↔ _) ∧ (determineFinalStatus p.succeeded p.failed = _ ↔ _) ∧
    (determineFinalStatus p.succeeded p.failed = _ ↔ _)
  unfold determineFinalStatus
  by_cases hf : p.failed = []
  · -- nothing failed: some step has succeeded
    have hs : p.succeeded ≠ [] := hsome.mpr ⟨0, hstep, hall.mp hf 0 hstep⟩
    simp [hf, hs]
  · by_cases hs : p.succeeded = []
    · simp [hf, hs]
    · simp [hf, hs]

/-- **A run of a regular plan respects its dependencies.** -/
theorem respects_of_regular (hreg : Regular steps) (h : topologicalSort steps = .ok (some sorted)) (hne : sorted ≠ [])
    (attempts : Nat → Attempt) :
    Respects steps (runSteps attempts sorted)
      (determineFinalStatus (runSteps attempts sorted).succeeded (runSteps attempts sorted).failed) := by
  have hd := hreg.distinct
  have hnd := nodup_sorted h
  have hcourse := course_runSteps sorted attempts
  have hseen : ∀ {i k}, RunDepends sorted i k ↔ DependsInRun steps i k := runDepends_iff hd hreg.known h
  have hclosure : ∀ {i k}, TransGen (RunDepends sorted) i k ↔ TransGen (DependsOn steps) i k := by
    intro i k
    rw [hreg.followed, funext fun i => funext fun k => propext (@hseen i k)]
  obtain ⟨hsucceeded, hpartially, hfailed⟩ := status_iff hd h hne attempts
  refine ⟨fun i hi => ?_, fun i s hs => ?_, fun j i ht => ?_, fun i hskip => ?_, hsucceeded, hpartially, hfailed⟩
  · have hpos := hcourse.positions
    rw [List.take_length] at hpos
    obtain ⟨e, he⟩ := hd.event h attempts (List.getElem?_eq_getElem hi)
    refine List.count_eq_one_of_mem (hpos ▸ hnd) (List.mem_map.mpr ⟨_, he, rfl⟩)
  · constructor
    · rintro ⟨a, ha⟩ d hdep
      obtain ⟨k, t, ht, hk⟩ := hreg.known s (List.mem_of_getElem? hs) d hdep
      refine ⟨k, t, ht, hk, ?_⟩
      have hon : DependsOn steps i k := ⟨s, t, hs, ht, hk ▸ hdep⟩
      -- a failure of the dependency, or of what it depends on, skips the step
      have hskip : ∀ k' a', TransGen (DependsOn steps) i k' → (k', .executed a') ∈ (runSteps attempts sorted).trace →
          a' = .coverage := by
        intro k' a' hto hex
        by_contra hbad
        have := event_unique hnd ha ((skipped_iff hnd).mpr ⟨k', a', hclosure.mpr hto, hex, hbad⟩)
        cases this
      obtain ⟨e, he⟩ := hd.event h attempts ht
      cases e with
      | executed a' =>
        obtain rfl := hskip k a' (TransGen.single hon) he
        exact he
      | skipped =>
        obtain ⟨k', a', hto, hex, hbad⟩ := (skipped_iff hnd).mp he
        exact absurd (hskip k' a' (TransGen.head hon (hclosure.mp hto)) hex) hbad
    · intro hdeps
      obtain ⟨e, he⟩ := hd.event h attempts hs
      cases e with
      | executed a => exact ⟨a, he⟩
      | skipped =>
        obtain ⟨k', a', hto, hex, hbad⟩ := (skipped_iff hnd).mp he
        -- the first dependency on the way to the failed step did not succeed either
        obtain ⟨k, ⟨s', t, hs', ht, hk⟩, hrest⟩ := TransGen.head'_iff.mp (hclosure.mp hto)
        obtain rfl := Option.some.inj (hs.symm.trans hs')
        obtain ⟨k₂, t₂, ht₂, hkey, hsucc⟩ := hdeps _ hk
        have hsame := hd.eq (x := (t₂, k₂)) (y := (t, k)) ht₂ ht hkey
        obtain ⟨_, rfl⟩ := Prod.mk.inj hsame
        rcases Relation.reflTransGen_iff_eq_or_transGen.mp hrest with rfl | hmore
        · exact absurd (Event.executed.inj (event_unique hnd hex hsucc)) hbad
        · have := event_unique hnd hsucc ((skipped_iff hnd).mpr ⟨k', a', hclosure.mpr hmore, hex, hbad⟩)
          cases this
  · obtain ⟨⟨s, _⟩, hx, rfl⟩ := sorted_at_event ht
    obtain ⟨r, hr, _, _, hstatus⟩ := rows_runSteps sorted attempts j _ hx
    refine ⟨r, hr, hstatus (fun hshadow => ?_) .skipped ht⟩
    -- a skipped step depends on another, so no later step has its key
    obtain ⟨_, _, hto, _⟩ := (skipped_iff hnd).mp (List.mem_of_getElem? ht)
    obtain ⟨k, hdep, _⟩ := TransGen.head'_iff.mp hto
    obtain ⟨l, t, hl, hne', hkey, hno⟩ := (shadowed_iff hd h hx).mp hshadow
    have hs := getElem?_of_mem_sorted h (List.mem_of_getElem? hx)
    exact hno (hreg.recorded _ k l s t hs hl (hseen.mp hdep) hne' hkey)
  · obtain ⟨k, a, hto, hrest⟩ := (skipped_iff hnd).mp hskip
    exact ⟨k, a, hclosure.mp hto, hrest⟩

/-- Nobody fails but the step at position `k`. -/
def onlyFails (k : Nat) : Nat → Attempt := fun i => if i = k then .raised "" else .coverage

theorem onlyFails_self (k : Nat) : onlyFails k k ≠ .coverage := by simp [onlyFails]

theorem eq_of_onlyFails {k i : Nat} (h : onlyFails k i ≠ .coverage) : i = k := by
  by_contra hne
  exact h (if_neg hne)

/-- **A plan whose runs respect its dependencies is regular.** -/
theorem regular_of_respects (h : topologicalSort steps = .ok (some sorted))
    (hall : ∀ attempts, Respects steps (runSteps attempts sorted)
      (determineFinalStatus (runSteps attempts sorted).succeeded (runSteps attempts sorted).failed)) :
    Regular steps := by
  have hnd := nodup_sorted h
  have hevent : ∀ attempts {i s}, steps[i]? = some s → ∃ e, (i, e) ∈ (runSteps attempts sorted).trace := by
    intro attempts i s hs
    have hcount := (hall attempts).once i (List.getElem?_eq_some_iff.mp hs).1
    obtain ⟨⟨_, e⟩, he, rfl⟩ := List.mem_map.mp (List.count_pos_iff.mp (by rw [hcount]; exact Nat.one_pos))
    exact ⟨e, he⟩
  -- every step is in the table under its key, so no two have the same
  have hd : Distinct steps := by
    have hin : ∀ x ∈ steps.zipIdx, (stepMap steps).get? (sortKey x) = some x := by
      intro x hx
      have hx' := mem_placed.mp hx
      obtain ⟨e, he⟩ := hevent (fun _ => .coverage) hx'
      obtain ⟨j, y, hj, hy, _⟩ := sorted_of_event he
      have hmem := List.mem_of_getElem? hj
      have hy' := getElem?_of_mem_sorted h hmem
      rw [hy, hx'] at hy'
      obtain rfl : y = x := Prod.ext (Option.some.inj hy').symm hy
      exact (mem_sorted h).mp hmem
    have hpos : (steps.zipIdx.map Prod.snd).Nodup := by
      rw [List.zipIdx_map_snd]
      exact List.nodup_range'
    refine hpos.of_map.map_on fun x hx y hy hkey => ?_
    exact Option.some.inj ((hin x hx).symm.trans (hkey ▸ hin y hy))
  -- all steps are executed when nothing fails
  have hknown : Known steps := by
    intro s hs d hdep
    obtain ⟨i, hi⟩ := List.mem_iff_getElem?.mp hs
    obtain ⟨e, he⟩ := hevent (fun _ => .coverage) hi
    cases e with
    | executed a =>
      obtain ⟨k, t, ht, hk, _⟩ := ((hall (fun _ => .coverage)).executed i s hi).mp ⟨a, he⟩ d hdep
      exact ⟨k, t, ht, hk⟩
    | skipped =>
      obtain ⟨k, a, _, hex, hbad⟩ := (skipped_iff hnd).mp he
      exact absurd (attempt_of_executed hex) hbad
  have hseen : ∀ {i k}, RunDepends sorted i k ↔ DependsInRun steps i k := runDepends_iff hd hknown h
  -- the step that alone fails is executed
  have hfails : ∀ {k s}, steps[k]? = some s → (k, .executed (onlyFails k k)) ∈ (runSteps (onlyFails k) sorted).trace := by
    intro k s hs
    obtain ⟨e, he⟩ := hevent (onlyFails k) hs
    cases e with
    | executed a => exact attempt_of_executed he ▸ he
    | skipped =>
      obtain ⟨k', a, hto, hex, hbad⟩ := (skipped_iff hnd).mp he
      rw [attempt_of_executed hex] at hbad
      rw [eq_of_onlyFails hbad] at hto
      exact absurd hto (runDepends_irrefl hnd)
  have hskips : ∀ {i k}, (i, .skipped) ∈ (runSteps (onlyFails k) sorted).trace → TransGen (RunDepends sorted) i k := by
    intro i k hskip
    obtain ⟨k', a, hto, hex, hbad⟩ := (skipped_iff hnd).mp hskip
    rw [attempt_of_executed hex] at hbad
    exact eq_of_onlyFails hbad ▸ hto
  have hstep : ∀ {i k}, TransGen (RunDepends sorted) i k → ∃ s, steps[k]? = some s := by
    intro i k hto
    obtain ⟨_, _, _, _, _, y, _, _, _, hy, rfl, _⟩ := TransGen.tail'_iff.mp hto
    exact ⟨_, getElem?_of_mem_sorted h (List.mem_of_getElem? hy)⟩
  refine ⟨hd, hknown, fun i k => ?_, fun i k j s t hs ht hdep hne hkey => ?_⟩
  · rw [← funext fun i => funext fun k => propext (@hseen i k)]
    constructor
    · intro hto
      -- with `k` failing, whatever depends on it is skipped
      apply hskips
      have hk : ∃ t, steps[k]? = some t := by
        obtain ⟨_, _, _, t, _, ht, _⟩ := TransGen.tail'_iff.mp hto
        exact ⟨t, ht⟩
      obtain ⟨_, hk⟩ := hk
      have hspread : ∀ {i m}, DependsOn steps i m → ¬ (runSteps (onlyFails k) sorted).HasSucceeded m →
          (i, .skipped) ∈ (runSteps (onlyFails k) sorted).trace := by
        rintro i m ⟨s, t, hs, ht, hkey⟩ hno
        obtain ⟨e, he⟩ := hevent (onlyFails k) hs
        cases e with
        | skipped => exact he
        | executed a =>
          obtain ⟨m', t', ht', hkey', hsucc⟩ := ((hall (onlyFails k)).executed i s hs).mp ⟨a, he⟩ _ hkey
          have hsame := hd.eq (x := (t', m')) (y := (t, m)) ht' ht hkey'
          exact absurd ((Prod.mk.inj hsame).2 ▸ hsucc) hno
      induction hto using TransGen.head_induction_on with
      | single hon =>
        refine hspread hon fun hsucc => onlyFails_self k ?_
        exact Event.executed.inj (event_unique hnd (hfails hk) hsucc)
      | head hon _ ih =>
        refine hspread hon fun hsucc => ?_
        cases event_unique hnd ih hsucc
    · intro hto
      obtain ⟨s, hs⟩ := hstep hto
      have hskip := (skipped_iff hnd).mpr ⟨k, _, hto, hfails hs, onlyFails_self k⟩
      obtain ⟨k', a, hon, hex, hbad⟩ := (hall (onlyFails k)).because i hskip
      rw [attempt_of_executed hex] at hbad
      exact eq_of_onlyFails hbad ▸ hon
  · -- a skipped step is recorded in the last row with its key
    by_contra hno
    obtain ⟨l, hl⟩ := Distinct.place hd h hs
    have hshadow := (shadowed_iff hd h hl).mpr ⟨j, t, ht, hne, hkey, hno⟩
    obtain ⟨_, hk⟩ := hstep (TransGen.single (hseen.mpr hdep))
    have hskip := (skipped_iff hnd).mpr ⟨k, _, TransGen.single (hseen.mpr hdep), hfails hk, onlyFails_self k⟩
    obtain ⟨e, he⟩ := event_of_sorted sorted (onlyFails k) hl
    obtain rfl := event_unique hnd hskip (List.mem_of_getElem? he)
    obtain ⟨r, hr, hstatus⟩ := (hall (onlyFails k)).recorded l i he
    obtain ⟨r', hr', _, hpending, _⟩ := rows_runSteps sorted (onlyFails k) l _ hl
    obtain rfl := Option.some.inj (hr.symm.trans hr')
    have := hstatus.symm.trans (hpending hshadow)
    cases this

end Sorted

/-- The plan is accepted: its run comes to an end that is not an error. -/
def Accepted (steps : List StepDef) : Prop :=
  ∃ attempts progress status, executeRun steps attempts = .done progress status

/-- **A plan is run with respect for its dependencies**, whatever its steps come to, **exactly when it is regular.** -/
theorem respects_iff {steps : List StepDef} (h : Accepted steps) :
    (∀ attempts progress status, executeRun steps attempts = .done progress status →
      Respects steps progress status) ↔ Regular steps := by
  obtain ⟨_, _, _, hdone⟩ := h
  unfold executeRun at hdone
  split at hdone
  · cases hdone
  · cases hdone
  · next sorted hsorted =>
      split at hdone
      · cases hdone
      · next hne =>
          have hrun : ∀ attempts, executeRun steps attempts = .done (runSteps attempts sorted)
              (determineFinalStatus (runSteps attempts sorted).succeeded (runSteps attempts sorted).failed) := by
            intro attempts
            unfold executeRun
            rw [hsorted]
            exact if_neg hne
          constructor
          · intro hall
            exact regular_of_respects hsorted fun attempts => hall attempts _ _ (hrun attempts)
          · intro hreg attempts progress status heq
            rw [hrun attempts] at heq
            injection heq with hprogress hstatus
            rw [← hprogress, ← hstatus]
            exact respects_of_regular hreg hsorted hne attempts

/-- A chain of two steps with keys. -/
def chain : List StepDef :=
  [{ stepKey := some "a", method := some "llm" }, { stepKey := some "b", method := some "llm", dependencies := ["a"] }]

theorem respects_chain : (∃ attempts progress status, executeRun chain attempts = .done progress status) ∧
    ∀ attempts progress status, executeRun chain attempts = .done progress status →
      Respects chain progress status := by
  refine ⟨⟨fun _ => .coverage, _, _, rfl⟩,
    (respects_iff ⟨fun _ => .coverage, _, _, rfl⟩).mpr (regular_of_keyed ?_ ?_ ?_)⟩
  · decide
  · show (chain.zipIdx.map sortKey).Nodup
    decide
  · intro s hs d hd
    refine ⟨0, _, rfl, ?_⟩
    have hall : ∀ s ∈ chain, ∀ d ∈ s.dependencies, d = "a" := by decide
    exact (hall s hs d hd).symm

/-- A step that depends on one the plan does not have. -/
def dangling : List StepDef := [{ stepKey := some "a", method := some "llm", dependencies := ["zz"] }]

/-- **The step is executed.** -/
theorem not_respects : ∃ progress status, executeRun dangling (fun _ => .coverage) = .done progress status ∧
    ¬ Respects dangling progress status := by
  refine ⟨_, _, rfl, fun hrespects => ?_⟩
  obtain ⟨k, t, ht, hkey, _⟩ := (hrespects.executed 0 _ rfl).mp ⟨.coverage, by decide⟩ "zz" (by decide)
  -- the only key is `a`
  have hmem : sortKey (t, k) ∈ dangling.zipIdx.map sortKey := List.mem_map.mpr ⟨_, mem_placed.mpr ht, rfl⟩
  rw [show sortKey (t, k) = "zz" from hkey] at hmem
  revert hmem
  decide

end Irip.Execution
