import Irip.Execution.Dag

/-!
# `Execution.Course` — what the loop of a run has done

`Course` is what the loop has done after some of the steps, `Rows` what is in the rows by then.
-/

namespace Irip.Execution

open Relation (TransGen)

/-! ## One step of the loop -/

/-- The status an event leaves in the row of its step. -/
def Event.status : Event → StepStatus
  | .executed attempt => (executeStep attempt).1
  | .skipped => .skipped

/-- What the loop does about the next step. -/
def nextEvent (attempts : Nat → Attempt) (p : Progress) (x : Placed) : Event :=
  if x.1.dependencies.any (fun d => d ∈ p.failed) then .skipped else .executed (attempts x.2)

theorem map_stepKey_setStatus (key : String) (status : StepStatus) (rows : List StepRow) :
    (setStatus key status rows).map StepRow.stepKey = rows.map StepRow.stepKey := by
  induction rows with
  | nil => rfl
  | cons r rs ih =>
    unfold setStatus
    split
    · rfl
    · rw [List.map_cons, List.map_cons, ih]

theorem setStatus_setStatus (key : String) (s s' : StepStatus) (rows : List StepRow) :
    setStatus key s (setStatus key s' rows) = setStatus key s rows := by
  induction rows with
  | nil => rfl
  | cons r rs ih =>
    by_cases h : r.stepKey = key ∧ key ∉ rs.map StepRow.stepKey
    · simp only [setStatus, if_pos h]
    · have h' : ¬ (r.stepKey = key ∧ key ∉ (setStatus key s' rs).map StepRow.stepKey) := by
        rw [map_stepKey_setStatus]
        exact h
      rw [setStatus, if_neg h, setStatus, if_neg h', ih, setStatus, if_neg h]

/-- **One step**, by the event it comes to. -/
theorem runStep_eq (attempts : Nat → Attempt) (p : Progress) (x : Placed × Nat) :
    runStep attempts p x =
      { rows := setStatus (x.1.1.keyAt x.2) (nextEvent attempts p x.1).status p.rows
        failed := if (nextEvent attempts p x.1).good then p.failed else p.failed ++ [x.1.1.keyAt x.2]
        succeeded := if (nextEvent attempts p x.1).good then p.succeeded ++ [x.1.1.keyAt x.2] else p.succeeded
        trace := p.trace ++ [(x.1.2, nextEvent attempts p x.1)] } := by
  unfold runStep nextEvent
  dsimp only
  split
  · simp [Event.good, Event.status]
  · cases attempts x.1.2 <;> simp [Event.good, Event.status, executeStep, setStatus_setStatus]

/-! ## The course of a run -/

/-- A step that ran before step `j` of the sorted list, did not succeed, and goes by a key that `x` depends on. -/
def Blocked (sorted : List Placed) (events : List (Nat × Event)) (j : Nat) (x : Placed) : Prop :=
  ∃ l y e, l < j ∧ sorted[l]? = some y ∧ events[l]? = some (y.2, e) ∧ ¬ e.good ∧ y.1.keyAt l ∈ x.1.dependencies

/-- What the loop has done after `m` of the sorted steps. -/
structure Course (sorted : List Placed) (attempts : Nat → Attempt) (m : Nat) (p : Progress) : Prop where
  positions : p.trace.map Prod.fst = (sorted.take m).map Prod.snd
  failed : ∀ k, k ∈ p.failed ↔
    ∃ l y e, l < m ∧ sorted[l]? = some y ∧ p.trace[l]? = some (y.2, e) ∧ ¬ e.good ∧ y.1.keyAt l = k
  succeeded : p.succeeded ≠ [] ↔ ∃ t ∈ p.trace, t.2.good
  event : ∀ j x e, sorted[j]? = some x → p.trace[j]? = some (x.2, e) →
    (Blocked sorted p.trace j x ∧ e = .skipped) ∨ (¬ Blocked sorted p.trace j x ∧ e = .executed (attempts x.2))
  rowKeys : p.rows.map StepRow.stepKey = (initRows sorted).map StepRow.stepKey

section Course

variable {sorted : List Placed} {attempts : Nat → Attempt} {m : Nat} {p : Progress}

theorem Course.length (h : Course sorted attempts m p) (hm : m ≤ sorted.length) : p.trace.length = m := by
  have hlen := congrArg List.length h.positions
  rw [List.length_map, List.length_map, List.length_take] at hlen
  omega

theorem blocked_append {events : List (Nat × Event)} {t : Nat × Event} {j : Nat} {x : Placed}
    (hj : j ≤ events.length) : Blocked sorted (events ++ [t]) j x ↔ Blocked sorted events j x := by
  have hsame : ∀ l, l < j → (events ++ [t])[l]? = events[l]? := fun l hl => List.getElem?_append_left (by omega)
  constructor
  · rintro ⟨l, y, e, hl, hy, ht, hrest⟩
    exact ⟨l, y, e, hl, hy, hsame l hl ▸ ht, hrest⟩
  · rintro ⟨l, y, e, hl, hy, ht, hrest⟩
    exact ⟨l, y, e, hl, hy, (hsame l hl).symm ▸ ht, hrest⟩

theorem course_start (sorted : List Placed) (attempts : Nat → Attempt) :
    Course sorted attempts 0 { rows := initRows sorted } where
  positions := rfl
  failed k := by simp
  succeeded := by simp
  event j x e _ ht := by simp at ht
  rowKeys := rfl

/-- **One step of the course.** -/
theorem Course.step (h : Course sorted attempts m p) {x : Placed} (hx : sorted[m]? = some x) :
    Course sorted attempts (m + 1) (runStep attempts p (x, m)) := by
  have hlt := (List.getElem?_eq_some_iff.mp hx).1
  have hlen := h.length (Nat.le_of_lt hlt)
  have hold : ∀ l, l < m → ∀ t, (p.trace ++ [t])[l]? = p.trace[l]? :=
    fun l hl t => List.getElem?_append_left (by omega)
  have hnew : ∀ t, (p.trace ++ [t])[m]? = some t := by
    intro t
    rw [← hlen]
    exact List.getElem?_concat_length
  -- the loop looks at the keys of the steps that did not succeed
  have hblocked : (x.1.dependencies.any (fun d => d ∈ p.failed)) = true ↔ Blocked sorted p.trace m x := by
    rw [List.any_eq_true]
    constructor
    · rintro ⟨d, hd, hfailed⟩
      obtain ⟨l, y, e, hl, hy, ht, hbad, rfl⟩ := (h.failed d).mp (by simpa using hfailed)
      exact ⟨l, y, e, hl, hy, ht, hbad, hd⟩
    · rintro ⟨l, y, e, hl, hy, ht, hbad, hd⟩
      exact ⟨_, hd, by simpa using (h.failed _).mpr ⟨l, y, e, hl, hy, ht, hbad, rfl⟩⟩
  rw [runStep_eq]
  constructor
  · have htake : sorted.take (m + 1) = sorted.take m ++ [x] := by
      rw [List.take_add_one, hx]
      rfl
    rw [htake, List.map_append, List.map_append, h.positions]
    rfl
  · intro k
    have hmem : k ∈ (if (nextEvent attempts p x).good then p.failed else p.failed ++ [x.1.keyAt m]) ↔
        k ∈ p.failed ∨ (¬ (nextEvent attempts p x).good ∧ k = x.1.keyAt m) := by
      split
      · next hgood => simp [hgood]
      · next hbad => simp [hbad]
    rw [hmem, h.failed]
    constructor
    · rintro (⟨l, y, e, hl, hy, ht, hrest⟩ | ⟨hbad, rfl⟩)
      · exact ⟨l, y, e, by omega, hy, by rw [hold l hl]; exact ht, hrest⟩
      · exact ⟨m, x, _, by omega, hx, hnew _, hbad, rfl⟩
    · rintro ⟨l, y, e, hl, hy, ht, hbad, hk⟩
      rcases Nat.lt_succ_iff_lt_or_eq.mp hl with hl | rfl
      · rw [hold l hl] at ht
        exact .inl ⟨l, y, e, hl, hy, ht, hbad, hk⟩
      · rw [hnew] at ht
        obtain rfl := Option.some.inj (hx.symm.trans hy)
        obtain ⟨_, rfl⟩ := Prod.mk.inj (Option.some.inj ht)
        exact .inr ⟨hbad, hk.symm⟩
  · by_cases hgood : (nextEvent attempts p x).good
    · have hmem : ∃ t ∈ p.trace ++ [(x.2, nextEvent attempts p x)], t.2.good :=
        ⟨_, List.mem_append_right _ List.mem_cons_self, hgood⟩
      simp only [if_pos hgood]
      exact ⟨fun _ => hmem, fun _ => by simp⟩
    · simp only [if_neg hgood]
      rw [h.succeeded]
      constructor
      · rintro ⟨t, ht, hg⟩
        exact ⟨t, List.mem_append_left _ ht, hg⟩
      · rintro ⟨t, ht, hg⟩
        rcases List.mem_append.mp ht with ht | ht
        · exact ⟨t, ht, hg⟩
        · rw [List.mem_singleton.mp ht] at hg
          exact absurd hg hgood
  · intro j y e hj ht
    have hjm : j ≤ m := by
      have hlt' := (List.getElem?_eq_some_iff.mp ht).1
      rw [List.length_append, hlen] at hlt'
      simp at hlt'
      omega
    rw [blocked_append (by omega)]
    rcases Nat.lt_or_eq_of_le hjm with hj' | rfl
    · rw [hold j hj'] at ht
      exact h.event j y e hj ht
    · obtain rfl := Option.some.inj (hx.symm.trans hj)
      rw [hnew] at ht
      obtain ⟨_, rfl⟩ := Prod.mk.inj (Option.some.inj ht)
      by_cases hb : Blocked sorted p.trace j x
      · exact .inl ⟨hb, if_pos (hblocked.mpr hb)⟩
      · exact .inr ⟨hb, if_neg (fun hany => hb (hblocked.mp hany))⟩
  · exact (map_stepKey_setStatus _ _ _).trans h.rowKeys

theorem course_take (hm : m ≤ sorted.length) :
    Course sorted attempts m ((sorted.zipIdx.take m).foldl (runStep attempts) { rows := initRows sorted }) := by
  induction m with
  | zero => exact course_start sorted attempts
  | succ m ih =>
    have hget : sorted.zipIdx[m]? = some (sorted[m], m) := by
      rw [List.getElem?_zipIdx, List.getElem?_eq_getElem hm]
      simp
    rw [List.take_add_one, hget]
    simp only [Option.toList_some, List.foldl_append, List.foldl_cons, List.foldl_nil]
    exact (ih (by omega)).step (List.getElem?_eq_getElem hm)

theorem runSteps_eq_take (attempts : Nat → Attempt) (sorted : List Placed) :
    runSteps attempts sorted =
      (sorted.zipIdx.take sorted.length).foldl (runStep attempts) { rows := initRows sorted } := by
  have hall : sorted.zipIdx.take sorted.length = sorted.zipIdx :=
    List.take_of_length_le (Nat.le_of_eq List.length_zipIdx)
  rw [hall]
  rfl

/-- **The course of a run.** -/
theorem course_runSteps (sorted : List Placed) (attempts : Nat → Attempt) :
    Course sorted attempts sorted.length (runSteps attempts sorted) := by
  rw [runSteps_eq_take]
  exact course_take (Nat.le_refl _)

theorem Course.failed_eq_nil (h : Course sorted attempts sorted.length p) :
    p.failed = [] ↔ ∀ t ∈ p.trace, t.2.good := by
  rw [List.eq_nil_iff_forall_not_mem]
  constructor
  · intro hnone t ht
    by_contra hbad
    obtain ⟨l, hl⟩ := List.mem_iff_getElem?.mp ht
    have hlt : l < sorted.length := h.length (Nat.le_refl _) ▸ (List.getElem?_eq_some_iff.mp hl).1
    have hpos := congrArg (fun is => is[l]?) h.positions
    simp only [List.take_length, List.getElem?_map, hl, List.getElem?_eq_getElem hlt, Option.map_some,
      Option.some.injEq] at hpos
    refine hnone _ ((h.failed _).mpr ⟨l, sorted[l], t.2, hlt, List.getElem?_eq_getElem hlt, ?_, hbad, rfl⟩)
    rw [hl, ← hpos]
  · intro hall k hk
    obtain ⟨l, y, e, _, _, ht, hbad, _⟩ := (h.failed k).mp hk
    exact hbad (hall _ (List.mem_of_getElem? ht))

/-! ### Rows -/

theorem setStatus_last {key : String} {status : StepStatus} {rows : List StepRow} {j : Nat} {r : StepRow}
    (hj : rows[j]? = some r) (hkey : r.stepKey = key)
    (hlast : ∀ l r', j < l → rows[l]? = some r' → r'.stepKey ≠ key) :
    (setStatus key status rows)[j]? = some { r with status := status } := by
  induction rows generalizing j with
  | nil => simp at hj
  | cons r₀ rs ih =>
    cases j with
    | zero =>
      obtain rfl : r₀ = r := by simpa using hj
      have hnot : key ∉ rs.map StepRow.stepKey := by
        intro hmem
        obtain ⟨r', hr', hk⟩ := List.mem_map.mp hmem
        obtain ⟨l, hl⟩ := List.mem_iff_getElem?.mp hr'
        exact hlast (l + 1) r' (Nat.succ_pos l) (by simpa using hl) hk
      rw [setStatus, if_pos ⟨hkey, hnot⟩]
      rfl
    | succ j =>
      have hj' : rs[j]? = some r := by simpa using hj
      have hmem : key ∈ rs.map StepRow.stepKey := List.mem_map.mpr ⟨r, List.mem_of_getElem? hj', hkey⟩
      rw [setStatus, if_neg (fun h => h.2 hmem), List.getElem?_cons_succ]
      exact ih hj' fun l r' hl hr' => hlast (l + 1) r' (by omega) (by simpa using hr')

theorem setStatus_other {key : String} {status : StepStatus} {rows : List StepRow} {j : Nat} {r : StepRow}
    (hj : rows[j]? = some r)
    (hother : r.stepKey ≠ key ∨ ∃ l r', j < l ∧ rows[l]? = some r' ∧ r'.stepKey = key) :
    (setStatus key status rows)[j]? = some r := by
  induction rows generalizing j with
  | nil => simp at hj
  | cons r₀ rs ih =>
    unfold setStatus
    cases j with
    | zero =>
      obtain rfl : r₀ = r := by simpa using hj
      have hnot : ¬ (r₀.stepKey = key ∧ key ∉ rs.map StepRow.stepKey) := by
        rintro ⟨hk, hmem⟩
        rcases hother with hne | ⟨l, r', hl, hr', hk'⟩
        · exact hne hk
        · cases l with
          | zero => omega
          | succ l => exact hmem (List.mem_map.mpr ⟨r', List.mem_of_getElem? (by simpa using hr'), hk'⟩)
      rw [if_neg hnot]
      rfl
    | succ j =>
      have hj' : rs[j]? = some r := by simpa using hj
      split
      · exact hj
      · rw [List.getElem?_cons_succ]
        refine ih hj' ?_
        rcases hother with hne | ⟨l, r', hl, hr', hk'⟩
        · exact .inl hne
        · cases l with
          | zero => omega
          | succ l => exact .inr ⟨l, r', by omega, by simpa using hr', hk'⟩

/-- A step that runs later goes by the same key. -/
def Shadowed (sorted : List Placed) (j : Nat) (x : Placed) : Prop :=
  ∃ l y, j < l ∧ sorted[l]? = some y ∧ y.1.keyAt l = x.1.keyAt j

/-- The rows after `m` of the sorted steps: what has happened to a step is in its row, unless a later step goes by
its key. -/
def Rows (sorted : List Placed) (m : Nat) (p : Progress) : Prop :=
  ∀ j x, sorted[j]? = some x → ∃ r, p.rows[j]? = some r ∧ r.stepKey = x.1.keyAt j ∧
    (Shadowed sorted j x → r.status = .pending) ∧
    (¬ Shadowed sorted j x → ∀ e, p.trace[j]? = some (x.2, e) → r.status = e.status)

theorem rows_start (sorted : List Placed) : Rows sorted 0 { rows := initRows sorted } := by
  intro j x hj
  refine ⟨{ stepKey := x.1.keyAt j, stepIndex := j, method := x.1.method.getD "python",
            dependsOn := x.1.dependencies }, ?_, rfl, fun _ => rfl, fun _ e he => by simp at he⟩
  show (sorted.zipIdx.map _)[j]? = _
  rw [List.getElem?_map, List.getElem?_zipIdx, hj]
  simp

/-- **One step of the rows.** -/
theorem Rows.step (h : Rows sorted m p) (hrows : p.rows.length = sorted.length) (hlen : p.trace.length = m)
    {x : Placed} (hx : sorted[m]? = some x) : Rows sorted (m + 1) (runStep attempts p (x, m)) := by
  rw [runStep_eq]
  intro j y hj
  obtain ⟨r, hr, hk, hpending, hstatus⟩ := h j y hj
  by_cases hshadow : Shadowed sorted j y
  · -- its row is not the last with its key
    refine ⟨r, setStatus_other hr ?_, hk, hpending, fun hno => absurd hshadow hno⟩
    obtain ⟨l, z, hl, hz, hsame⟩ := hshadow
    by_cases hkey : r.stepKey = x.1.keyAt m
    · obtain ⟨r', hr', hk', _⟩ := h l z hz
      exact .inr ⟨l, r', hl, hr', by rw [hk', hsame, ← hk, hkey]⟩
    · exact .inl hkey
  · by_cases hkey : r.stepKey = x.1.keyAt m
    · -- its own key is set: it is the step at `m`, or one still to come
      have hle : m ≤ j := by
        by_contra hlt
        exact hshadow ⟨m, x, by omega, hx, by rw [← hkey, hk]⟩
      have hlast : ∀ l r', j < l → p.rows[l]? = some r' → r'.stepKey ≠ x.1.keyAt m := by
        intro l r' hl hr' hk'
        have hlt : l < sorted.length := hrows ▸ (List.getElem?_eq_some_iff.mp hr').1
        obtain ⟨r₂, hr₂, hk₂, _⟩ := h l sorted[l] (List.getElem?_eq_getElem hlt)
        obtain rfl := Option.some.inj (hr'.symm.trans hr₂)
        exact hshadow ⟨l, sorted[l], hl, List.getElem?_eq_getElem hlt, by rw [← hk₂, hk', ← hkey, hk]⟩
      refine ⟨_, setStatus_last hr hkey hlast, hk, fun hyes => absurd hyes hshadow, fun _ e he => ?_⟩
      have hlt := (List.getElem?_eq_some_iff.mp he).1
      rw [List.length_append, hlen, List.length_singleton] at hlt
      obtain rfl : j = p.trace.length := by omega
      rw [List.getElem?_concat_length] at he
      obtain ⟨_, rfl⟩ := Prod.mk.inj (Option.some.inj he)
      rfl
    · refine ⟨r, setStatus_other hr (.inl hkey), hk, fun hyes => absurd hyes hshadow, fun _ e he => ?_⟩
      have hlt : j < m := by
        have hlt := (List.getElem?_eq_some_iff.mp he).1
        rw [List.length_append, hlen, List.length_singleton] at hlt
        by_contra hge
        obtain rfl : j = m := by omega
        obtain rfl := Option.some.inj (hx.symm.trans hj)
        exact hkey hk
      rw [List.getElem?_append_left (by omega)] at he
      exact hstatus hshadow e he

theorem rows_take (hm : m ≤ sorted.length) :
    Rows sorted m ((sorted.zipIdx.take m).foldl (runStep attempts) { rows := initRows sorted }) := by
  induction m with
  | zero => exact rows_start sorted
  | succ m ih =>
    have hcourse : Course sorted attempts m _ := course_take (show m ≤ sorted.length by omega)
    have hget : sorted.zipIdx[m]? = some (sorted[m], m) := by
      rw [List.getElem?_zipIdx, List.getElem?_eq_getElem hm]
      simp
    rw [List.take_add_one, hget]
    simp only [Option.toList_some, List.foldl_append, List.foldl_cons, List.foldl_nil]
    refine (ih (by omega)).step ?_ (hcourse.length (by omega)) (List.getElem?_eq_getElem hm)
    have hcount := congrArg List.length hcourse.rowKeys
    simpa [initRows] using hcount

theorem rows_runSteps (sorted : List Placed) (attempts : Nat → Attempt) :
    Rows sorted sorted.length (runSteps attempts sorted) := by
  rw [runSteps_eq_take]
  exact rows_take (Nat.le_refl _)

end Course

/-! ## Failures spread -/

/-- A dependency that the loop sees: the step at position `i` names the key of one that ran before it. -/
def RunDepends (sorted : List Placed) (i k : Nat) : Prop :=
  ∃ (j : Nat) (x : Placed) (l : Nat) (y : Placed), sorted[j]? = some x ∧ x.2 = i ∧ l < j ∧ sorted[l]? = some y ∧
    y.2 = k ∧ y.1.keyAt l ∈ x.1.dependencies

section Spread

variable {sorted : List Placed} {attempts : Nat → Attempt}

theorem event_of_sorted (sorted : List Placed) (attempts : Nat → Attempt) {j : Nat} {x : Placed}
    (hj : sorted[j]? = some x) : ∃ e, (runSteps attempts sorted).trace[j]? = some (x.2, e) := by
  have hpos := (course_runSteps sorted attempts).positions
  rw [List.take_length] at hpos
  have hget := congrArg (fun l => l[j]?) hpos
  simp only [List.getElem?_map, hj, Option.map_some] at hget
  obtain ⟨⟨i, e⟩, ht, hi⟩ := Option.map_eq_some_iff.mp hget
  exact ⟨e, by rw [ht]; exact congrArg (fun i => some (i, e)) hi⟩

theorem sorted_at_event {j i : Nat} {e : Event} (h : (runSteps attempts sorted).trace[j]? = some (i, e)) :
    ∃ x : Placed, sorted[j]? = some x ∧ x.2 = i := by
  have hpos := (course_runSteps sorted attempts).positions
  rw [List.take_length] at hpos
  have hget := congrArg (fun l => l[j]?) hpos
  simp only [List.getElem?_map, h, Option.map_some] at hget
  exact Option.map_eq_some_iff.mp hget.symm

theorem sorted_of_event {i : Nat} {e : Event} (h : (i, e) ∈ (runSteps attempts sorted).trace) :
    ∃ (j : Nat) (x : Placed), sorted[j]? = some x ∧ x.2 = i ∧ (runSteps attempts sorted).trace[j]? = some (i, e) := by
  obtain ⟨j, hj⟩ := List.mem_iff_getElem?.mp h
  obtain ⟨x, hx, hi⟩ := sorted_at_event hj
  exact ⟨j, x, hx, hi, hj⟩

theorem event_unique (hnd : (sorted.map Prod.snd).Nodup) {i : Nat} {e e' : Event}
    (h : (i, e) ∈ (runSteps attempts sorted).trace) (h' : (i, e') ∈ (runSteps attempts sorted).trace) : e = e' := by
  have hpos := (course_runSteps sorted attempts).positions
  rw [List.take_length] at hpos
  have heq := List.inj_on_of_nodup_map (hpos.symm ▸ hnd) h h' rfl
  exact (Prod.mk.inj heq).2

theorem attempt_of_executed {i : Nat} {a : Attempt} (h : (i, .executed a) ∈ (runSteps attempts sorted).trace) :
    a = attempts i := by
  obtain ⟨j, x, hj, rfl, ht⟩ := sorted_of_event h
  rcases (course_runSteps sorted attempts).event j x _ hj ht with ⟨_, he⟩ | ⟨_, he⟩
  · cases he
  · exact Event.executed.inj he

theorem skipped_of_runDepends (hnd : (sorted.map Prod.snd).Nodup) {i k : Nat} {e : Event}
    (hdep : RunDepends sorted i k) (hk : (k, e) ∈ (runSteps attempts sorted).trace) (hbad : ¬ e.good) :
    (i, .skipped) ∈ (runSteps attempts sorted).trace := by
  obtain ⟨j, x, l, y, hj, rfl, hl, hy, rfl, hkey⟩ := hdep
  obtain ⟨e', he'⟩ := event_of_sorted sorted attempts hy
  obtain rfl := event_unique hnd hk (List.mem_of_getElem? he')
  obtain ⟨f, hf⟩ := event_of_sorted sorted attempts hj
  rcases (course_runSteps sorted attempts).event j x f hj hf with ⟨_, rfl⟩ | ⟨hno, _⟩
  · exact List.mem_of_getElem? hf
  · exact absurd ⟨l, y, e, hl, hy, he', hbad, hkey⟩ hno

theorem failed_of_skipped (j : Nat) {x : Placed} (hj : sorted[j]? = some x)
    (hskip : (runSteps attempts sorted).trace[j]? = some (x.2, .skipped)) :
    ∃ k a, TransGen (RunDepends sorted) x.2 k ∧ (k, .executed a) ∈ (runSteps attempts sorted).trace ∧
      a ≠ .coverage := by
  induction j using Nat.strongRecOn generalizing x with
  | ind j ih =>
    rcases (course_runSteps sorted attempts).event j x _ hj hskip with ⟨hblocked, _⟩ | ⟨_, he⟩
    · obtain ⟨l, y, e, hl, hy, ht, hbad, hkey⟩ := hblocked
      have hdep : RunDepends sorted x.2 y.2 := ⟨j, x, l, y, hj, rfl, hl, hy, rfl, hkey⟩
      cases e with
      | executed a =>
        refine ⟨y.2, a, TransGen.single hdep, List.mem_of_getElem? ht, ?_⟩
        rintro rfl
        exact hbad rfl
      | skipped =>
        obtain ⟨k, a, hclosure, hrest⟩ := ih l hl hy ht
        exact ⟨k, a, TransGen.head hdep hclosure, hrest⟩
    · cases he

/-- **A step is skipped when one that it depends on fails.** -/
theorem skipped_iff (hnd : (sorted.map Prod.snd).Nodup) {i : Nat} :
    (i, .skipped) ∈ (runSteps attempts sorted).trace ↔
      ∃ k a, TransGen (RunDepends sorted) i k ∧ (k, .executed a) ∈ (runSteps attempts sorted).trace ∧
        a ≠ .coverage := by
  constructor
  · intro h
    obtain ⟨j, x, hj, rfl, ht⟩ := sorted_of_event h
    exact failed_of_skipped j hj ht
  · rintro ⟨k, a, hclosure, hk, hbad⟩
    have hgood : ¬ (Event.executed a).good := fun hg => hbad (Event.executed.inj hg)
    induction hclosure using TransGen.head_induction_on with
    | single hdep => exact skipped_of_runDepends hnd hdep hk hgood
    | head hdep _ ih => exact skipped_of_runDepends hnd hdep ih (fun hg => by cases hg)

theorem runDepends_irrefl (hnd : (sorted.map Prod.snd).Nodup) {i : Nat} :
    ¬ TransGen (RunDepends sorted) i i := by
  -- every dependency leads to an earlier place
  have hless : ∀ {i k}, TransGen (RunDepends sorted) i k → ∀ {j l : Nat} {x y : Placed}, sorted[j]? = some x →
      x.2 = i → sorted[l]? = some y → y.2 = k → l < j := by
    intro i k h
    have hsame : ∀ {j j' : Nat} {x x' : Placed}, sorted[j]? = some x → sorted[j']? = some x' → x.2 = x'.2 → j = j' := by
      intro j j' x x' hj hj' heq
      have hlt := (List.getElem?_eq_some_iff.mp hj).1
      refine (List.getElem?_inj (by simpa using hlt) hnd).mp ?_
      rw [List.getElem?_map, List.getElem?_map, hj, hj', Option.map_some, Option.map_some, heq]
    induction h using TransGen.head_induction_on with
    | single hdep =>
      intro j l x y hj hx hl hy
      obtain ⟨j', x', l', y', hj', hx', hlt, hl', hy', _⟩ := hdep
      obtain rfl := hsame hj hj' (hx.trans hx'.symm)
      obtain rfl := hsame hl hl' (hy.trans hy'.symm)
      exact hlt
    | head hdep _ ih =>
      intro j l x y hj hx hl hy
      obtain ⟨j', x', l', y', hj', hx', hlt, hl', hy', _⟩ := hdep
      obtain rfl := hsame hj hj' (hx.trans hx'.symm)
      have := ih hl' hy' hl hy
      omega
  intro h
  obtain ⟨k, ⟨j, x, _, _, hj, hx, _⟩, _⟩ := TransGen.head'_iff.mp h
  exact Nat.lt_irrefl j (hless h hj hx hj hx)

end Spread

end Irip.Execution
