import Irip.Base.Search

/-!
# `Base.Levels` — the order of a breadth-first search

The search of `Base.Search` goes through its graph level by level: the nodes of a level are those discovered from the
level above, each at the place of its first discovery. The levels are defined without a queue, and the visits of the
search are shown to be the levels one after another.
-/

namespace Search

variable {α : Type} [DecidableEq α]

/-! ## Levels -/

section Levels

variable (next : α → List α) (t : α)

/-- The nodes of the levels above `n`, and the level `n`. -/
def split : Nat → List α × List α
  | 0 => ([], [t])
  | n + 1 =>
    let before := (split n).1 ++ (split n).2
    (before, (((split n).2.flatMap next).filter (fun j => j ∉ before)).eraseDups)

/-- The nodes of a level in the order of their discovery. -/
def level (n : Nat) : List α := (split next t n).2

/-- The nodes of the levels above. -/
def above (n : Nat) : List α := (split next t n).1

/-- The levels from `n` on down to the limit, each node with its depth. -/
def levels (n count : Nat) : List (α × Nat) :=
  (List.range' n count).flatMap (fun m => (level next t m).map (fun k => (k, m)))

end Levels

section LevelFacts

variable {next : α → List α} {t : α} {n : Nat} {k : α}

theorem above_succ (next : α → List α) (t : α) (n : Nat) : above next t (n + 1) = above next t n ++ level next t n := rfl

theorem level_succ (next : α → List α) (t : α) (n : Nat) :
    level next t (n + 1)
      = (((level next t n).flatMap next).filter (fun j => j ∉ above next t n ++ level next t n)).eraseDups := rfl

theorem nodup_eraseDups : ∀ ks : List α, ks.eraseDups.Nodup
  | [] => List.nodup_nil
  | k :: ks => by
    rw [List.eraseDups_cons, List.nodup_cons]
    refine ⟨?_, nodup_eraseDups (ks.filter (fun j => !j == k))⟩
    intro hk
    have hfilter := (List.mem_filter.mp (List.mem_eraseDups.mp hk)).2
    simp at hfilter
  termination_by ks => ks.length
  decreasing_by exact Nat.lt_succ_of_le (List.length_filter_le _ _)

theorem mem_level_succ : k ∈ level next t (n + 1) ↔
    (∃ j ∈ level next t n, k ∈ next j) ∧ k ∉ above next t n ∧ k ∉ level next t n := by
  rw [level_succ, List.mem_eraseDups, List.mem_filter, List.mem_flatMap]
  simp

theorem mem_split_iff (next : α → List α) (t : α) (n : Nat) :
    (∀ k, k ∈ above next t n ↔ ∃ m < n, Reaches next t m k) ∧
    (∀ k, k ∈ level next t n ↔ Reaches next t n k ∧ ∀ m < n, ¬ Reaches next t m k) := by
  induction n with
  | zero =>
    refine ⟨fun k => ?_, fun k => ?_⟩
    · simp [above, split]
    · have hlevel : level next t 0 = [t] := rfl
      rw [hlevel, List.mem_singleton]
      constructor
      · rintro rfl
        exact ⟨.start, fun m hm => absurd hm (Nat.not_lt_zero m)⟩
      · rintro ⟨hk, -⟩
        cases hk
        rfl
  | succ n ih =>
    obtain ⟨habove, hlevel⟩ := ih
    have hnext : ∀ k, k ∈ above next t (n + 1) ↔ ∃ m < n + 1, Reaches next t m k := by
      intro k
      rw [above_succ, List.mem_append, habove, hlevel]
      constructor
      · rintro (⟨m, hm, hk⟩ | ⟨hk, -⟩)
        · exact ⟨m, by omega, hk⟩
        · exact ⟨n, Nat.lt_succ_self n, hk⟩
      · rintro ⟨m, hm, hk⟩
        by_cases hbefore : ∃ m < n, Reaches next t m k
        · exact .inl hbefore
        · -- then the walk found is one of `n` steps
          obtain rfl : m = n := by
            by_contra hne
            exact hbefore ⟨m, by omega, hk⟩
          exact .inr ⟨hk, fun i hi h => hbefore ⟨i, hi, h⟩⟩
    refine ⟨hnext, fun k => ?_⟩
    have hnew : (k ∉ above next t n ∧ k ∉ level next t n) ↔ ∀ m < n + 1, ¬ Reaches next t m k := by
      rw [← not_or, ← List.mem_append, ← above_succ, hnext]
      simp
    rw [mem_level_succ, hnew]
    constructor
    · rintro ⟨⟨j, hj, hk⟩, hfew⟩
      exact ⟨.step ((hlevel j).mp hj).1 hk, hfew⟩
    · rintro ⟨hk, hfew⟩
      refine ⟨?_, hfew⟩
      cases hk with
      | @step n j k hj hk =>
        refine ⟨j, (hlevel j).mpr ⟨hj, fun m hm h => ?_⟩, hk⟩
        -- a shorter walk to `j` would give a shorter one to `k`
        exact hfew (m + 1) (by omega) (.step h hk)

theorem mem_above_iff : k ∈ above next t n ↔ ∃ m < n, Reaches next t m k := (mem_split_iff next t n).1 k

theorem mem_level_iff : k ∈ level next t n ↔ Reaches next t n k ∧ ∀ m < n, ¬ Reaches next t m k :=
  (mem_split_iff next t n).2 k

theorem nodup_above (next : α → List α) (t : α) (n : Nat) : (above next t n).Nodup ∧ (level next t n).Nodup := by
  induction n with
  | zero => exact ⟨List.nodup_nil, List.nodup_cons.mpr ⟨List.not_mem_nil, List.nodup_nil⟩⟩
  | succ n ih =>
    refine ⟨?_, nodup_eraseDups _⟩
    rw [above_succ, List.nodup_append]
    refine ⟨ih.1, ih.2, fun j hj k hk hjk => ?_⟩
    subst hjk
    obtain ⟨m, hm, hreach⟩ := mem_above_iff.mp hj
    exact (mem_level_iff.mp hk).2 m hm hreach

theorem level_nil (h : level next t n = []) (m : Nat) : level next t (n + m) = [] := by
  induction m with
  | zero => exact h
  | succ m ih =>
    rw [← Nat.add_assoc, level_succ, ih]
    rfl

theorem levels_nil (h : level next t n = []) (count : Nat) : levels next t n count = [] := by
  unfold levels
  rw [List.flatMap_eq_nil_iff]
  intro m hm
  obtain ⟨i, -, rfl⟩ := List.mem_range'.mp hm
  rw [Nat.one_mul, level_nil h i]
  rfl

theorem levels_succ (next : α → List α) (t : α) (n count : Nat) :
    levels next t n (count + 1) = (level next t n).map (fun k => (k, n)) ++ levels next t (n + 1) count := by
  unfold levels
  rw [List.range'_succ, List.flatMap_cons]

theorem levels_append (next : α → List α) (t : α) (n count : Nat) :
    (levels next t 0 n).map Prod.fst = above next t n ∧
    levels next t 0 (n + count) = levels next t 0 n ++ levels next t n count := by
  constructor
  · induction n with
    | zero => rfl
    | succ n ih =>
      unfold levels at ih ⊢
      rw [List.range'_concat, List.flatMap_append, List.map_append, ih, above_succ]
      simp [Function.comp_def]
  · unfold levels
    rw [← List.flatMap_append]
    have hrange := @List.range'_append 0 n count 1
    rw [Nat.one_mul, Nat.zero_add] at hrange
    rw [hrange]

end LevelFacts

/-! ## Visits -/

section Visits

variable (next : α → List α) (limit : Nat)

/-- The nodes a search visits, in this order and each with its depth. -/
def visits : Nat → List (α × Nat) → List α → List (α × Nat)
  | 0, _, _ => []
  | _ + 1, [], _ => []
  | fuel + 1, (k, depth) :: queue, seen =>
    if k ∈ seen then visits fuel queue seen
    else (k, depth) :: visits fuel (queue ++ expand next limit k depth (seen ++ [k])) (seen ++ [k])

/-- `done` is the part of the level `n` that has been visited, and the queue holds the rest of the level and what was
discovered from the part. -/
structure InLevel (t : α) (n : Nat) (done seen now later : List α) : Prop where
  part : level next t n = done ++ (now.filter (fun j => j ∉ seen)).eraseDups
  visited : seen = above next t n ++ done
  found : later.filter (fun j => j ∉ above next t (n + 1))
            = if n + 1 ≤ limit then (done.flatMap next).filter (fun j => j ∉ above next t (n + 1)) else []
  final : limit ≤ n → later = []

end Visits

section VisitFacts

variable {next : α → List α} {limit : Nat} {t : α} {n : Nat} {seen now later done : List α} {k : α}

theorem bfs_eq_visits (next : α → List α) (limit fuel : Nat) (queue : List (α × Nat)) (seen : List α) :
    bfs next limit fuel queue seen = seen ++ (visits next limit fuel queue seen).map Prod.fst := by
  induction fuel generalizing queue seen with
  | zero => exact (List.append_nil seen).symm
  | succ fuel ih =>
    cases queue with
    | nil => exact (List.append_nil seen).symm
    | cons entry queue =>
      obtain ⟨k, depth⟩ := entry
      rw [bfs, visits]
      split
      · exact ih queue seen
      · rw [ih, List.map_cons, List.append_assoc]
        rfl

theorem inLevel_start (next : α → List α) (limit : Nat) (t : α) : InLevel next limit t 0 [] [] [t] [] where
  part := by
    show [t] = [] ++ _
    simp [List.eraseDups_cons]
  visited := rfl
  found := by simp
  final _ := rfl

theorem InLevel.advance (h : InLevel next limit t n done seen [] later) (hle : n + 1 ≤ limit) :
    InLevel next limit t (n + 1) [] seen later [] := by
  have hdone : level next t n = done := by
    have hpart := h.part
    rwa [List.filter_nil, List.eraseDups_nil, List.append_nil] at hpart
  have hseen : seen = above next t (n + 1) := by rw [h.visited, above_succ, hdone]
  have hlater := h.found
  rw [if_pos hle, ← hseen] at hlater
  refine ⟨?_, ?_, ?_, fun _ => rfl⟩
  · rw [List.nil_append, hlater, level_succ, ← above_succ, ← hseen, hdone]
  · rw [hseen, List.append_nil]
  · simp

theorem InLevel.skip (h : InLevel next limit t n done seen (k :: now) later) (hk : k ∈ seen) :
    InLevel next limit t n done seen now later where
  part := by
    have hpart := h.part
    rwa [List.filter_cons_of_neg (by simpa using hk)] at hpart
  visited := h.visited
  found := h.found
  final := h.final

/-- A node is visited. -/
theorem InLevel.visit (h : InLevel next limit t n done seen (k :: now) later) (hk : k ∉ seen) :
    InLevel next limit t n (done ++ [k]) (seen ++ [k]) now
      (later ++ if n + 1 ≤ limit then (next k).filter (fun j => j ∉ seen ++ [k]) else []) := by
  have hpart := h.part
  rw [List.filter_cons_of_pos (by simpa using hk), List.eraseDups_cons, List.filter_filter] at hpart
  have hrest : (now.filter (fun j => !j == k && decide (j ∉ seen))) = now.filter (fun j => j ∉ seen ++ [k]) := by
    refine List.filter_congr (fun j _ => ?_)
    by_cases hj : j = k
    · simp [hj]
    · simp [hj]
  rw [hrest] at hpart
  -- what has been seen lies in the level or above it
  have hsub : ∀ j ∈ seen ++ [k], j ∈ above next t (n + 1) := by
    intro j hj
    rw [above_succ, hpart]
    rw [h.visited] at hj
    grind
  refine ⟨?_, ?_, ?_, ?_⟩
  · rw [hpart]
    simp
  · rw [h.visited]
    simp
  · rw [List.filter_append, h.found]
    split
    · rw [List.flatMap_append, List.filter_append, List.filter_filter]
      congr 1
      rw [List.flatMap_cons, List.flatMap_nil, List.append_nil]
      refine List.filter_congr (fun j _ => ?_)
      by_cases hj : j ∈ above next t (n + 1)
      · simp [hj]
      · have hunseen : j ∉ seen ++ [k] := fun hmem => hj (hsub j hmem)
        simp only [hj, hunseen, not_false_eq_true, decide_true, Bool.and_self]
    · rfl
  · intro hle
    rw [h.final hle, if_neg (by omega)]
    rfl

theorem InLevel.rest_nil (h : InLevel next limit t n done seen [] []) : levels next t (n + 1) (limit - n) = [] := by
  by_cases hle : n + 1 ≤ limit
  · have hlevel : level next t (n + 1) = [] := (h.advance hle).part
    exact levels_nil hlevel _
  · rw [Nat.sub_eq_zero_of_le (by omega)]
    rfl

theorem InLevel.visits_eq {targets : List α} (hcovers : Covers next targets) (fuel : Nat) {queue : List (α × Nat)}
    (hqueue : queue = now.map (fun k => (k, n)) ++ later.map (fun k => (k, n + 1)))
    (hfuel : work targets queue seen ≤ fuel) (hlimit : n ≤ limit) (h : InLevel next limit t n done seen now later) :
    visits next limit fuel queue seen
      = ((now.filter (fun j => j ∉ seen)).eraseDups).map (fun k => (k, n)) ++ levels next t (n + 1) (limit - n) := by
  induction fuel generalizing seen n now later done queue with
  | zero =>
    obtain ⟨rfl, rfl⟩ : now = [] ∧ later = [] := by
      subst hqueue
      simp only [work, List.length_append, List.length_map] at hfuel
      exact ⟨List.eq_nil_of_length_eq_zero (by omega), List.eq_nil_of_length_eq_zero (by omega)⟩
    rw [h.rest_nil]
    rfl
  | succ fuel ih =>
    -- a queue that begins with an entry of the level `n`
    have hcons : ∀ (n : Nat) (done : List α) (x : α) (now later : List α), n ≤ limit →
        queue = (x :: now).map (fun k => (k, n)) ++ later.map (fun k => (k, n + 1)) →
        InLevel next limit t n done seen (x :: now) later →
        visits next limit (fuel + 1) queue seen
          = (((x :: now).filter (fun j => j ∉ seen)).eraseDups).map (fun k => (k, n))
              ++ levels next t (n + 1) (limit - n) := by
      intro n done x now later hlimit hqueue h
      rw [List.map_cons, List.cons_append] at hqueue
      subst hqueue
      rw [visits]
      split
      · next hx =>
          have hskip := h.skip hx
          have hfuel : work targets (now.map (fun k => (k, n)) ++ later.map (fun k => (k, n + 1))) seen ≤ fuel := by
            simp only [work, List.length_cons] at hfuel ⊢
            omega
          rw [ih rfl hfuel hlimit hskip, List.filter_cons_of_neg (by simpa using hx)]
      · next hx =>
          have hvisit := h.visit hx
          have hfuel := Nat.le_trans (work_visit limit hcovers hx n
            (now.map (fun k => (k, n)) ++ later.map (fun k => (k, n + 1)))) hfuel
          have hqueue : (now.map (fun k => (k, n)) ++ later.map (fun k => (k, n + 1)))
                ++ expand next limit x n (seen ++ [x])
              = now.map (fun k => (k, n)) ++ (later ++ if n + 1 ≤ limit then
                  (next x).filter (fun j => j ∉ seen ++ [x]) else []).map (fun k => (k, n + 1)) := by
            rw [List.map_append, List.append_assoc]
            congr 2
            unfold expand
            split
            · rfl
            · rfl
          rw [ih hqueue (Nat.le_of_succ_le_succ hfuel) hlimit hvisit]
          rw [List.filter_cons_of_pos (by simpa using hx), List.eraseDups_cons, List.filter_filter, List.map_cons,
            List.cons_append]
          congr 4
          refine List.filter_congr (fun j _ => ?_)
          by_cases hj : j = x
          · simp [hj]
          · simp [hj]
    cases now with
    | cons x now => exact hcons n done x now later hlimit hqueue h
    | nil =>
      cases later with
      | nil =>
        subst hqueue
        rw [h.rest_nil]
        rfl
      | cons x later =>
        have hle : n + 1 ≤ limit := by
          by_contra hlt
          exact List.cons_ne_nil _ _ (h.final (by omega))
        have hnext := h.advance hle
        have hcount : limit - n = limit - (n + 1) + 1 := by omega
        have hlevel : level next t (n + 1) = _ := hnext.part
        rw [List.nil_append] at hlevel
        rw [hcons (n + 1) [] x later [] hle (by simpa using hqueue) hnext, hcount, levels_succ, hlevel]
        rfl

/-- **The search visits level after level.** -/
theorem visits_eq {targets : List α} (hcovers : Covers next targets) (limit : Nat) (t : α) :
    visits next limit (targets.length + 1) [(t, 0)] [] = levels next t 0 (limit + 1) := by
  have hqueue : [(t, 0)] = [t].map (fun k => (k, 0)) ++ ([] : List α).map (fun k => (k, 1)) := rfl
  have hfuel : work targets [(t, 0)] [] ≤ targets.length + 1 := by
    have hfilter := List.length_filter_le (fun j => decide (j ∉ ([] : List α))) targets
    simp only [work, List.length_singleton]
    omega
  rw [(inLevel_start next limit t).visits_eq hcovers _ hqueue hfuel (Nat.zero_le _), levels_succ]
  rfl

end VisitFacts

/-! ## Cuts -/

section Cuts

variable (next : α → List α) (limit : Nat)

/-- The neighbours a search counts when it may go no deeper: those it has not visited by then. -/
def cut : List (α × Nat) → List α → Nat
  | [], _ => 0
  | (k, depth) :: visits, seen =>
    (if depth + 1 > limit then ((next k).filter (fun j => j ∉ seen ++ [k])).length else 0) + cut visits (seen ++ [k])

variable {next limit}

theorem cut_eq_zero_iff (visited : List (α × Nat)) (seen : List α) :
    cut next limit visited seen = 0 ↔
      ∀ l k depth r, visited = l ++ (k, depth) :: r → limit < depth + 1 →
        ∀ j ∈ next k, j ∈ seen ++ l.map Prod.fst ++ [k] := by
  induction visited generalizing seen with
  | nil => simp [cut]
  | cons entry visited ih =>
    obtain ⟨k, depth⟩ := entry
    rw [cut, Nat.add_eq_zero_iff, ih]
    have hhead : (if depth + 1 > limit then ((next k).filter (fun j => j ∉ seen ++ [k])).length else 0) = 0 ↔
        (limit < depth + 1 → ∀ j ∈ next k, j ∈ seen ++ [k]) := by
      split
      · next hgt =>
          rw [List.length_eq_zero_iff, List.filter_eq_nil_iff]
          constructor
          · intro hall _ j hj
            by_contra hnot
            exact hall j hj (by simpa using hnot)
          · intro hall j hj hnot
            exact absurd (hall hgt j hj) (by simpa using hnot)
      · next hle => exact iff_of_true rfl (fun hgt => absurd hgt hle)
    rw [hhead]
    constructor
    · rintro ⟨hfirst, hrest⟩ l k' depth' r hvisited hgt j hj
      cases l with
      | nil =>
        obtain ⟨hentry, -⟩ := List.cons.inj hvisited
        obtain ⟨rfl, rfl⟩ := Prod.mk.inj hentry
        simpa using hfirst hgt j hj
      | cons x l =>
        rw [List.cons_append] at hvisited
        obtain ⟨rfl, htail⟩ := List.cons.inj hvisited
        have hmem := hrest l k' depth' r htail hgt j hj
        simpa [List.append_assoc] using hmem
    · intro hall
      refine ⟨fun hgt j hj => ?_, fun l k' depth' r hvisited hgt j hj => ?_⟩
      · simpa using hall [] k depth visited rfl hgt j hj
      · have hmem := hall ((k, depth) :: l) k' depth' r (by rw [hvisited]; rfl) hgt j hj
        simpa [List.append_assoc] using hmem

/-- The cuts of a search are of the last level: nothing is cut off exactly when every neighbour of one of its nodes lies
above the level, before the node in it, or is the node. -/
theorem cut_levels_eq_zero_iff (next : α → List α) (t : α) (limit : Nat) :
    cut next limit (levels next t 0 (limit + 1)) [] = 0 ↔
      ∀ l k r, level next t limit = l ++ k :: r → ∀ j ∈ next k, j ∈ above next t limit ∨ j ∈ l ∨ j = k := by
  have hsplit : levels next t 0 (limit + 1)
      = levels next t 0 limit ++ (level next t limit).map (fun k => (k, limit)) := by
    rw [(levels_append next t limit 1).2, levels_succ]
    simp [levels]
  rw [cut_eq_zero_iff, hsplit]
  constructor
  · intro hall l k r hlevel j hj
    have hmem := hall (levels next t 0 limit ++ l.map (fun k => (k, limit))) k limit (r.map (fun k => (k, limit)))
      (by rw [hlevel]; simp) (Nat.lt_succ_self _) j hj
    rw [List.map_append, (levels_append next t limit 0).1] at hmem
    simpa [Function.comp_def, or_assoc] using hmem
  · intro hall l k depth r hvisited hgt j hj
    -- an entry of that depth is one of the last level
    have hnot : ∀ entry ∈ levels next t 0 limit, entry.2 < limit := by
      intro entry hentry
      obtain ⟨m, hm, hentry⟩ := List.mem_flatMap.mp hentry
      obtain ⟨k, -, rfl⟩ := List.mem_map.mp hentry
      obtain ⟨i, hi, rfl⟩ := List.mem_range'.mp hm
      show 0 + 1 * i < limit
      omega
    rcases List.append_eq_append_iff.mp hvisited with ⟨mid, rfl, hmid⟩ | ⟨mid, hmid, hrest⟩
    · obtain ⟨l', rest, hlevel, rfl, hrest⟩ := List.map_eq_append_iff.mp hmid
      obtain ⟨k', r', rfl, hentry, -⟩ := List.map_eq_cons_iff.mp hrest
      obtain ⟨rfl, rfl⟩ := Prod.mk.inj hentry
      have hmem := hall l' k' r' hlevel j hj
      rw [List.map_append, (levels_append next t limit 0).1]
      simpa [Function.comp_def, or_assoc] using hmem
    · cases mid with
      | nil =>
        obtain ⟨k', r', hlevel, hentry, -⟩ := List.map_eq_cons_iff.mp hrest.symm
        obtain ⟨rfl, rfl⟩ := Prod.mk.inj hentry
        have hmem := hall [] k' r' hlevel j hj
        rw [List.append_nil] at hmid
        rw [← hmid, (levels_append next t limit 0).1]
        simpa using hmem
      | cons x mid =>
        obtain ⟨rfl, -⟩ := List.cons.inj hrest
        have hlt := hnot (k, depth) (by rw [hmid]; simp)
        have : depth < limit := hlt
        omega

end Cuts

end Search
