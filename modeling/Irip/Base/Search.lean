import Mathlib.Data.List.Count
import Mathlib.Logic.Relation

/-!
# `Base.Search` — breadth-first search and upward closure

Two loops over a graph that is given by its neighbours: the search from one node down to a limited depth, which
visits a node when it leaves the queue, and the closure of a set, which marks a node when it enters it. Both are given
fuel, and both results say how much is enough.
-/

namespace Search

variable {α : Type}

/-! ## Search -/

section Depth

variable [DecidableEq α] (next : α → List α) (limit : Nat)

/-- The entries a node adds to the queue when it is visited. -/
def expand (k : α) (depth : Nat) (seen : List α) : List (α × Nat) :=
  if depth + 1 ≤ limit then ((next k).filter (fun j => j ∉ seen)).map (fun j => (j, depth + 1)) else []

/-- The nodes visited from a queue on, after those seen. -/
def bfs : Nat → List (α × Nat) → List α → List α
  | 0, _, seen => seen
  | _ + 1, [], seen => seen
  | fuel + 1, (k, depth) :: queue, seen =>
    if k ∈ seen then bfs fuel queue seen
    else bfs fuel (queue ++ expand next limit k depth (seen ++ [k])) (seen ++ [k])

/-- The fuel a queue takes where the targets cover the graph. -/
def work (targets : List α) (queue : List (α × Nat)) (seen : List α) : Nat :=
  queue.length + (targets.filter (fun k => k ∉ seen)).length

/-- No node has more neighbours than it has entries among the targets. -/
def Covers (targets : List α) : Prop := ∀ k, (next k).length ≤ targets.countP (fun j => j = k)

end Depth

/-! ## What is reached -/

section Levels

variable (next : α → List α) (limit : Nat)

/-- `n` steps lead from `t` to the node. -/
inductive Reaches (t : α) : Nat → α → Prop where
  | start : Reaches t 0 t
  | step {n : Nat} {j k : α} : Reaches t n j → k ∈ next j → Reaches t (n + 1) k

/-- The queue holds the rest of one level and the beginning of the next one, and what is reached in fewer steps has
been seen. -/
structure Frontier (t : α) (seen : List α) (n : Nat) (now later : List α) : Prop where
  sound : ∀ k ∈ seen, ∃ m ≤ limit, Reaches next t m k
  soundNow : ∀ k ∈ now, n ≤ limit ∧ Reaches next t n k
  soundLater : ∀ k ∈ later, n + 1 ≤ limit ∧ Reaches next t (n + 1) k
  below : ∀ m < n, ∀ k, m ≤ limit → Reaches next t m k → k ∈ seen
  here : ∀ k, n ≤ limit → Reaches next t n k → k ∈ seen ∨ k ∈ now
  closed : ∀ j ∈ seen, ∀ k ∈ next j, ∀ m, m + 1 ≤ limit → Reaches next t m j → k ∈ seen ∨ k ∈ now ∨ k ∈ later

end Levels

section Frontier

variable {next : α → List α} {limit : Nat} {t : α} {seen : List α} {n : Nat} {now later : List α}

theorem frontier_start (next : α → List α) (limit : Nat) (t : α) : Frontier next limit t [] 0 [t] [] where
  sound _ hk := absurd hk List.not_mem_nil
  soundNow k hk := by
    rw [List.mem_singleton.mp hk]
    exact ⟨Nat.zero_le _, .start⟩
  soundLater _ hk := absurd hk List.not_mem_nil
  below m hm := absurd hm (Nat.not_lt_zero m)
  here k _ hk := by
    cases hk
    exact .inr (List.mem_singleton_self _)
  closed _ hj := absurd hj List.not_mem_nil

theorem Frontier.advance (h : Frontier next limit t seen n [] later) : Frontier next limit t seen (n + 1) later [] where
  sound := h.sound
  soundNow := h.soundLater
  soundLater _ hk := absurd hk List.not_mem_nil
  below m hm k hle hk := by
    rcases Nat.lt_succ_iff_lt_or_eq.mp hm with hlt | rfl
    · exact h.below m hlt k hle hk
    · exact (h.here k hle hk).resolve_right List.not_mem_nil
  here k hle hk := by
    cases hk with
    | step hj hnext =>
      -- the node before it is one of this level, so it has been seen and its neighbours wait
      have hseen := (h.here _ (by omega) hj).resolve_right List.not_mem_nil
      rcases h.closed _ hseen k hnext n hle hj with hk | hk | hk
      · exact .inl hk
      · exact absurd hk List.not_mem_nil
      · exact .inr hk
  closed j hj k hk m hle hm := by
    rcases h.closed j hj k hk m hle hm with hk | hk | hk
    · exact .inl hk
    · exact absurd hk List.not_mem_nil
    · exact .inr (.inl hk)

theorem Frontier.skip {k : α} (h : Frontier next limit t seen n (k :: now) later) (hk : k ∈ seen) :
    Frontier next limit t seen n now later where
  sound := h.sound
  soundNow j hj := h.soundNow j (List.mem_cons_of_mem _ hj)
  soundLater := h.soundLater
  below := h.below
  here j hle hj := by
    rcases h.here j hle hj with hseen | hnow
    · exact .inl hseen
    · rcases List.mem_cons.mp hnow with rfl | hnow
      · exact .inl hk
      · exact .inr hnow
  closed i hi j hj m hle hm := by
    rcases h.closed i hi j hj m hle hm with hseen | hnow | hlater
    · exact .inl hseen
    · rcases List.mem_cons.mp hnow with rfl | hnow
      · exact .inl hk
      · exact .inr (.inl hnow)
    · exact .inr (.inr hlater)

theorem Frontier.complete (h : Frontier next limit t seen n [] []) {m : Nat} {k : α} (hle : m ≤ limit)
    (hk : Reaches next t m k) : k ∈ seen := by
  induction hk with
  | start =>
    rcases Nat.eq_zero_or_pos n with rfl | hpos
    · exact (h.here t (Nat.zero_le _) .start).resolve_right List.not_mem_nil
    · exact h.below 0 hpos t (Nat.zero_le _) .start
  | @step m j k hj hnext ih =>
    rcases h.closed j (ih (by omega)) k hnext m hle hj with hk | hk | hk
    · exact hk
    · exact absurd hk List.not_mem_nil
    · exact absurd hk List.not_mem_nil

theorem Frontier.seen_iff (h : Frontier next limit t seen n [] []) (k : α) :
    k ∈ seen ↔ ∃ m ≤ limit, Reaches next t m k :=
  ⟨h.sound k, fun ⟨_, hle, hk⟩ => h.complete hle hk⟩

variable [DecidableEq α]

theorem Frontier.visit {k : α} (h : Frontier next limit t seen n (k :: now) later) (hk : k ∉ seen) :
    Frontier next limit t (seen ++ [k]) n now
      (later ++ if n + 1 ≤ limit then (next k).filter (fun j => j ∉ seen ++ [k]) else []) where
  sound j hj := by
    rcases List.mem_append.mp hj with hj | hj
    · exact h.sound j hj
    · rw [List.mem_singleton.mp hj]
      exact ⟨n, h.soundNow k List.mem_cons_self⟩
  soundNow j hj := h.soundNow j (List.mem_cons_of_mem _ hj)
  soundLater j hj := by
    rcases List.mem_append.mp hj with hj | hj
    · exact h.soundLater j hj
    · split at hj
      · next hle => exact ⟨hle, .step (h.soundNow k List.mem_cons_self).2 (List.mem_filter.mp hj).1⟩
      · exact absurd hj List.not_mem_nil
  below m hm j hle hj := List.mem_append_left _ (h.below m hm j hle hj)
  here j hle hj := by
    rcases h.here j hle hj with hseen | hnow
    · exact .inl (List.mem_append_left _ hseen)
    · rcases List.mem_cons.mp hnow with rfl | hnow
      · exact .inl (List.mem_append_right _ (List.mem_singleton_self _))
      · exact .inr hnow
  closed i hi j hj m hle hm := by
    by_cases hseen : j ∈ seen ++ [k]
    · exact .inl hseen
    rcases List.mem_append.mp hi with hi | hi
    · rcases h.closed i hi j hj m hle hm with hold | hnow | hlater
      · exact .inl (List.mem_append_left _ hold)
      · rcases List.mem_cons.mp hnow with rfl | hnow
        · exact absurd (List.mem_append_right _ (List.mem_singleton_self _)) hseen
        · exact .inr (.inl hnow)
      · exact .inr (.inr (List.mem_append_left _ hlater))
    · obtain rfl := List.mem_singleton.mp hi
      -- had it been reached in fewer steps it would have been seen, so its level is not the last one either
      have hnm : n ≤ m := by
        by_contra hlt
        exact hk (h.below m (by omega) i (by omega) hm)
      rw [if_pos (by omega)]
      exact .inr (.inr (List.mem_append_right _ (List.mem_filter.mpr ⟨hj, by simpa using hseen⟩)))

theorem filter_unseen (targets : List α) {k : α} (hk : k ∉ seen) :
    (targets.filter (fun j => j ∉ seen ++ [k])).length + targets.countP (fun j => j = k)
      = (targets.filter (fun j => j ∉ seen)).length := by
  induction targets with
  | nil => rfl
  | cons j js ih =>
    by_cases hjk : j = k
    · subst hjk
      simp [hk] at ih ⊢
      omega
    · by_cases hj : j ∈ seen
      · simpa [hj, hjk] using ih
      · simp [hj, hjk] at ih ⊢
        omega

variable (limit) in
theorem work_visit {targets : List α} (hcovers : Covers next targets) {k : α} (hk : k ∉ seen)
    (depth : Nat) (queue : List (α × Nat)) :
    work targets (queue ++ expand next limit k depth (seen ++ [k])) (seen ++ [k]) + 1
      ≤ work targets ((k, depth) :: queue) seen := by
  have hexpand : (expand next limit k depth (seen ++ [k])).length ≤ (next k).length := by
    unfold expand
    split
    · rw [List.length_map]
      exact List.length_filter_le _ _
    · exact Nat.zero_le _
  have hsplit := filter_unseen targets hk
  have := hcovers k
  simp only [work, List.length_append, List.length_cons]
  omega

/-- The search from a queue that is in order. -/
theorem Frontier.mem_bfs_iff {targets : List α} (hcovers : Covers next targets) (fuel : Nat)
    {queue : List (α × Nat)} (hqueue : queue = now.map (fun k => (k, n)) ++ later.map (fun k => (k, n + 1)))
    (hfuel : work targets queue seen ≤ fuel) (h : Frontier next limit t seen n now later) (k : α) :
    k ∈ bfs next limit fuel queue seen ↔ ∃ m ≤ limit, Reaches next t m k := by
  induction fuel generalizing seen n now later queue with
  | zero =>
    obtain ⟨rfl, rfl⟩ : now = [] ∧ later = [] := by
      subst hqueue
      simp only [work, List.length_append, List.length_map] at hfuel
      exact ⟨List.eq_nil_of_length_eq_zero (by omega), List.eq_nil_of_length_eq_zero (by omega)⟩
    exact h.seen_iff k
  | succ fuel ih =>
    -- a queue that begins with an entry of the level `n`
    have hcons : ∀ (n : Nat) (x : α) (now later : List α),
        queue = (x :: now).map (fun k => (k, n)) ++ later.map (fun k => (k, n + 1)) →
        Frontier next limit t seen n (x :: now) later →
        (k ∈ bfs next limit (fuel + 1) queue seen ↔ ∃ m ≤ limit, Reaches next t m k) := by
      intro n x now later hqueue h
      rw [List.map_cons, List.cons_append] at hqueue
      subst hqueue
      rw [bfs]
      split
      · next hx =>
          refine ih rfl ?_ (h.skip hx)
          simp only [work, List.length_cons] at hfuel ⊢
          omega
      · next hx =>
          refine ih ?_ ?_ (h.visit hx)
          · rw [List.map_append, List.append_assoc]
            congr 2
            unfold expand
            split
            · rfl
            · rfl
          · have hvisit := work_visit limit hcovers hx n (now.map (fun k => (k, n)) ++ later.map (fun k => (k, n + 1)))
            omega
    cases now with
    | cons x now => exact hcons n x now later hqueue h
    | nil =>
      cases later with
      | cons x later => exact hcons (n + 1) x later [] (by simpa using hqueue) h.advance
      | nil =>
        subst hqueue
        exact h.seen_iff k

/-- **The search visits what lies within the limit.** -/
theorem mem_bfs_iff {targets : List α} (hcovers : Covers next targets) (k : α) :
    k ∈ bfs next limit (targets.length + 1) [(t, 0)] [] ↔ ∃ m ≤ limit, Reaches next t m k := by
  have hqueue : [(t, 0)] = [t].map (fun k => (k, 0)) ++ ([] : List α).map (fun k => (k, 1)) := rfl
  refine (frontier_start next limit t).mem_bfs_iff hcovers _ hqueue ?_ k
  have hfilter := List.length_filter_le (fun j => decide (j ∉ ([] : List α))) targets
  simp only [work, List.length_singleton]
  omega

end Frontier

/-! ## Closure -/

section Closure

variable [DecidableEq α] (next : α → List α)

/-- A node is marked and queued unless it is marked already. -/
def mark (s : List α × List α) (j : α) : List α × List α :=
  if j ∈ s.2 then s else (s.1 ++ [j], s.2 ++ [j])

/-- The nodes marked from a queue on. -/
def closure : Nat → List α → List α → List α
  | 0, _, marked => marked
  | _ + 1, [], marked => marked
  | fuel + 1, k :: queue, marked =>
    let s := (next k).foldl mark (queue, marked)
    closure fuel s.1 s.2

variable {next}

theorem mem_mark_fold (js : List α) (s : List α × List α) (j : α) :
    (j ∈ (js.foldl mark s).2 ↔ j ∈ s.2 ∨ j ∈ js) ∧ (j ∈ (js.foldl mark s).1 ↔ j ∈ s.1 ∨ j ∉ s.2 ∧ j ∈ js) := by
  induction js generalizing s with
  | nil => simp
  | cons i js ih =>
    rw [List.foldl_cons, (ih (mark s i)).1, (ih (mark s i)).2]
    by_cases hi : i ∈ s.2
    · have hsame : mark s i = s := if_pos hi
      rw [hsame]
      constructor
      · grind
      · grind
    · have hnew : mark s i = (s.1 ++ [i], s.2 ++ [i]) := if_neg hi
      rw [hnew]
      constructor
      · grind
      · grind

/-- The nodes waiting and those that can still be marked. -/
def pending (sources : List α) (s : List α × List α) : Nat :=
  s.1.length + (sources.filter (fun k => k ∉ s.2)).length

theorem pending_mark {sources : List α} {js : List α} (hjs : ∀ j ∈ js, j ∈ sources) (s : List α × List α) :
    pending sources (js.foldl mark s) ≤ pending sources s := by
  induction js generalizing s with
  | nil => exact Nat.le_refl _
  | cons i js ih =>
    rw [List.foldl_cons]
    refine Nat.le_trans (ih (fun j hj => hjs j (List.mem_cons_of_mem _ hj)) _) ?_
    unfold mark
    split
    · exact Nat.le_refl _
    · next hi =>
        -- the node that is queued is one of the sources that were not marked
        have hsplit := filter_unseen sources hi
        have hpos : 0 < sources.countP (fun j => j = i) :=
          List.countP_pos_iff.mpr ⟨i, hjs i List.mem_cons_self, by simp⟩
        simp only [pending, List.length_append, List.length_singleton]
        omega

/-- The marked nodes are above the given ones, and whatever is above a marked one is marked unless that one waits. -/
structure Closing (next : α → List α) (start queue marked : List α) : Prop where
  sound : ∀ k ∈ marked, ∃ r ∈ start, Relation.ReflTransGen (fun i j => j ∈ next i) r k
  start : ∀ r ∈ start, r ∈ marked
  queued : ∀ k ∈ queue, k ∈ marked
  closed : ∀ k ∈ marked, k ∈ queue ∨ ∀ j ∈ next k, j ∈ marked

theorem Closing.pop {start queue marked : List α} {k : α} (h : Closing next start (k :: queue) marked) :
    Closing next start ((next k).foldl mark (queue, marked)).1 ((next k).foldl mark (queue, marked)).2 := by
  have hmem := mem_mark_fold (next k) (queue, marked)
  refine ⟨fun j hj => ?_, fun r hr => ?_, fun j hj => ?_, fun i hi => ?_⟩
  · rcases (hmem j).1.mp hj with hj | hj
    · exact h.sound j hj
    · obtain ⟨r, hr, hpath⟩ := h.sound k (h.queued k List.mem_cons_self)
      exact ⟨r, hr, hpath.tail hj⟩
  · exact (hmem r).1.mpr (.inl (h.start r hr))
  · rcases (hmem j).2.mp hj with hj | ⟨-, hj⟩
    · exact (hmem j).1.mpr (.inl (h.queued j (List.mem_cons_of_mem _ hj)))
    · exact (hmem j).1.mpr (.inr hj)
  · by_cases hik : i = k
    · subst hik
      exact .inr (fun j hj => (hmem j).1.mpr (.inr hj))
    · by_cases hold : i ∈ marked
      · rcases h.closed i hold with hqueue | hnext
        · exact .inl ((hmem i).2.mpr (.inl ((List.mem_cons.mp hqueue).resolve_left hik)))
        · exact .inr (fun j hj => (hmem j).1.mpr (.inl (hnext j hj)))
      · have hnew := ((hmem i).1.mp hi).resolve_left hold
        exact .inl ((hmem i).2.mpr (.inr ⟨hold, hnew⟩))

theorem Closing.mem_closure_iff {sources : List α} (hsources : ∀ k, ∀ j ∈ next k, j ∈ sources) {start : List α}
    (fuel : Nat) {queue marked : List α} (hfuel : pending sources (queue, marked) ≤ fuel)
    (h : Closing next start queue marked) (k : α) :
    k ∈ closure next fuel queue marked ↔ ∃ r ∈ start, Relation.ReflTransGen (fun i j => j ∈ next i) r k := by
  have hdone : queue = [] → (k ∈ marked ↔ ∃ r ∈ start, Relation.ReflTransGen (fun i j => j ∈ next i) r k) := by
    rintro rfl
    refine ⟨h.sound k, ?_⟩
    rintro ⟨r, hr, hpath⟩
    clear hfuel
    induction hpath with
    | refl => exact h.start r hr
    | tail _ hnext ih => exact (h.closed _ ih).resolve_left List.not_mem_nil _ hnext
  cases queue with
  | nil =>
    cases fuel with
    | zero | succ fuel => exact hdone rfl
  | cons i queue =>
    cases fuel with
    | zero => simp [pending] at hfuel
    | succ fuel =>
      have hpending := pending_mark (hsources i) (queue, marked)
      refine Closing.mem_closure_iff hsources fuel ?_ h.pop k
      simp only [pending, List.length_cons] at hfuel hpending ⊢
      omega

/-- **The closure of a list of nodes** is what lies above them. -/
theorem mem_closure_iff {sources : List α} (hsources : ∀ k, ∀ j ∈ next k, j ∈ sources) (start : List α) (k : α) :
    k ∈ closure next (start.length + sources.length) start start ↔
      ∃ r ∈ start, Relation.ReflTransGen (fun i j => j ∈ next i) r k := by
  refine Closing.mem_closure_iff hsources _ ?_ ⟨fun r hr => ⟨r, hr, .refl⟩, fun _ => id, fun _ => id, fun _ => .inl⟩ k
  have hfilter := List.length_filter_le (fun j => decide (j ∉ start)) sources
  simp only [pending]
  omega

end Closure

end Search
