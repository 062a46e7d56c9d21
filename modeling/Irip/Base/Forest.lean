import Mathlib.Data.Fintype.Card
import Mathlib.Data.Set.Finite.Basic
import Mathlib.Data.List.Basic
import Mathlib.Logic.Function.Basic
import Mathlib.Logic.Relation

/-!
# `Base.Forest` — parent functions without cycles, and recursive queries

A parent function `up : α → Option α` is a forest when every element comes to one without parent by finitely many
steps up. A recursive query `WITH RECURSIVE q AS (base UNION ALL step)` adds the step's rows to its result as long as
there are any.
-/

namespace Forest

variable {α : Type}

/-! ## Parents -/

/-- `b` is the parent of `a`. -/
def Above (up : α → Option α) (a b : α) : Prop := up a = some b

/-- From `a` one comes to `b` by following parents. -/
abbrev Reaches (up : α → Option α) : α → α → Prop := Relation.ReflTransGen (Above up)

/-- From `a` one comes to an element without parent in finitely many steps. -/
inductive Rooted (up : α → Option α) : α → Prop where
  | root {a} (h : up a = none) : Rooted up a
  | child {a b} (h : up a = some b) (hb : Rooted up b) : Rooted up a

variable {up : α → Option α} {a b c : α}

theorem rooted_of_reaches (hab : Reaches up a b) (h : Rooted up b) : Rooted up a := by
  induction hab using Relation.ReflTransGen.head_induction_on with
  | refl => exact h
  | head hstep _ ih => exact .child hstep ih

/-- **No element of a rooted chain is above itself.** -/
theorem Rooted.not_cycle (h : Rooted up a) : ¬ Relation.TransGen (Above up) a a := by
  induction h with
  | root hnone =>
    intro hcycle
    obtain ⟨b, hstep, _⟩ := Relation.TransGen.head'_iff.mp hcycle
    have hsome : up _ = some b := hstep
    rw [hnone] at hsome
    cases hsome
  | @child a b hab _ ih =>
    intro hcycle
    obtain ⟨c, hstep, hrest⟩ := Relation.TransGen.head'_iff.mp hcycle
    have hsome : up a = some c := hstep
    rw [hab] at hsome
    obtain rfl := Option.some.inj hsome
    -- the cycle, entered one step later
    exact ih (Relation.TransGen.tail' hrest hab)

/-! ## Reparenting -/

section Update

variable [DecidableEq α]

theorem rooted_congr {x : Option α} (hc : Rooted up c) (hno : ¬ Reaches up c a) :
    Rooted (Function.update up a x) c := by
  induction hc with
  | root hnone =>
    have hne : ¬ _ = a := fun h => hno (h ▸ .refl)
    exact .root (by rw [Function.update_of_ne hne, hnone])
  | @child c d hcd _ ih =>
    have hne : ¬ c = a := fun h => hno (h ▸ .refl)
    refine .child (b := d) (by rw [Function.update_of_ne hne, hcd]) (ih fun hda => hno ?_)
    exact .head hcd hda

theorem rooted_of_rooted_at {x : Option α} (hc : Rooted up c) (ha : Rooted (Function.update up a x) a) :
    Rooted (Function.update up a x) c := by
  induction hc with
  | @root c hnone =>
    by_cases h : c = a
    · exact h ▸ ha
    · exact .root (by rw [Function.update_of_ne h, hnone])
  | @child c d hcd _ ih =>
    by_cases h : c = a
    · exact h ▸ ha
    · exact .child (by rw [Function.update_of_ne h, hcd]) ih

/-- **An element put below one that is not below it leaves a forest a forest.** -/
theorem rooted_update (hup : ∀ c, Rooted up c) (hno : ¬ Reaches up b a) (c : α) :
    Rooted (Function.update up a (some b)) c :=
  rooted_of_rooted_at (hup c) (.child (Function.update_self a (some b) up) (rooted_congr (hup b) hno))

theorem rooted_detach (hup : ∀ c, Rooted up c) (c : α) : Rooted (Function.update up a none) c :=
  rooted_of_rooted_at (hup c) (.root (Function.update_self a none up))

omit [DecidableEq α] in
theorem reaches_of_agree {up' : α → Option α} (hsame : ∀ c, c ≠ a → up' c = up c) (hba : Reaches up b a) :
    Reaches up' b a := by
  induction hba using Relation.ReflTransGen.head_induction_on with
  | refl => exact .refl
  | @head c d hstep _ ih =>
    by_cases h : c = a
    · exact h ▸ .refl
    · exact .head ((hsame c h).trans hstep) ih

/-- **An element put below one that is below it is in a cycle.** -/
theorem not_rooted_update (hba : Reaches up b a) : ¬ Rooted (Function.update up a (some b)) a := by
  have hway : Reaches (Function.update up a (some b)) b a :=
    reaches_of_agree (fun c hc => Function.update_of_ne hc (some b) up) hba
  have hstep : Above (Function.update up a (some b)) a b := by
    show Function.update up a (some b) a = some b
    exact Function.update_self a (some b) up
  intro hrooted
  exact hrooted.not_cycle (Relation.TransGen.head' hstep hway)

end Update

/-! ## Recursive queries -/

/-- The rows of `WITH RECURSIVE q AS (base UNION ALL step)`, from the rows of one round on; `none` when there are still
rows after the given number of rounds. -/
def unionAll (step : α → List α) : Nat → List α → Option (List α)
  | 0, _ => none
  | _ + 1, [] => some []
  | n + 1, w :: ws => (unionAll step n ((w :: ws).flatMap step)).map (fun rest => w :: ws ++ rest)

/-- The query ends and answers `rows`. -/
def Answers (step : α → List α) (base rows : List α) : Prop := ∃ n, unionAll step n base = some rows

variable {step : α → List α}

/-- One row leads to another. -/
def Leads (step : α → List α) (a b : α) : Prop := b ∈ step a

theorem unionAll_succ {n : Nat} {ws rows : List α} (h : unionAll step n ws = some rows) :
    unionAll step (n + 1) ws = some rows := by
  induction n generalizing ws rows with
  | zero => cases h
  | succ n ih =>
    cases ws with
    | nil => exact h
    | cons w ws =>
      obtain ⟨rest, hrest, rfl⟩ := Option.map_eq_some_iff.mp h
      exact Option.map_eq_some_iff.mpr ⟨rest, ih hrest, rfl⟩

theorem unionAll_mono {n m : Nat} {ws rows : List α} (h : unionAll step n ws = some rows) (hnm : n ≤ m) :
    unionAll step m ws = some rows := by
  induction hnm with
  | refl => exact h
  | step _ ih => exact unionAll_succ ih

theorem unionAll_append {n : Nat} {ws vs : List α} (hws : (unionAll step n ws).isSome = true)
    (hvs : (unionAll step n vs).isSome = true) : (unionAll step n (ws ++ vs)).isSome = true := by
  induction n generalizing ws vs with
  | zero => cases hws
  | succ n ih =>
    cases ws with
    | nil => exact hvs
    | cons w ws =>
      cases vs with
      | nil =>
        rw [List.append_nil]
        exact hws
      | cons v vs =>
        have hws' : (unionAll step n ((w :: ws).flatMap step)).isSome = true := by
          rw [unionAll, Option.isSome_map] at hws
          exact hws
        have hvs' : (unionAll step n ((v :: vs).flatMap step)).isSome = true := by
          rw [unionAll, Option.isSome_map] at hvs
          exact hvs
        show (unionAll step (n + 1) (w :: (ws ++ v :: vs))).isSome = true
        rw [unionAll, Option.isSome_map, ← List.cons_append, List.flatMap_append]
        exact ih hws' hvs'

theorem exists_rounds {ws : List α} (h : ∀ w ∈ ws, ∃ n, (unionAll step n [w]).isSome = true) :
    ∃ n, (unionAll step n ws).isSome = true := by
  induction ws with
  | nil => exact ⟨1, rfl⟩
  | cons w ws ih =>
    obtain ⟨n, hn⟩ := h w List.mem_cons_self
    obtain ⟨m, hm⟩ := ih (fun v hv => h v (List.mem_cons_of_mem _ hv))
    obtain ⟨rows, hrows⟩ := Option.isSome_iff_exists.mp hn
    obtain ⟨rows', hrows'⟩ := Option.isSome_iff_exists.mp hm
    refine ⟨max n m, ?_⟩
    show (unionAll step (max n m) ([w] ++ ws)).isSome = true
    refine unionAll_append ?_ ?_
    · rw [unionAll_mono hrows (Nat.le_max_left n m)]
      rfl
    · rw [unionAll_mono hrows' (Nat.le_max_right n m)]
      rfl

/-- **A query ends where the rows that follow its base form no infinite chain.** -/
theorem unionAll_terminates {base : List α} (h : ∀ a ∈ base, Acc (fun b a => Leads step a b) a) :
    ∃ rows, Answers step base rows := by
  have hone : ∀ a, Acc (fun b a => Leads step a b) a → ∃ n, (unionAll step n [a]).isSome = true := by
    intro a ha
    induction ha with
    | intro a _ ih =>
      obtain ⟨n, hn⟩ : ∃ n, (unionAll step n (step a)).isSome = true := exists_rounds ih
      refine ⟨n + 1, ?_⟩
      rw [unionAll, Option.isSome_map, List.flatMap_singleton]
      exact hn
  obtain ⟨n, hn⟩ := exists_rounds (fun a ha => hone a (h a ha))
  obtain ⟨rows, hrows⟩ := Option.isSome_iff_exists.mp hn
  exact ⟨rows, n, hrows⟩

/-- **What a query answers is what its base leads to.** -/
theorem mem_of_answers {base rows : List α} (h : Answers step base rows) :
    c ∈ rows ↔ ∃ a ∈ base, Relation.ReflTransGen (Leads step) a c := by
  obtain ⟨n, hn⟩ := h
  induction n generalizing base rows with
  | zero => cases hn
  | succ n ih =>
    cases base with
    | nil =>
      obtain rfl := Option.some.inj hn
      simp
    | cons w ws =>
      obtain ⟨rest, hrest, rfl⟩ := Option.map_eq_some_iff.mp hn
      rw [List.mem_append, ih hrest]
      constructor
      · rintro (hmem | ⟨b, hb, hway⟩)
        · exact ⟨c, hmem, .refl⟩
        · obtain ⟨a, ha, hab⟩ := List.mem_flatMap.mp hb
          exact ⟨a, ha, .head hab hway⟩
      · rintro ⟨a, ha, hway⟩
        cases hway using Relation.ReflTransGen.head_induction_on with
        | refl => exact .inl ha
        | head hab hrest => exact .inr ⟨_, List.mem_flatMap.mpr ⟨a, ha, hab⟩, hrest⟩

/-! ## Up and down a forest -/

theorem acc_up (h : Rooted up a) : Acc (fun b a => Above up a b) a := by
  induction h with
  | root hnone =>
    refine ⟨_, fun b hb => ?_⟩
    have hsome : up _ = some b := hb
    rw [hnone] at hsome
    cases hsome
  | child hab _ ih =>
    refine ⟨_, fun c hc => ?_⟩
    have hsome : up _ = some c := hc
    rw [hab] at hsome
    exact Option.some.inj hsome ▸ ih

theorem acc_down {elements : List α} (hfin : ∀ a b, up a = some b → a ∈ elements) (hup : ∀ c, Rooted up c) (a : α) :
    Acc (fun b a => Above up b a) a := by
  have hwf : WellFounded (fun x y : {x // x ∈ elements} => Relation.TransGen (Above up) x.1 y.1) := by
    have hfinite : Finite {x // x ∈ elements} := List.finite_toSet elements
    have htrans : IsTrans {x // x ∈ elements} (fun x y => Relation.TransGen (Above up) x.1 y.1) :=
      ⟨fun _ _ _ h h' => h.trans h'⟩
    have hirrefl : Std.Irrefl (fun x y : {x // x ∈ elements} => Relation.TransGen (Above up) x.1 y.1) :=
      ⟨fun x h => (hup x.1).not_cycle h⟩
    exact Finite.wellFounded_of_trans_of_irrefl _
  have hacc : ∀ x : {x // x ∈ elements}, Acc (fun b a => Above up b a) x.1 := by
    intro x
    induction x using hwf.induction with
    | _ x ih =>
      refine ⟨_, fun b hb => ?_⟩
      exact ih ⟨b, hfin b x.1 hb⟩ (.single hb)
  exact ⟨a, fun b hb => hacc ⟨b, hfin b a hb⟩⟩

end Forest
