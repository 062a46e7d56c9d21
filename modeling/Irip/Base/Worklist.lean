import Irip.Base.Loop
import Mathlib.Algebra.BigOperators.Group.List.Basic
import Mathlib.Algebra.GroupWithZero.Nat
import Mathlib.Logic.Relation

/-!
# `Base.Worklist` — a work list over trees

A work list takes its last element, visits it, and appends the children of the element. Where the children of an element
are smaller together than the element, the list runs empty, and what was visited is what lies below the start.
-/

namespace Worklist

variable {α γ : Type} (children : α → List α) (visit : γ → α → γ)

/-! ## Turns -/

/-- The last element is taken and visited, and its children are appended. -/
def turn (s : List α × γ) : Option (List α × γ) :=
  match s.1.getLast? with
  | none => none
  | some a => some (s.1.dropLast ++ children a, visit s.2 a)

/-- The children of an element are smaller together than the element. -/
def Shrinks (size : α → Nat) : Prop := ∀ a, ((children a).map size).sum < size a

/-- An element below another one, or the same. -/
def Below : α → α → Prop := Relation.ReflTransGen (fun a b => b ∈ children a)

variable {children visit}

theorem turn_eq_some {s s' : List α × γ} (h : turn children visit s = some s') :
    ∃ queue a, s.1 = queue ++ [a] ∧ s' = (queue ++ children a, visit s.2 a) := by
  unfold turn at h
  split at h
  · cases h
  · next a ha =>
      obtain ⟨queue, hqueue⟩ := List.getLast?_eq_some_iff.mp ha
      refine ⟨queue, a, hqueue, ?_⟩
      rw [hqueue, List.dropLast_concat] at h
      exact (Option.some.inj h).symm

theorem turn_eq_none {s : List α × γ} (h : turn children visit s = none) : s.1 = [] := by
  unfold turn at h
  split at h
  · next hnone => exact List.getLast?_eq_none_iff.mp hnone
  · cases h

theorem ends (visit : γ → α → γ) {size : α → Nat} (h : Shrinks children size) : Loop.Ends (turn children visit) := by
  refine Loop.ends_of_decreases (fun s => (s.1.map size).sum) (fun _ => 0) fun {s s'} hturn => .inl ?_
  obtain ⟨queue, a, hs, rfl⟩ := turn_eq_some hturn
  have hless := h a
  rw [hs]
  simp only [List.map_append, List.sum_append, List.map_cons, List.map_nil, List.sum_cons, List.sum_nil]
  omega

/-! ## Running -/

/-- What has been gathered when the list is empty. -/
def run (visit : γ → α → γ) {size : α → Nat} (h : Shrinks children size) (start : List α) (init : γ) : γ :=
  (Loop.run (ends visit h) (start, init)).2

/-- What lies below the start has been visited, or lies below something that waits. -/
def Visited (children : α → List α) (start queue order : List α) : Prop :=
  ∀ a, (∃ r ∈ start, Below children r a) ↔ a ∈ order ∨ ∃ b ∈ queue, Below children b a

theorem below_iff {a b : α} : Below children a b ↔ b = a ∨ ∃ c ∈ children a, Below children c b := by
  constructor
  · intro h
    rcases Relation.ReflTransGen.cases_head h with heq | ⟨c, hc, hbelow⟩
    · exact .inl heq.symm
    · exact .inr ⟨c, hc, hbelow⟩
  · rintro (rfl | ⟨c, hc, hbelow⟩)
    · exact .refl
    · exact .head hc hbelow

theorem visited_start (start : List α) : Visited children start start [] := by
  intro a
  simp

theorem Visited.turn {start queue order : List α} {a : α} (h : Visited children start (queue ++ [a]) order) :
    Visited children start (queue ++ children a) (order ++ [a]) := by
  intro b
  rw [h b]
  simp only [List.mem_append, List.mem_singleton, or_and_right, exists_or, exists_eq_left]
  rw [below_iff (a := a), or_assoc]
  exact or_congr Iff.rfl or_left_comm

/-! ## Result -/

/-- **A run** is a fold over the elements below the start, in some order. -/
theorem run_spec (visit : γ → α → γ) {size : α → Nat} (h : Shrinks children size) (start : List α) (init : γ) :
    ∃ order : List α, run visit h start init = order.foldl visit init ∧
      ∀ a, a ∈ order ↔ ∃ r ∈ start, Below children r a := by
  obtain ⟨⟨order, hacc, hvisited⟩, hnone⟩ := Loop.run_spec (ends visit h) (s := (start, init))
    (I := fun s => ∃ order : List α, s.2 = order.foldl visit init ∧ Visited children start s.1 order)
    (fun {s s'} hturn hs => by
      obtain ⟨order, hacc, hvisited⟩ := hs
      obtain ⟨queue, a, hqueue, rfl⟩ := turn_eq_some hturn
      rw [hqueue] at hvisited
      refine ⟨order ++ [a], ?_, hvisited.turn⟩
      rw [List.foldl_append, ← hacc]
      rfl)
    ⟨[], rfl, visited_start start⟩
  refine ⟨order, hacc, fun a => ?_⟩
  -- nothing waits at the end
  rw [turn_eq_none hnone] at hvisited
  rw [hvisited a]
  simp

end Worklist
