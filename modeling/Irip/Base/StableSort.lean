import Mathlib.Data.List.Sort

/-!
# `Base.StableSort` — sorting by a key, stably

Elements with the same key keep their order, so a sorted list says, for each key, which elements have it and in which
order, and nothing else.
-/

namespace StableSort

variable {α κ : Type} [LinearOrder κ] {key : α → κ}

/-- The list sorted by a key; elements with the same key keep their order. -/
def sortBy (key : α → κ) (l : List α) : List α := l.insertionSort (fun a b => key a ≤ key b)

/-- The elements with a key. -/
def withKey (key : α → κ) (k : κ) (l : List α) : List α := l.filter (fun a => key a = k)

instance total_le : Std.Total (fun a b : α => key a ≤ key b) := ⟨fun a b => le_total (key a) (key b)⟩

instance trans_le : IsTrans α (fun a b => key a ≤ key b) := ⟨fun _ _ _ => le_trans⟩

theorem pairwise_sortBy (l : List α) : (sortBy key l).Pairwise (fun a b => key a ≤ key b) :=
  List.pairwise_insertionSort _ l

theorem perm_sortBy (l : List α) : (sortBy key l).Perm l := List.perm_insertionSort _ l

end StableSort
