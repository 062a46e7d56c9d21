import Mathlib.Data.List.Basic
import Mathlib.Order.Lattice

/-!
# `Base.Choice` — the row a query gives that has several to give

A query for one row gives any of those that meet its condition; with `ORDER BY key DESC LIMIT 1`, any of those with the
greatest key. Which one, a number decides.
-/

namespace Choice

variable {α κ : Type} {l : List α} {a : α}

/-! ## Choosing -/

/-- The row that the number chooses. -/
def pick (n : Nat) (l : List α) : Option α := l[n % l.length]?

theorem mem_of_pick {n : Nat} (h : pick n l = some a) : a ∈ l := List.mem_of_getElem? h

theorem exists_pick (h : a ∈ l) : ∃ n, pick n l = some a := by
  obtain ⟨n, hn, rfl⟩ := List.getElem_of_mem h
  refine ⟨n, ?_⟩
  rw [pick, Nat.mod_eq_of_lt hn]
  exact List.getElem?_eq_getElem hn

theorem pick_isSome (n : Nat) (h : l ≠ []) : ∃ b, pick n l = some b := by
  have hlt : n % l.length < l.length := Nat.mod_lt _ (List.length_pos_iff.mpr h)
  exact ⟨l[n % l.length], List.getElem?_eq_getElem hlt⟩

/-- **A choice that is always the same** is of the only row there is. -/
theorem pick_always_iff : (∀ n, pick n l = some a) ↔ a ∈ l ∧ ∀ b ∈ l, b = a := by
  constructor
  · intro h
    refine ⟨mem_of_pick (h 0), fun b hb => ?_⟩
    obtain ⟨n, hn⟩ := exists_pick hb
    exact Option.some.inj (hn.symm.trans (h n))
  · rintro ⟨hmem, honly⟩ n
    obtain ⟨b, hb⟩ := pick_isSome n (List.ne_nil_of_mem hmem)
    rw [hb, honly b (mem_of_pick hb)]

/-! ## The greatest key -/

variable [LinearOrder κ] {key : α → κ}

/-- The rows with the greatest key. -/
def latest (key : α → κ) (l : List α) : List α := l.filter (fun a => l.all (fun b => key b ≤ key a))

theorem mem_latest : a ∈ latest key l ↔ a ∈ l ∧ ∀ b ∈ l, key b ≤ key a := by
  rw [latest, List.mem_filter, List.all_eq_true]
  simp only [decide_eq_true_eq]

/-- **The last row is always the same** exactly if its key is greater than that of any other. -/
theorem latest_always_iff :
    (∀ n, pick n (latest key l) = some a) ↔ a ∈ l ∧ ∀ b ∈ l, b ≠ a → key b < key a := by
  rw [pick_always_iff]
  constructor
  · rintro ⟨hmem, honly⟩
    obtain ⟨hal, hge⟩ := mem_latest.mp hmem
    refine ⟨hal, fun b hb hne => ?_⟩
    by_contra hlt
    -- a row with no smaller key would be another of the last ones
    have hlast : b ∈ latest key l := mem_latest.mpr ⟨hb, fun c hc => (hge c hc).trans (not_lt.mp hlt)⟩
    exact hne (honly b hlast)
  · rintro ⟨hmem, hlt⟩
    constructor
    · refine mem_latest.mpr ⟨hmem, fun b hb => ?_⟩
      by_cases hba : b = a
      · rw [hba]
      · exact (hlt b hb hba).le
    · intro b hb
      obtain ⟨hbl, hge⟩ := mem_latest.mp hb
      by_contra hba
      exact absurd (hge a hmem) (not_le.mpr (hlt b hbl hba))

end Choice
