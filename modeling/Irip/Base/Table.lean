import Mathlib.Data.List.Basic

/-!
# `Base.Table` — tables with guarded row updates

A table is the list of its rows and a row's key is its position. An `Update` is the statement
`UPDATE … SET set WHERE cond`: it rewrites the rows that meet its condition and no others.
-/

namespace Table

/-- A guarded assignment to one row. -/
structure Update (ρ : Type) where
  cond : ρ → Bool
  set : ρ → ρ

variable {ρ : Type}

/-- The row after the update. -/
def Update.apply (u : Update ρ) (r : ρ) : ρ := if u.cond r then u.set r else r

theorem Update.apply_of_cond {u : Update ρ} {r : ρ} (h : u.cond r = true) : u.apply r = u.set r :=
  if_pos h

theorem Update.apply_of_not_cond {u : Update ρ} {r : ρ} (h : u.cond r = false) : u.apply r = r := by
  unfold Update.apply
  rw [h]
  rfl

theorem Update.apply_cases (u : Update ρ) (r : ρ) :
    (u.cond r = true ∧ u.apply r = u.set r) ∨ (u.cond r = false ∧ u.apply r = r) := by
  cases hc : u.cond r with
  | true => exact .inl ⟨rfl, apply_of_cond hc⟩
  | false => exact .inr ⟨rfl, apply_of_not_cond hc⟩

/-- The update aimed at the rows with keys `ks`. -/
def update (t : List ρ) (ks : List Nat) (u : Update ρ) : List ρ :=
  t.zipIdx.map (fun p => if p.2 ∈ ks then u.apply p.1 else p.1)

/-- The number of rows the update rewrites when it is aimed at row `k`. -/
def rowcount (t : List ρ) (k : Nat) (u : Update ρ) : Nat :=
  match t[k]? with
  | some r => if u.cond r then 1 else 0
  | none => 0

/-- **Row-wise reading of an update.** -/
@[simp] theorem getElem?_update (t : List ρ) (ks : List Nat) (u : Update ρ) (i : Nat) :
    (update t ks u)[i]? = t[i]?.map (fun r => if i ∈ ks then u.apply r else r) := by
  simp only [update, List.getElem?_map, List.getElem?_zipIdx, Option.map_map, Nat.zero_add]
  rfl

@[simp] theorem update_nil (t : List ρ) (u : Update ρ) : update t [] u = t := by
  apply List.ext_getElem?
  intro i
  rw [getElem?_update]
  simp

theorem map_update {β : Type} {f : ρ → β} {u : Update ρ} (h : ∀ r, f (u.set r) = f r) (t : List ρ) (ks : List Nat) :
    (update t ks u).map f = t.map f := by
  apply List.ext_getElem?
  intro i
  rw [List.getElem?_map, List.getElem?_map, getElem?_update, Option.map_map]
  congr 1
  funext r
  show f (if i ∈ ks then u.apply r else r) = f r
  split
  · rcases u.apply_cases r with ⟨-, happly⟩ | ⟨-, happly⟩
    · rw [happly, h]
    · rw [happly]
  · rfl

theorem update_last (t : List ρ) (r : ρ) (u : Update ρ) :
    update (t ++ [r]) [t.length] u = t ++ [u.apply r] := by
  apply List.ext_getElem?
  intro i
  rw [getElem?_update]
  rcases Nat.lt_trichotomy i t.length with hlt | rfl | hgt
  · have hne : ¬ i = t.length := Nat.ne_of_lt hlt
    rw [List.getElem?_append_left hlt, List.getElem?_append_left hlt]
    simp [hne]
  · simp
  · have hnone : ∀ x : ρ, (t ++ [x])[i]? = none := by
      intro x
      rw [List.getElem?_eq_none_iff, List.length_append, List.length_singleton]
      omega
    rw [hnone, hnone, Option.map_none]

theorem eq_of_getElem?_insert {t : List ρ} {r x : ρ} {i : Nat} (hnone : t[i]? = none)
    (hsome : (t ++ [r])[i]? = some x) : i = t.length ∧ x = r := by
  have hge : t.length ≤ i := List.getElem?_eq_none_iff.mp hnone
  have hlt := (List.getElem?_eq_some_iff.mp hsome).1
  rw [List.length_append, List.length_singleton] at hlt
  obtain rfl : i = t.length := by omega
  rw [List.getElem?_concat_length] at hsome
  exact ⟨rfl, (Option.some.inj hsome).symm⟩

theorem rowcount_pos_iff {t : List ρ} {k : Nat} {u : Update ρ} :
    0 < rowcount t k u ↔ ∃ r, t[k]? = some r ∧ u.cond r = true := by
  unfold rowcount
  cases t[k]? with
  | none => simp
  | some r =>
    by_cases h : u.cond r = true
    · simp [h]
    · simp [h]

theorem update_of_rowcount_zero {t : List ρ} {k : Nat} {u : Update ρ} (h : rowcount t k u = 0) :
    update t [k] u = t := by
  apply List.ext_getElem?
  intro i
  rw [getElem?_update]
  cases hr : t[i]? with
  | none => rfl
  | some r =>
    by_cases hi : i = k
    · subst hi
      have hc : u.cond r = false := by
        by_contra hne
        have hpos : 0 < rowcount t i u := rowcount_pos_iff.mpr ⟨r, hr, by simpa using hne⟩
        omega
      simp [Update.apply_of_not_cond hc]
    · simp [hi]

end Table
