import Irip.Base.Json
import Irip.Base.StableSort
import Mathlib.Algebra.GroupWithZero.Nat
import Mathlib.Data.Prod.Lex
import Mathlib.Data.String.Basic

/-!
# `Base.Jsonb` — what a `jsonb` column makes of a value

PostgreSQL stores an object with its members in an order of its own. Values are read back in that order.
-/

namespace Json

open StableSort (sortBy)

/-! ## Order -/

/-- The length of a key in bytes, then the key: UTF-8 has the order of the characters. -/
def jsonbKey (key : String) : ℕ ×ₗ String := toLex ((key.toList.map Char.utf8Size).sum, key)

/-! ## Storing -/

mutual

/-- The value with the members of all objects in the order they are stored in. A value of a type JSON does not have
cannot be stored, and is left as it is. -/
def jsonb : Json → Json
  | .arr xs => .arr (jsonbItems xs)
  | .obj fs => .obj (sortBy (fun m => jsonbKey m.1) (jsonbFields fs))
  | v => v

/-- `jsonb` of every item of an array. -/
def jsonbItems : List Json → List Json
  | [] => []
  | x :: xs => jsonb x :: jsonbItems xs

/-- `jsonb` of every member of an object. -/
def jsonbFields : List (String × Json) → List (String × Json)
  | [] => []
  | (k, v) :: fs => (k, jsonb v) :: jsonbFields fs

end

/-- The members of a stored object. -/
def jsonbMembers (fs : List (String × Json)) : List (String × Json) := sortBy (fun m => jsonbKey m.1) (jsonbFields fs)

@[simp] theorem jsonb_obj (fs : List (String × Json)) : jsonb (.obj fs) = .obj (jsonbMembers fs) := by
  rw [jsonb, jsonbMembers]

@[simp] theorem jsonb_null : jsonb .null = .null := by
  rw [jsonb] <;> exact nofun

@[simp] theorem jsonb_str (s : String) : jsonb (.str s) = .str s := by
  rw [jsonb] <;> exact nofun

theorem jsonbFields_eq (fs : List (String × Json)) : jsonbFields fs = fs.map (fun m => (m.1, jsonb m.2)) := by
  induction fs with
  | nil => rfl
  | cons m fs ih => rw [jsonbFields, ih, List.map_cons]

/-! ## Reading -/

section Lookup

variable {β κ : Type} [LinearOrder κ] {key : String → κ}

theorem lookup_orderedInsert (a : String × β) (fs : List (String × β)) (k : String) :
    (fs.orderedInsert (fun m n => key m.1 ≤ key n.1) a).lookup k = (a :: fs).lookup k := by
  induction fs with
  | nil => rfl
  | cons b fs ih =>
    by_cases hle : key a.1 ≤ key b.1
    · rw [List.orderedInsert_cons_of_le _ fs hle]
    · have hne : a.1 ≠ b.1 := fun heq => hle (heq ▸ le_rfl)
      rw [List.orderedInsert_of_not_le _ fs hle, List.lookup_cons, ih, List.lookup_cons, List.lookup_cons, List.lookup_cons]
      by_cases hb : k = b.1
      · have ha : (k == a.1) = false := beq_false_of_ne fun h => hne (h.symm.trans hb)
        rw [ha]
      · rw [beq_false_of_ne hb]

theorem lookup_sortBy (fs : List (String × β)) (k : String) :
    (sortBy (fun m => key m.1) fs).lookup k = fs.lookup k := by
  unfold sortBy
  induction fs with
  | nil => rfl
  | cons a fs ih =>
    rw [List.insertionSort_cons, lookup_orderedInsert, List.lookup_cons, List.lookup_cons, ih]

end Lookup

theorem lookup_map_snd {β γ : Type} (f : β → γ) (fs : List (String × β)) (k : String) :
    (fs.map (fun m => (m.1, f m.2))).lookup k = (fs.lookup k).map f := by
  induction fs with
  | nil => rfl
  | cons a fs ih =>
    rw [List.map_cons, List.lookup_cons, List.lookup_cons, ih]
    cases k == a.1 <;> rfl

theorem lookup_jsonbMembers (fs : List (String × Json)) (k : String) :
    (jsonbMembers fs).lookup k = (fs.lookup k).map jsonb := by
  rw [jsonbMembers, lookup_sortBy, jsonbFields_eq, lookup_map_snd]

theorem get_jsonbMembers (fs : List (String × Json)) (k : String) : get (jsonbMembers fs) k = (get fs k).jsonb := by
  rw [get, get, lookup_jsonbMembers]
  cases fs.lookup k with
  | none => exact (jsonb_null).symm
  | some v => rfl

theorem keys_jsonbMembers (fs : List (String × Json)) :
    (jsonbMembers fs).map Prod.fst = sortBy jsonbKey (fs.map Prod.fst) := by
  have hkeys : (jsonbFields fs).map Prod.fst = fs.map Prod.fst := by
    rw [jsonbFields_eq, List.map_map]
    rfl
  rw [jsonbMembers, ← hkeys]
  exact List.map_insertionSort _ _ _ _ fun _ _ _ _ => Iff.rfl

theorem length_jsonbMembers (fs : List (String × Json)) : (jsonbMembers fs).length = fs.length := by
  rw [jsonbMembers, (StableSort.perm_sortBy _).length_eq, jsonbFields_eq, List.length_map]

theorem mem_jsonbMembers {fs : List (String × Json)} {m : String × Json} :
    m ∈ jsonbMembers fs ↔ ∃ n ∈ fs, (n.1, jsonb n.2) = m := by
  rw [jsonbMembers, (StableSort.perm_sortBy _).mem_iff, jsonbFields_eq, List.mem_map]

end Json
