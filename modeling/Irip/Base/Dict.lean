import Mathlib.Data.List.Induction
import Mathlib.Data.List.Nodup

/-!
# `Base.Dict` — insertion-ordered dictionaries, and tables kept as such

A Python `dict`: a list of entries with distinct keys, in the order in which the keys were first set.
Setting a key that is present keeps its place. Two dictionaries are equal, as Python compares them, when
they give the same answer for every key.

A table is kept as a dictionary from primary keys to rows, with what an UPDATE, a DELETE and a SELECT by another column
do to it.
-/

/-- A dictionary with keys in `κ` and values in `α`. -/
structure Dict (κ α : Type) where
  entries : List (κ × α)
  nodup : (entries.map Prod.fst).Nodup

namespace Dict

variable {κ α β : Type} [DecidableEq κ]

/-! ## Dictionaries -/

/-- `{}`. -/
def empty : Dict κ α := ⟨[], List.nodup_nil⟩

instance : EmptyCollection (Dict κ α) := ⟨empty⟩

instance : Inhabited (Dict κ α) := ⟨empty⟩

/-- `d.get(k)`. -/
def get? (d : Dict κ α) (k : κ) : Option α := (d.entries.find? (fun e => e.1 = k)).map Prod.snd

/-- `d.get(k, a)`. -/
def getD (d : Dict κ α) (k : κ) (a : α) : α := (d.get? k).getD a

def keys (d : Dict κ α) : List κ := d.entries.map Prod.fst

def values (d : Dict κ α) : List α := d.entries.map Prod.snd

/-- The entries after `k` has been set to `a`. -/
def setEntries (k : κ) (a : α) : List (κ × α) → List (κ × α)
  | [] => [(k, a)]
  | e :: es => if e.1 = k then (k, a) :: es else e :: setEntries k a es

theorem keys_setEntries (k : κ) (a : α) (es : List (κ × α)) :
    (setEntries k a es).map Prod.fst =
      if k ∈ es.map Prod.fst then es.map Prod.fst else es.map Prod.fst ++ [k] := by
  induction es with
  | nil => rfl
  | cons e es ih =>
    unfold setEntries
    by_cases he : e.1 = k
    · simp [he]
    · have hne : ¬ k = e.1 := fun h => he h.symm
      rw [if_neg he, List.map_cons, ih]
      by_cases hk : k ∈ es.map Prod.fst
      · have hk' : k ∈ List.map Prod.fst (e :: es) := List.mem_cons_of_mem _ hk
        rw [if_pos hk, if_pos hk', List.map_cons]
      · have hk' : k ∉ List.map Prod.fst (e :: es) := by
          rw [List.map_cons, List.mem_cons]
          exact fun h => h.elim hne hk
        rw [if_neg hk, if_neg hk', List.map_cons, List.cons_append]

/-- `d[k] = a`. -/
def set (d : Dict κ α) (k : κ) (a : α) : Dict κ α where
  entries := setEntries k a d.entries
  nodup := by
    rw [keys_setEntries]
    split
    · exact d.nodup
    · next h =>
        rw [List.nodup_append]
        refine ⟨d.nodup, List.nodup_singleton k, ?_⟩
        rintro x hx _ hy rfl
        exact h (List.mem_singleton.mp hy ▸ hx)

/-- The dictionary with the given assignments made in order. -/
def setAll (d : Dict κ α) (es : List (κ × α)) : Dict κ α := es.foldl (fun d e => d.set e.1 e.2) d

/-- `{**d, **e}`. -/
def merge (d e : Dict κ α) : Dict κ α := d.setAll e.entries

/-- A dictionary display or comprehension. -/
def ofList (es : List (κ × α)) : Dict κ α := empty.setAll es

/-- `{k: f(a) for k, a in d.items()}`. -/
def mapVal (f : α → β) (d : Dict κ α) : Dict κ β where
  entries := d.entries.map (fun e => (e.1, f e.2))
  nodup := by
    rw [List.map_map]
    exact d.nodup

/-- Equality of dictionaries: the same value under every key. -/
def Same (d e : Dict κ α) : Prop := ∀ k, d.get? k = e.get? k

theorem Same.refl (d : Dict κ α) : d.Same d := fun _ => rfl

theorem Same.symm {d e : Dict κ α} (h : d.Same e) : e.Same d := fun k => (h k).symm

theorem Same.trans {d e f : Dict κ α} (h : d.Same e) (h' : e.Same f) : d.Same f :=
  fun k => (h k).trans (h' k)

/-! ## Reading -/

theorem find?_setEntries (k k' : κ) (a : α) (es : List (κ × α)) :
    ((setEntries k a es).find? (fun e => e.1 = k')).map Prod.snd =
      if k' = k then some a else (es.find? (fun e => e.1 = k')).map Prod.snd := by
  induction es with
  | nil =>
    by_cases h : k' = k
    · simp [setEntries, h]
    · have hne : ¬ k = k' := fun h' => h h'.symm
      simp [setEntries, h, hne]
  | cons e es ih =>
    unfold setEntries
    by_cases he : e.1 = k
    · rw [if_pos he]
      by_cases h : k' = k
      · simp [h]
      · have hne : ¬ k = k' := fun h' => h h'.symm
        have hne' : ¬ e.1 = k' := fun h' => h (h'.symm.trans he)
        simp [h, hne, hne']
    · rw [if_neg he]
      by_cases h : e.1 = k'
      · have hne : ¬ k' = k := fun h' => he (h.trans h')
        simp [h, hne]
      · simpa [h] using ih

@[simp] theorem get?_set (d : Dict κ α) (k k' : κ) (a : α) :
    (d.set k a).get? k' = if k' = k then some a else d.get? k' :=
  find?_setEntries k k' a d.entries

theorem get?_eq_none_iff {d : Dict κ α} {k : κ} : d.get? k = none ↔ k ∉ d.keys := by
  unfold get? keys
  rw [Option.map_eq_none_iff, List.find?_eq_none, List.mem_map]
  constructor
  · rintro h ⟨e, he, hk⟩
    exact h e he (decide_eq_true hk)
  · intro h e he hk
    exact h ⟨e, he, of_decide_eq_true hk⟩

theorem mem_keys_iff {d : Dict κ α} {k : κ} : k ∈ d.keys ↔ ∃ a, d.get? k = some a := by
  rw [← Option.isSome_iff_exists, ← Option.ne_none_iff_isSome, ne_eq, get?_eq_none_iff, not_not]

theorem get?_eq_some_iff {d : Dict κ α} {k : κ} {a : α} : d.get? k = some a ↔ (k, a) ∈ d.entries := by
  obtain ⟨es, hnd⟩ := d
  show (es.find? (fun e => e.1 = k)).map Prod.snd = some a ↔ (k, a) ∈ es
  induction es with
  | nil => simp
  | cons e es ih =>
    rw [List.map_cons, List.nodup_cons] at hnd
    by_cases he : e.1 = k
    · subst he
      have hno : (e.1, a) ∉ es := fun h => hnd.1 (List.mem_map.mpr ⟨_, h, rfl⟩)
      simp only [List.find?_cons, decide_true, Option.map_some, Option.some.injEq, List.mem_cons, hno,
        or_false]
      constructor
      · rintro rfl
        rfl
      · intro h
        exact congrArg Prod.snd h.symm
    · have hne : ¬ (k, a) = e := fun h => he (congrArg Prod.fst h).symm
      simp only [List.find?_cons, he, decide_false, List.mem_cons, hne, false_or]
      exact ih hnd.2

theorem get?_setAll (d : Dict κ α) (es : List (κ × α)) (k : κ) :
    (d.setAll es).get? k = ((es.reverse.find? (fun e => e.1 = k)).map Prod.snd).or (d.get? k) := by
  unfold setAll
  induction es generalizing d with
  | nil => simp
  | cons e es ih =>
    rw [List.foldl_cons, ih, List.reverse_cons, List.find?_append, get?_set]
    cases hfind : es.reverse.find? (fun e => e.1 = k) with
    | some x => simp
    | none =>
      by_cases hk : k = e.1
      · subst hk
        simp
      · have hne : ¬ e.1 = k := fun h => hk h.symm
        simp [hk, hne]

theorem get?_ofList (es : List (κ × α)) (k : κ) :
    (ofList es).get? k = (es.reverse.find? (fun e => e.1 = k)).map Prod.snd := by
  have hempty : (empty : Dict κ α).get? k = none := rfl
  rw [ofList, get?_setAll, hempty, Option.or_none]

theorem mem_of_get?_ofList {es : List (κ × α)} {k : κ} {a : α} (h : (ofList es).get? k = some a) :
    (k, a) ∈ es := by
  rw [get?_ofList] at h
  obtain ⟨⟨k', a'⟩, hfind, rfl⟩ := Option.map_eq_some_iff.mp h
  have hk : k' = k := by simpa using List.find?_some hfind
  subst hk
  exact List.mem_reverse.mp (List.mem_of_find?_eq_some hfind)

theorem mem_keys_ofList {es : List (κ × α)} {k : κ} : k ∈ (ofList es).keys ↔ k ∈ es.map Prod.fst := by
  rw [mem_keys_iff]
  constructor
  · rintro ⟨a, ha⟩
    exact List.mem_map.mpr ⟨_, mem_of_get?_ofList ha, rfl⟩
  · intro hk
    obtain ⟨e, he, rfl⟩ := List.mem_map.mp hk
    rw [get?_ofList]
    cases hfind : es.reverse.find? (fun x => x.1 = e.1) with
    | some x => exact ⟨x.2, rfl⟩
    | none =>
      have hnone := List.find?_eq_none.mp hfind e (List.mem_reverse.mpr he)
      simp at hnone

@[simp] theorem get?_merge (d e : Dict κ α) (k : κ) : (d.merge e).get? k = (e.get? k).or (d.get? k) := by
  rw [merge, get?_setAll]
  congr 1
  have hrev : (⟨e.entries.reverse, by rw [List.map_reverse, List.nodup_reverse]; exact e.nodup⟩
      : Dict κ α).get? k = e.get? k := by
    apply Option.ext
    intro a
    rw [get?_eq_some_iff, get?_eq_some_iff, List.mem_reverse]
  exact hrev

@[simp] theorem get?_mapVal (f : α → β) (d : Dict κ α) (k : κ) :
    (d.mapVal f).get? k = (d.get? k).map f := by
  unfold get? mapVal
  rw [List.find?_map, Option.map_map, Option.map_map]
  rfl

omit [DecidableEq κ] in
@[simp] theorem mapVal_id (d : Dict κ α) : d.mapVal id = d := by
  obtain ⟨es, hnd⟩ := d
  simp [mapVal]

/-! ## Order -/

theorem setEntries_of_not_mem {k : κ} {a : α} {es : List (κ × α)} (h : k ∉ es.map Prod.fst) :
    setEntries k a es = es ++ [(k, a)] := by
  induction es with
  | nil => rfl
  | cons e es ih =>
    rw [List.map_cons, List.mem_cons] at h
    have hne : ¬ e.1 = k := fun he => h (.inl he.symm)
    have htail : k ∉ es.map Prod.fst := fun hk => h (.inr hk)
    rw [setEntries, if_neg hne, ih htail]
    rfl

theorem setEntries_append {k : κ} {a : α} {es fs : List (κ × α)} (h : k ∉ es.map Prod.fst) :
    setEntries k a (es ++ fs) = es ++ setEntries k a fs := by
  induction es with
  | nil => rfl
  | cons e es ih =>
    rw [List.map_cons, List.mem_cons] at h
    have hne : ¬ e.1 = k := fun he => h (.inl he.symm)
    have htail : k ∉ es.map Prod.fst := fun hk => h (.inr hk)
    rw [List.cons_append, setEntries, if_neg hne, ih htail, List.cons_append]

theorem entries_set_of_not_mem {d : Dict κ α} {k : κ} {a : α} (h : k ∉ d.keys) :
    (d.set k a).entries = d.entries ++ [(k, a)] :=
  setEntries_of_not_mem h

theorem ofList_append (es : List (κ × α)) (k : κ) (a : α) : ofList (es ++ [(k, a)]) = (ofList es).set k a :=
  List.foldl_append

theorem entries_ofList {es : List (κ × α)} (h : (es.map Prod.fst).Nodup) : (ofList es).entries = es := by
  induction es using List.reverseRecOn with
  | nil => rfl
  | append_singleton es e ih =>
    rw [List.map_append, List.nodup_append] at h
    obtain ⟨hnd, _, hdisj⟩ := h
    have hkey : e.1 ∉ (ofList es).keys := by
      intro hmem
      unfold keys at hmem
      rw [ih hnd] at hmem
      exact hdisj e.1 hmem e.1 (List.mem_singleton.mpr rfl) rfl
    obtain ⟨k, a⟩ := e
    rw [ofList_append, entries_set_of_not_mem hkey, ih hnd]

theorem same_ofList_of_perm {es fs : List (κ × α)} (h : es.Perm fs) (hnd : (fs.map Prod.fst).Nodup) :
    (ofList es).Same (ofList fs) := by
  intro k
  have hnd' : (es.map Prod.fst).Nodup := (h.map Prod.fst).nodup_iff.mpr hnd
  apply Option.ext
  intro a
  rw [get?_eq_some_iff, get?_eq_some_iff, entries_ofList hnd, entries_ofList hnd', h.mem_iff]

theorem get?_ofList_map (f : α → β) (es : List (κ × α)) (k : κ) :
    (ofList (es.map (fun e => (e.1, f e.2)))).get? k = ((ofList es).get? k).map f := by
  rw [get?_ofList, get?_ofList, ← List.map_reverse, List.find?_map, Option.map_map, Option.map_map]
  rfl

end Dict

namespace Dict

variable {κ α : Type} [DecidableEq κ]

/-! ## Statements -/

/-- `UPDATE … WHERE key = k`. -/
def modify (d : Dict κ α) (k : κ) (f : α → α) : Dict κ α where
  entries := d.entries.map (fun e => (e.1, if e.1 = k then f e.2 else e.2))
  nodup := by
    rw [List.map_map]
    exact d.nodup

/-- `DELETE … WHERE key = k`. -/
def erase (d : Dict κ α) (k : κ) : Dict κ α where
  entries := d.entries.filter (fun e => e.1 ≠ k)
  nodup := d.nodup.sublist (List.filter_sublist.map Prod.fst)

omit [DecidableEq κ] in
/-- `DELETE … WHERE`. -/
def eraseWhere (d : Dict κ α) (p : α → Bool) : Dict κ α where
  entries := d.entries.filter (fun e => !p e.2)
  nodup := d.nodup.sublist (List.filter_sublist.map Prod.fst)

omit [DecidableEq κ] in
/-- The first row that meets a condition, with its key. -/
def findBy (d : Dict κ α) (p : α → Bool) : Option (κ × α) := d.entries.find? (fun e => p e.2)

omit [DecidableEq κ] in
/-- The keys of the rows that meet a condition. -/
def keysWhere (d : Dict κ α) (p : α → Bool) : List κ := (d.entries.filter (fun e => p e.2)).map Prod.fst

omit [DecidableEq κ] in
/-- Some row meets a condition. -/
def anyRow (d : Dict κ α) (p : α → Bool) : Bool := d.entries.any (fun e => p e.2)

/-! ## Reading -/

@[simp] theorem get?_modify (d : Dict κ α) (k k' : κ) (f : α → α) :
    (d.modify k f).get? k' = if k' = k then (d.get? k').map f else d.get? k' := by
  unfold get? modify
  rw [List.find?_map, Option.map_map]
  show Option.map (Prod.snd ∘ fun e => (e.1, if e.1 = k then f e.2 else e.2))
    (d.entries.find? (fun e => e.1 = k')) = _
  cases hfind : d.entries.find? (fun e => e.1 = k') with
  | none => simp
  | some e =>
    have hkey : e.1 = k' := by simpa using List.find?_some hfind
    by_cases hk : k' = k
    · simp [hkey, hk]
    · simp [hkey, hk]

@[simp] theorem get?_erase (d : Dict κ α) (k k' : κ) :
    (d.erase k).get? k' = if k' = k then none else d.get? k' := by
  apply Option.ext
  intro a
  have herase : (d.erase k).get? k' = some a ↔ (k', a) ∈ d.entries ∧ k' ≠ k := by
    rw [get?_eq_some_iff]
    show (k', a) ∈ d.entries.filter (fun e => e.1 ≠ k) ↔ _
    rw [List.mem_filter, decide_eq_true_eq]
  rw [herase, ← get?_eq_some_iff]
  by_cases hk : k' = k
  · simp [hk]
  · simp [hk]

@[simp] theorem get?_eraseWhere (d : Dict κ α) (p : α → Bool) (k : κ) :
    (d.eraseWhere p).get? k = (d.get? k).filter (fun a => !p a) := by
  apply Option.ext
  intro a
  rw [Option.filter_eq_some_iff, get?_eq_some_iff, get?_eq_some_iff]
  exact List.mem_filter

theorem get?_of_findBy {d : Dict κ α} {p : α → Bool} {k : κ} {a : α} (h : d.findBy p = some (k, a)) :
    d.get? k = some a ∧ p a = true := by
  unfold findBy at h
  have hp := List.find?_some h
  exact ⟨get?_eq_some_iff.mpr (List.mem_of_find?_eq_some h), hp⟩

theorem findBy_eq_none_iff {d : Dict κ α} {p : α → Bool} :
    d.findBy p = none ↔ ∀ k a, d.get? k = some a → p a = false := by
  unfold findBy
  rw [List.find?_eq_none]
  constructor
  · intro h k a ha
    simpa using h (k, a) (get?_eq_some_iff.mp ha)
  · rintro h ⟨k, a⟩ he
    simp [h k a (get?_eq_some_iff.mpr he)]

theorem mem_keysWhere {d : Dict κ α} {p : α → Bool} {k : κ} :
    k ∈ d.keysWhere p ↔ ∃ a, d.get? k = some a ∧ p a = true := by
  unfold keysWhere
  rw [List.mem_map]
  constructor
  · rintro ⟨⟨k, a⟩, he, rfl⟩
    obtain ⟨hmem, hp⟩ := List.mem_filter.mp he
    exact ⟨a, get?_eq_some_iff.mpr hmem, hp⟩
  · rintro ⟨a, ha, hp⟩
    exact ⟨(k, a), List.mem_filter.mpr ⟨get?_eq_some_iff.mp ha, hp⟩, rfl⟩

theorem anyRow_iff {d : Dict κ α} {p : α → Bool} :
    d.anyRow p = true ↔ ∃ k a, d.get? k = some a ∧ p a = true := by
  unfold anyRow
  rw [List.any_eq_true]
  constructor
  · rintro ⟨⟨k, a⟩, he, hp⟩
    exact ⟨k, a, get?_eq_some_iff.mpr he, hp⟩
  · rintro ⟨k, a, ha, hp⟩
    exact ⟨(k, a), get?_eq_some_iff.mp ha, hp⟩

theorem anyRow_eq_false_iff {d : Dict κ α} {p : α → Bool} :
    d.anyRow p = false ↔ ∀ k a, d.get? k = some a → p a = false := by
  rw [← Bool.not_eq_true, anyRow_iff]
  constructor
  · intro h k a ha
    by_contra hp
    exact h ⟨k, a, ha, by simpa using hp⟩
  · rintro h ⟨k, a, ha, hp⟩
    rw [h k a ha] at hp
    cases hp

end Dict
