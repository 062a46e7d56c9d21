import Irip.Parameters.Conditions

/-!
# `Parameters.ConditionOrder` — when the comparisons of a condition agree with each other

A comparison goes by the numbers of its two sides if both have one, and by their texts if one has none; equality goes by the
values themselves. Which order is used depends on the pair, so the orders can contradict each other and the equality.
-/

namespace Irip.Parameters.Conditions

/-! ## Orders -/

namespace Reading

/-- `float(·)` answers. -/
def IsNumber (a : Reading) : Prop := ∃ x, a.number = .ok x

/-- `float(·)` says that this is no number. -/
def NoNumber (a : Reading) : Prop := a.number = .error .typeError ∨ a.number = .error .valueError

/-- `str(·)` answers. -/
def HasText (a : Reading) : Prop := ∃ s, a.text = .ok s

end Reading

section Orders

variable (a b : Reading)

/-- Both are numbers, and the first one is less. -/
def NumLt : Prop := ∃ x y, a.number = .ok x ∧ b.number = .ok y ∧ x.lt y = true

/-- The text of the first stands before the text of the second. -/
def TextLt : Prop := ∃ s t, a.text = .ok s ∧ b.text = .ok t ∧ s < t

/-- One of the two is no number, and `float` fails in no other way before that shows. -/
def ByText : Prop := a.NoNumber ∨ (a.IsNumber ∧ b.NoNumber)

/-- The two can be compared. -/
def Comparable : Prop := (a.IsNumber ∧ b.IsNumber) ∨ (ByText a b ∧ a.HasText ∧ b.HasText)

/-- The order tells the two apart: by their numbers, or else by their texts. -/
def Apart : Prop := (NumLt a b ∨ NumLt b a) ∨ (ByText a b ∧ (TextLt a b ∨ TextLt b a))

end Orders

/-! ## Comparison -/

section Comparison

variable {a b c : Reading}

theorem compare_of_numbers {x y : FloatNum} (hx : a.number = .ok x) (hy : b.number = .ok y) :
    compare a b = .ok (if x.lt y then -1 else if y.lt x then 1 else 0) := by
  unfold compare
  rw [hx, hy]
  rfl

theorem compare_of_byText (h : ByText a b) : compare a b = compareTexts a b := by
  unfold compare
  rcases h with (h | h) | ⟨⟨x, hx⟩, h | h⟩
  · rw [h]
    rfl
  · rw [h]
    rfl
  · rw [hx, h]
    rfl
  · rw [hx, h]
    rfl

theorem compareTexts_of_texts {s t : String} (hs : a.text = .ok s) (ht : b.text = .ok t) :
    compareTexts a b = .ok (if s < t then -1 else if t < s then 1 else 0) := by
  unfold compareTexts
  rw [hs, ht]
  rfl

theorem compare_cases {n : Int} (h : compare a b = .ok n) :
    (∃ x y, a.number = .ok x ∧ b.number = .ok y ∧ n = if x.lt y then -1 else if y.lt x then 1 else 0) ∨
      (ByText a b ∧ ∃ s t, a.text = .ok s ∧ b.text = .ok t ∧ n = if s < t then -1 else if t < s then 1 else 0) := by
  have htexts : ByText a b → ∃ s t, a.text = .ok s ∧ b.text = .ok t ∧ n = if s < t then -1 else if t < s then 1 else 0 := by
    intro hby
    rw [compare_of_byText hby] at h
    cases hs : a.text with
    | error e =>
      unfold compareTexts at h
      rw [hs] at h
      cases h
    | ok s =>
      cases ht : b.text with
      | error e =>
        unfold compareTexts at h
        rw [hs, ht] at h
        cases h
      | ok t =>
        rw [compareTexts_of_texts hs ht] at h
        exact ⟨s, t, rfl, rfl, (Except.ok.inj h).symm⟩
  cases hx : a.number with
  | ok x =>
    cases hy : b.number with
    | ok y =>
      rw [compare_of_numbers hx hy] at h
      exact .inl ⟨x, y, rfl, rfl, (Except.ok.inj h).symm⟩
    | error e =>
      have hfail : b.NoNumber := by
        unfold compare at h
        rw [hx, hy] at h
        cases e with
        | typeError => exact .inl hy
        | valueError => exact .inr hy
        | overflowError => cases h
        | other => cases h
      have hby : ByText a b := .inr ⟨⟨x, hx⟩, hfail⟩
      exact .inr ⟨hby, htexts hby⟩
  | error e =>
    have hby : ByText a b := by
      unfold compare at h
      rw [hx] at h
      cases e with
      | typeError => exact .inl (.inl hx)
      | valueError => exact .inl (.inr hx)
      | overflowError => cases h
      | other => cases h
    exact .inr ⟨hby, htexts hby⟩

/-- The answer is negative. -/
def Below (a b : Reading) : Prop := ∃ n, compare a b = .ok n ∧ n < 0

/-- The answer is positive. -/
def Above (a b : Reading) : Prop := ∃ n, compare a b = .ok n ∧ 0 < n

theorem below_iff : Below a b ↔ NumLt a b ∨ (ByText a b ∧ TextLt a b) := by
  constructor
  · rintro ⟨n, h, hneg⟩
    rcases compare_cases h with ⟨x, y, hx, hy, rfl⟩ | ⟨hby, s, t, hs, ht, rfl⟩
    · refine .inl ⟨x, y, hx, hy, ?_⟩
      by_contra hlt
      rw [if_neg hlt] at hneg
      split at hneg <;> omega
    · refine .inr ⟨hby, s, t, hs, ht, ?_⟩
      by_contra hlt
      rw [if_neg hlt] at hneg
      split at hneg <;> omega
  · rintro (⟨x, y, hx, hy, hlt⟩ | ⟨hby, s, t, hs, ht, hlt⟩)
    · exact ⟨-1, by rw [compare_of_numbers hx hy, if_pos hlt], by decide⟩
    · exact ⟨-1, by rw [compare_of_byText hby, compareTexts_of_texts hs ht, if_pos hlt], by decide⟩

theorem NumLt.trans (hab : NumLt a b) (hbc : NumLt b c) : NumLt a c := by
  obtain ⟨x, y, hx, hy, hxy⟩ := hab
  obtain ⟨y', z, hy', hz, hyz⟩ := hbc
  rw [hy] at hy'
  cases hy'
  exact ⟨x, z, hx, hz, FloatNum.lt_trans hxy hyz⟩

theorem TextLt.trans (hab : TextLt a b) (hbc : TextLt b c) : TextLt a c := by
  obtain ⟨s, t, hs, ht, hst⟩ := hab
  obtain ⟨t', u, ht', hu, htu⟩ := hbc
  rw [ht] at ht'
  cases ht'
  exact ⟨s, u, hs, hu, hst.trans htu⟩

theorem NumLt.left (h : NumLt a b) : a.IsNumber := by
  obtain ⟨x, y, hx, -, -⟩ := h
  exact ⟨x, hx⟩

theorem NumLt.right (h : NumLt a b) : b.IsNumber := by
  obtain ⟨x, y, -, hy, -⟩ := h
  exact ⟨y, hy⟩

end Comparison

/-! ## Equality -/

section Equality

variable {v w : Json} {x y z : FloatNum} {q : ℚ}

end Equality

/-! ## Result -/

section Result

variable (context : Dict String Value) (field : String) (v w : Operand)

/-- The field satisfies a comparison. -/
def Satisfies (op : ConditionOperator) (value : Json) : Prop :=
  evalLeaf context { field := field, op := op, value := value } = .ok true

/-- **The comparisons with two operands agree**: `gte` and `lte` together are `eq`; one of `lt`, `eq` and `gt` holds and no
second one, if the field is present; `in` a list of one is `eq`; and what is below the first operand is below the
second, if the first is below the second. -/
structure Consistent : Prop where
  level : (Satisfies context field .gte v ∧ Satisfies context field .lte v) ↔ Satisfies context field .eq v
  one : context.get? field ≠ none →
    (Satisfies context field .lt v ∧ ¬ Satisfies context field .eq v ∧ ¬ Satisfies context field .gt v) ∨
      (¬ Satisfies context field .lt v ∧ Satisfies context field .eq v ∧ ¬ Satisfies context field .gt v) ∨
      (¬ Satisfies context field .lt v ∧ ¬ Satisfies context field .eq v ∧ Satisfies context field .gt v)
  member : Satisfies context field .in_ (.arr [v.val]) ↔ Satisfies context field .eq v
  trans : Satisfies context field .lt v → Below (reading v) (reading w) → Satisfies context field .lt w

/-- The equality and the order agree: a scalar that differs from the operand is told apart from it by the order, and another
object is equal to it exactly if it is not. -/
def Settled : Value → Operand → Prop
  | .scalar c, v => sameScalar c.val v.val = false → Apart (reading c.val) (reading v.val)
  | .object o, v => o.equals v.val = true ↔ ¬ Apart o.toReading (reading v.val)

variable {context field v w}

section Present

variable {c : Value} (hc : context.get? field = some c)

include hc

variable {value : Json}

end Present

end Result

end Irip.Parameters.Conditions
