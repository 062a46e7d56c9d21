import Irip.Numeric.Eval

/-!
# `Numeric.NullPropagation` — which positions of a combined value are null

A null scalar is null at every position. `LosesNull` are the operands for which a null is lost.
-/

namespace Irip.Numeric

theorem one_argument {α : Type} {args : List α} (hhi : args.length ≤ 1) (hlo : 1 ≤ args.length) : ∃ x, args = [x] :=
  List.length_eq_one_iff.mp (Nat.le_antisymm hhi hlo)

theorem two_arguments {α : Type} {args : List α} (hhi : args.length ≤ 2) (hlo : 2 ≤ args.length) :
    ∃ x y, args = [x, y] :=
  List.length_eq_two.mp (Nat.le_antisymm hhi hlo)

open Evaluation

variable {F : Type}

/-! ## Nulls of operands -/

/-- The cell at a position: a vector of length one is stretched. -/
def cellAt : List (Cell F) → Nat → Option (Cell F)
  | [c], _ => some c
  | cells, i => cells[i]?

theorem cellAt_of_lt {cells : List (Cell F)} {i : Nat} (h : i < cells.length) : cellAt cells i = cells[i]? := by
  match cells with
  | [] => exact absurd h (Nat.not_lt_zero i)
  | [c] =>
    have hi : i = 0 := Nat.lt_one_iff.mp h
    subst hi
    rfl
  | _ :: _ :: _ => rfl

theorem cellAt_of_length_ne {cells : List (Cell F)} (h : cells.length ≠ 1) (i : Nat) :
    cellAt cells i = cells[i]? := by
  match cells with
  | [] => rfl
  | [c] => exact absurd rfl h
  | _ :: _ :: _ => rfl

theorem cellAt_of_length_one {cells : List (Cell F)} (h : cells.length = 1) (i j : Nat) :
    cellAt cells i = cellAt cells j := by
  obtain ⟨c, rfl⟩ := List.length_eq_one_iff.mp h
  rfl

namespace Payload

def isVector : Payload F → Bool
  | .vector _ => true
  | _ => false

def isNullScalar : Payload F → Bool
  | .nullScalar => true
  | _ => false

/-- An operand is null at a position. -/
def nullAt : Payload F → Nat → Bool
  | .scalar _, _ => false
  | .nullScalar, _ => true
  | .vector cells, i => (cellAt cells i).any Cell.null

/-- An operand has a position. -/
def covers : Payload F → Nat → Prop
  | .vector cells, i => (cellAt cells i).isSome = true
  | _, _ => True

/-- A result has a position: a scalar has one. -/
def position : Payload F → Nat → Prop
  | .vector cells, i => i < cells.length
  | _, i => i = 0

end Payload

/-! ## The property -/

/-- A position of the result is null exactly when an operand is null there. -/
def NullsPropagate (ps : List (Payload F)) (r : Payload F) : Prop :=
  ∀ i, r.position i → (r.nullAt i = true ↔ ∃ p ∈ ps, p.nullAt i = true)

/-- There is a null scalar among the operands, and either there are vectors with a common position at which none of
them is null, or two scalars are compared. -/
def LosesNull (comparison : Bool) (ps : List (Payload F)) : Prop :=
  (∃ p ∈ ps, p.isNullScalar = true) ∧
    ((∃ p ∈ ps, p.isVector = true) ∧
        (∃ i, (∀ p ∈ ps, p.covers i) ∧ ∀ p ∈ ps, p.isVector = true → p.nullAt i = false) ∨
      (∀ p ∈ ps, p.isVector = false) ∧ comparison = true)

/-! ## Vectors -/

/-- The cells of a result computed from `ps`: it has the positions the operands have in common, and the nulls of
the vectors among them. -/
structure Spread (ps : List (Payload F)) (cells : List (Cell F)) : Prop where
  vector : ∃ p ∈ ps, p.isVector = true
  covers : ∀ i < cells.length, ∀ p ∈ ps, p.covers i
  position : ∀ i, (∀ p ∈ ps, p.covers i) → ∃ k < cells.length, ∀ p ∈ ps, p.nullAt k = p.nullAt i
  null : ∀ i c, cells[i]? = some c →
    (c.null = true ↔ ∃ p ∈ ps, p.isVector = true ∧ p.nullAt i = true)

theorem Payload.nullAt_cases {p : Payload F} {i : Nat} (h : p.nullAt i = true) :
    p.isNullScalar = true ∨ p.isVector = true := by
  cases p with
  | scalar _ => cases h
  | nullScalar => exact .inl rfl
  | vector _ => exact .inr rfl

theorem Payload.nullAt_of_isNullScalar {p : Payload F} (h : p.isNullScalar = true) (i : Nat) :
    p.nullAt i = true := by
  cases p with
  | scalar _ => cases h
  | nullScalar => rfl
  | vector _ => cases h

theorem Payload.nullAt_vector {cells : List (Cell F)} {i : Nat} {c : Cell F} (h : cells[i]? = some c) :
    (Payload.vector cells).nullAt i = c.null := by
  obtain ⟨hi, _⟩ := List.getElem?_eq_some_iff.mp h
  show (cellAt cells i).any Cell.null = c.null
  rw [cellAt_of_lt hi, h]
  rfl

variable {ps : List (Payload F)}

theorem Spread.nulls_iff {cells : List (Cell F)} (h : Spread ps cells)
    (comparison : Bool) : NullsPropagate ps (.vector cells) ↔ ¬ LosesNull comparison ps := by
  constructor
  · rintro hprop ⟨⟨p, hp, hnull⟩, ⟨_, i, hcover, hfree⟩ | ⟨hscalar, _⟩⟩
    · obtain ⟨k, hk, hsame⟩ := h.position i hcover
      obtain ⟨c, hc⟩ : ∃ c, cells[k]? = some c := ⟨_, List.getElem?_eq_getElem hk⟩
      have hck : c.null = true := by
        rw [← Payload.nullAt_vector hc]
        exact (hprop k hk).mpr ⟨p, hp, Payload.nullAt_of_isNullScalar hnull k⟩
      obtain ⟨q, hq, hqv, hqk⟩ := (h.null k c hc).mp hck
      rw [hsame q hq, hfree q hq hqv] at hqk
      cases hqk
    · obtain ⟨q, hq, hqv⟩ := h.vector
      rw [hscalar q hq] at hqv
      cases hqv
  · intro hkeep i hi
    have hi' : i < cells.length := hi
    obtain ⟨c, hc⟩ : ∃ c, cells[i]? = some c := ⟨_, List.getElem?_eq_getElem hi'⟩
    rw [Payload.nullAt_vector hc, h.null i c hc]
    constructor
    · rintro ⟨p, hp, _, hpi⟩
      exact ⟨p, hp, hpi⟩
    · rintro ⟨p, hp, hpi⟩
      by_contra hnone
      -- no vector is null at `i`: then `p` is a null scalar, and `i` is a position where it is lost
      have hfree : ∀ q ∈ ps, q.isVector = true → q.nullAt i = false := fun q hq hqv =>
        Bool.eq_false_iff.mpr (fun hqi => hnone ⟨q, hq, hqv, hqi⟩)
      rcases Payload.nullAt_cases hpi with hnull | hvec
      · exact hkeep ⟨⟨p, hp, hnull⟩, .inl ⟨h.vector, i, h.covers i hi', hfree⟩⟩
      · exact hnone ⟨p, hp, hvec, hpi⟩

theorem Spread.of_lengths {cells : List (Cell F)}
    (hall : ∀ cs, Payload.vector cs ∈ ps → cs.length = cells.length ∨ cs.length = 1)
    (hsome : ∃ cs, Payload.vector cs ∈ ps ∧ cs.length = cells.length)
    (hnull : ∀ i c, cells[i]? = some c →
      (c.null = true ↔ ∃ p ∈ ps, p.isVector = true ∧ p.nullAt i = true)) : Spread ps cells where
  vector := by
    obtain ⟨cs, hcs, _⟩ := hsome
    exact ⟨_, hcs, rfl⟩
  covers i hi p hp := by
    cases p with
    | scalar _ => trivial
    | nullScalar => trivial
    | vector cs =>
      rcases hall cs hp with hlen | hlen
      · show (cellAt cs i).isSome = true
        rw [cellAt_of_lt (hlen ▸ hi), List.getElem?_eq_getElem (hlen ▸ hi)]
        rfl
      · obtain ⟨c, rfl⟩ := List.length_eq_one_iff.mp hlen
        rfl
  position i hcover := by
    obtain ⟨cs, hcs, hlen⟩ := hsome
    by_cases hone : cs.length = 1
    · -- every vector has length one
      refine ⟨0, by omega, fun p hp => ?_⟩
      cases p with
      | scalar _ => rfl
      | nullScalar => rfl
      | vector ds =>
        have hds : ds.length = 1 := by
          rcases hall ds hp with h | h <;> omega
        show (cellAt ds 0).any _ = (cellAt ds i).any _
        rw [cellAt_of_length_one hds 0 i]
    · have hi : (cellAt cs i).isSome = true := hcover _ hcs
      rw [cellAt_of_length_ne hone] at hi
      obtain ⟨c, hc⟩ := Option.isSome_iff_exists.mp hi
      obtain ⟨hlt, _⟩ := List.getElem?_eq_some_iff.mp hc
      exact ⟨i, hlen ▸ hlt, fun _ _ => rfl⟩
  null := hnull

/-! ## Scalars -/

/-- A scalar result computed from `ps`. -/
structure ScalarNulls (ps : List (Payload F)) (r : Payload F) : Prop where
  scalars : ∀ p ∈ ps, p.isVector = false
  scalar : r.isVector = false
  null : r.isNullScalar = true ↔ ∃ p ∈ ps, p.isNullScalar = true

theorem Payload.nullAt_of_scalar {p : Payload F} (h : p.isVector = false) (i : Nat) :
    p.nullAt i = p.isNullScalar := by
  cases p with
  | scalar _ => rfl
  | nullScalar => rfl
  | vector _ => cases h

theorem ScalarNulls.nulls {r : Payload F} (h : ScalarNulls ps r) : NullsPropagate ps r := by
  intro i _
  rw [Payload.nullAt_of_scalar h.scalar, h.null]
  refine exists_congr fun p => and_congr_right fun hp => ?_
  rw [Payload.nullAt_of_scalar (h.scalars p hp)]

/-- What a node that combines values makes of their nulls. -/
inductive Nulls (comparison : Bool) (ps : List (Payload F)) : Payload F → Prop where
  | vector {cells} : Spread ps cells → Nulls comparison ps (.vector cells)
  | scalar {r} : comparison = false → ScalarNulls ps r → Nulls comparison ps r
  | condition {x} : comparison = true → (∀ p ∈ ps, p.isVector = false) → Nulls comparison ps (.scalar x)

theorem Nulls.iff {comparison : Bool} {r : Payload F} (h : Nulls comparison ps r) :
    NullsPropagate ps r ↔ ¬ LosesNull comparison ps := by
  cases h with
  | vector hspread => exact hspread.nulls_iff comparison
  | scalar hc hscalar =>
    refine ⟨fun _ => ?_, fun _ => hscalar.nulls⟩
    rintro ⟨_, ⟨⟨p, hp, hvec⟩, _⟩ | ⟨_, hc'⟩⟩
    · rw [hscalar.scalars p hp] at hvec
      cases hvec
    · rw [hc] at hc'
      cases hc'
  | condition hc hscalars =>
    constructor
    · rintro hprop ⟨⟨p, hp, hnull⟩, _⟩
      have habsurd : (Payload.scalar _ : Payload F).nullAt 0 = true :=
        (hprop 0 rfl).mpr ⟨p, hp, Payload.nullAt_of_isNullScalar hnull 0⟩
      cases habsurd
    · intro hkeep i _
      refine ⟨fun h => (by cases h), fun ⟨p, hp, hpi⟩ => ?_⟩
      rw [Payload.nullAt_of_scalar (hscalars p hp)] at hpi
      exact absurd ⟨⟨p, hp, hpi⟩, .inr ⟨hscalars, hc⟩⟩ hkeep

/-! ## Operators -/

namespace Interpreter

variable {I : Interpreter F}

theorem isVector_eq_false_iff {p : Payload F} : p.isVector = false ↔ p.shape = none := by
  cases p <;> simp [Payload.isVector, Payload.shape]

variable {l r x a b cond : EvalValue F} {n i m : Nat} {c : Cell F} {unit : UnitTag} {v : Visited F}
  {f : Elementwise F}

theorem broadcast_none (h : broadcast l r = .ok none) : l.payload.isVector = false ∧ r.payload.isVector = false := by
  rw [isVector_eq_false_iff, isVector_eq_false_iff]
  unfold broadcast at h
  generalize l.payload.shape = a at h ⊢
  generalize r.payload.shape = b at h ⊢
  cases a with
  | none =>
    cases b with
    | none => exact ⟨rfl, rfl⟩
    | some _ => cases h
  | some _ =>
    cases b with
    | none => cases h
    | some _ =>
      dsimp only at h
      split at h <;> cases h

/-- Operands of which every vector has the length `n`, and one at least is a vector. -/
structure Common (l r : Payload F) (n : Nat) : Prop where
  left : l.shape = none ∨ l.shape = some n
  right : r.shape = none ∨ r.shape = some n
  vector : l.shape = some n ∨ r.shape = some n

theorem broadcast_some (h : broadcast l r = .ok (some n)) : Common l.payload r.payload n := by
  unfold broadcast at h
  generalize hl : l.payload.shape = a at h
  generalize hr : r.payload.shape = b at h
  cases a with
  | none =>
    cases b with
    | none => cases h
    | some m =>
      cases h
      exact ⟨.inl hl, .inr hr, .inr hr⟩
  | some k =>
    cases b with
    | none =>
      cases h
      exact ⟨.inr hl, .inl hr, .inl hl⟩
    | some m =>
      dsimp only at h
      split at h
      · next heq =>
          cases h
          exact ⟨.inr hl, .inr (heq ▸ hr), .inl hl⟩
      · cases h

theorem getCells_null {v : EvalValue F} (h : (I.getCells v n)[i]? = some c) :
    c.null = true ↔ v.payload.isVector = true ∧ v.payload.nullAt i = true := by
  unfold getCells at h
  cases hv : v.payload with
  | scalar x | nullScalar =>
    rw [hv] at h
    rw [List.eq_of_mem_replicate (List.mem_of_getElem? h)]
    simp [Payload.isVector]
  | vector cells =>
    rw [hv] at h
    rw [Payload.nullAt_vector h]
    simp [Payload.isVector]

theorem getCells_length {v : EvalValue F} (h : v.payload.shape = none ∨ v.payload.shape = some n) :
    (I.getCells v n).length = n := by
  unfold getCells
  unfold Payload.shape at h
  cases hv : v.payload with
  | scalar x | nullScalar => exact List.length_replicate
  | vector cells =>
    rw [hv] at h
    rcases h with h | h
    · cases h
    · exact Option.some.inj h

theorem pairUp_length (h : Common l.payload r.payload n) : (I.pairUp l r n).length = n := by
  rw [pairUp, List.length_zipWith, getCells_length h.left, getCells_length h.right, Nat.min_self]

theorem pairUp_null (hp : I.options.nullPolicy = .propagate)
    {p : (F × F) × Bool} (h : (I.pairUp l r n)[i]? = some p) :
    p.2 = true ↔ ∃ q ∈ [l.payload, r.payload], q.isVector = true ∧ q.nullAt i = true := by
  obtain ⟨a, b, ha, hb, rfl⟩ := List.getElem?_zipWith_eq_some.mp h
  have hnulls : (I.combineNulls a.null b.null = true) ↔ a.null = true ∨ b.null = true := by
    unfold combineNulls
    rw [hp]
    simp
  simp only [hnulls, getCells_null ha, getCells_null hb, List.mem_cons, List.not_mem_nil, or_false,
    exists_eq_or_imp, exists_eq_left]

theorem exists_of_shape {p : Payload F} (h : p.shape = some n) : ∃ cs, p = .vector cs ∧ cs.length = n := by
  cases p with
  | scalar _ => cases h
  | nullScalar => cases h
  | vector cs => exact ⟨cs, rfl, Option.some.inj h⟩

theorem Common.lengths {l r : Payload F} (h : Common l r n) :
    (∀ cs, Payload.vector cs ∈ [l, r] → cs.length = n) ∧ ∃ cs, Payload.vector cs ∈ [l, r] ∧ cs.length = n := by
  have hlen : ∀ {p : Payload F}, p.shape = none ∨ p.shape = some n → ∀ cs, p = .vector cs → cs.length = n := by
    rintro _ (hp | hp) cs rfl
    · cases hp
    · exact Option.some.inj hp
  constructor
  · intro cs hcs
    rcases List.mem_pair.mp hcs with hl | hr
    · exact hlen h.left cs hl.symm
    · exact hlen h.right cs hr.symm
  · rcases h.vector with hl | hr
    · obtain ⟨cs, rfl, hcs⟩ := exists_of_shape hl
      exact ⟨cs, List.mem_cons_self, hcs⟩
    · obtain ⟨cs, rfl, hcs⟩ := exists_of_shape hr
      exact ⟨cs, List.mem_cons_of_mem _ List.mem_cons_self, hcs⟩

theorem mapNonNull_spread (hp : I.options.nullPolicy = .propagate)
    (h : Common l.payload r.payload n) (op : F → F → F) :
    Spread [l.payload, r.payload] (I.mapNonNull op (I.pairUp l r n)) := by
  have hlen : (I.mapNonNull op (I.pairUp l r n)).length = n := by
    rw [mapNonNull, List.length_map, pairUp_length h]
  obtain ⟨hall, cs, hcs, hcsn⟩ := h.lengths
  refine Spread.of_lengths (fun cs hcs => ?_) ⟨cs, hcs, ?_⟩ (fun i c hc => ?_)
  · rw [hlen]
    exact .inl (hall cs hcs)
  · rw [hlen]
    exact hcsn
  · rw [mapNonNull, List.getElem?_map, Option.map_eq_some_iff] at hc
    obtain ⟨p, hpi, rfl⟩ := hc
    rw [← pairUp_null hp hpi]
    cases p.2 <;> simp

theorem scalarNulls_pair {l r p : Payload F} (hl : l.isVector = false) (hr : r.isVector = false)
    (hp : p.isVector = false) (hnull : p.isNullScalar = (l.isNullScalar || r.isNullScalar)) :
    ScalarNulls [l, r] p where
  scalars q hq := by
    rcases List.mem_pair.mp hq with rfl | rfl
    · exact hl
    · exact hr
  scalar := hp
  null := by
    rw [hnull, Bool.or_eq_true]
    simp

theorem applyBinop_nulls (hp : I.options.nullPolicy = .propagate) {op : Binop F} {v : EvalValue F}
    {shape : Shape} (hshape : broadcast l r = .ok shape)
    (h : I.applyBinop op l r shape unit = .ok v) : Nulls false [l.payload, r.payload] v.payload := by
  cases shape with
  | some n =>
    obtain ⟨_, _, h⟩ := bind_ok_iff.mp (show I.vectorBinop op l r n unit = .ok v from h)
    obtain ⟨_, _, h⟩ := bind_ok_iff.mp h
    obtain ⟨_, _, h⟩ := bind_ok_iff.mp h
    cases h
    exact .vector (mapNonNull_spread hp (broadcast_some hshape) op.vector)
  | none =>
    obtain ⟨hlv, hrv⟩ := broadcast_none hshape
    unfold applyBinop at h
    cases hl : l.payload with
    | vector _ => rw [hl] at hlv; cases hlv
    | nullScalar =>
      rw [hl] at h
      cases h
      exact .scalar rfl (scalarNulls_pair rfl hrv rfl rfl)
    | scalar a =>
      rw [hl] at h
      cases hr : r.payload with
      | vector _ => rw [hr] at hrv; cases hrv
      | nullScalar =>
        rw [hr] at h
        cases h
        exact .scalar rfl (scalarNulls_pair rfl rfl rfl rfl)
      | scalar b =>
        rw [hr] at h
        obtain ⟨_, _, h⟩ := bind_ok_iff.mp (show I.scalarBinop op a b unit = .ok v from h)
        obtain ⟨_, _, h⟩ := bind_ok_iff.mp h
        obtain ⟨_, _, h⟩ := bind_ok_iff.mp h
        obtain ⟨_, _, h⟩ := bind_ok_iff.mp h
        cases h
        exact .scalar rfl (scalarNulls_pair rfl rfl rfl rfl)

theorem visitBinop_ok {op : BinOp} {exponent : Option Nat} (h : I.visitBinop op l r exponent = .ok v) :
    ∃ shape o unit, broadcast l r = .ok shape ∧ I.applyBinop o l r shape unit = .ok v.1 := by
  obtain ⟨_, _, h⟩ := bind_ok_iff.mp h
  obtain ⟨_, _, h⟩ := bind_ok_iff.mp h
  cases op with
  | add | sub =>
    obtain ⟨shape, hshape, h⟩ := bind_ok_iff.mp h
    obtain ⟨⟨unit, w⟩, _, h⟩ := bind_ok_iff.mp h
    obtain ⟨u, hu, h⟩ := bind_ok_iff.mp h
    cases h
    exact ⟨shape, _, unit, hshape, hu⟩
  | mult | div =>
    obtain ⟨shape, hshape, h⟩ := bind_ok_iff.mp h
    obtain ⟨u, hu, h⟩ := bind_ok_iff.mp h
    cases h
    exact ⟨shape, _, _, hshape, hu⟩
  | pow =>
    obtain ⟨shape, hshape, h⟩ := bind_ok_iff.mp h
    obtain ⟨_, _, h⟩ := bind_ok_iff.mp h
    obtain ⟨⟨unit, w⟩, _, h⟩ := bind_ok_iff.mp h
    obtain ⟨u, hu, h⟩ := bind_ok_iff.mp h
    cases h
    exact ⟨shape, _, unit, hshape, hu⟩
  | mod =>
    obtain ⟨shape, hshape, h⟩ := bind_ok_iff.mp h
    obtain ⟨⟨unit, w⟩, _, h⟩ := bind_ok_iff.mp h
    obtain ⟨u, hu, h⟩ := bind_ok_iff.mp h
    cases h
    exact ⟨shape, _, _, hshape, hu⟩
  | other type => cases h

theorem visitBinop_nulls (hp : I.options.nullPolicy = .propagate) {op : BinOp}
    {exponent : Option Nat} (h : I.visitBinop op l r exponent = .ok v) :
    Nulls false [l.payload, r.payload] v.1.payload := by
  obtain ⟨shape, o, unit, hshape, hv⟩ := visitBinop_ok h
  exact applyBinop_nulls hp hshape hv

theorem applyCompare_none (test : F → F → Bool) (l r : EvalValue F) :
    ∃ x, I.applyCompare test l r none = .conditionVal (.scalar x) := by
  unfold applyCompare
  cases l.payload with
  | vector _ | nullScalar => exact ⟨_, rfl⟩
  | scalar _ => cases r.payload <;> exact ⟨_, rfl⟩

theorem visitCompare_nulls (hp : I.options.nullPolicy = .propagate) {op : CmpOp} (h : I.visitCompare op l r = .ok v) :
    Nulls true [l.payload, r.payload] v.1.payload := by
  obtain ⟨_, _, h⟩ := bind_ok_iff.mp h
  obtain ⟨_, _, h⟩ := bind_ok_iff.mp h
  obtain ⟨test, _, h⟩ := bind_ok_iff.mp h
  obtain ⟨shape, hshape, h⟩ := bind_ok_iff.mp h
  cases h
  cases shape with
  | some n => exact .vector (mapNonNull_spread hp (broadcast_some hshape) _)
  | none =>
    obtain ⟨hlv, hrv⟩ := broadcast_none hshape
    obtain ⟨x, hx⟩ := applyCompare_none (I := I) test l r
    rw [hx]
    refine .condition rfl (fun p hpm => ?_)
    rcases List.mem_pair.mp hpm with rfl | rfl
    · exact hlv
    · exact hrv

/-! ## Functions of one operand -/

/-- A result with the nulls of one operand. -/
inductive SameNulls : Payload F → Payload F → Prop where
  | scalar {v u} : SameNulls (.scalar v) (.scalar u)
  | nullScalar : SameNulls .nullScalar .nullScalar
  | vector {cells cells'} : cells'.map Cell.null = cells.map Cell.null →
      SameNulls (.vector cells) (.vector cells')

theorem SameNulls.nulls {x r : Payload F} (h : SameNulls x r) {ps : List (Payload F)}
    (hps : ∀ p ∈ ps, ∃ v, p = .scalar v) : Nulls false (x :: ps) r := by
  have hscalars : ∀ p ∈ ps, p.isVector = false := by
    intro p hp
    obtain ⟨v, rfl⟩ := hps p hp
    rfl
  have hnumbers : ¬ ∃ p ∈ ps, p.isNullScalar = true := by
    rintro ⟨p, hp, hnull⟩
    obtain ⟨v, rfl⟩ := hps p hp
    cases hnull
  cases h with
  | scalar => exact .scalar rfl ⟨List.forall_mem_cons.mpr ⟨rfl, hscalars⟩, rfl,
      by simpa [Payload.isNullScalar] using hnumbers⟩
  | nullScalar => exact .scalar rfl ⟨List.forall_mem_cons.mpr ⟨rfl, hscalars⟩, rfl,
      by simp [Payload.isNullScalar]⟩
  | @vector cells cells' hmap =>
    have hlen : cells'.length = cells.length := by
      simpa only [List.length_map] using congrArg List.length hmap
    refine .vector (Spread.of_lengths (fun cs hcs => .inl ?_) ⟨cells, List.mem_cons_self, hlen.symm⟩
      (fun i c hc => ?_))
    · rcases List.mem_cons.mp hcs with heq | hmem
      · cases heq
        exact hlen.symm
      · exact absurd (hscalars _ hmem) (by simp [Payload.isVector])
    · have hnull : (cells.map Cell.null)[i]? = some c.null := by
        rw [← hmap, List.getElem?_map, hc]
        rfl
      rw [List.getElem?_map, Option.map_eq_some_iff] at hnull
      obtain ⟨d, hd, hdc⟩ := hnull
      rw [← hdc, ← Payload.nullAt_vector hd]
      constructor
      · exact fun hi => ⟨_, List.mem_cons_self, rfl, hi⟩
      · rintro ⟨p, hp, hvec, hpi⟩
        rcases List.mem_cons.mp hp with rfl | hp
        · exact hpi
        · rw [hscalars p hp] at hvec
          cases hvec

theorem mapCells_null (hp : I.options.nullPolicy = .propagate) (f : F → F) (cells : List (Cell F)) :
    (I.mapCells f cells).map Cell.null = cells.map Cell.null := by
  rw [mapCells, List.map_map]
  refine List.map_congr_left fun c _ => ?_
  show (if I.nullOf c then (⟨I.arith.zero, true⟩ : Cell F) else ⟨f c.value, false⟩).null = c.null
  unfold nullOf
  rw [hp]
  cases c.null <;> rfl

theorem negate_nulls {v : EvalValue F} (h : I.negate x = .ok v) : SameNulls x.payload v.payload := by
  unfold negate at h
  split at h
  · cases h
  · cases hx : x.payload with
    | scalar _ =>
      rw [hx] at h
      cases h
      exact .scalar
    | nullScalar =>
      rw [hx] at h
      cases h
      exact .nullScalar
    | vector cells =>
      rw [hx] at h
      cases h
      refine .vector ?_
      rw [List.map_map]
      refine List.map_congr_left fun c _ => ?_
      show (if c.null then c else { c with value := I.arith.neg c.value }).null = c.null
      split <;> rfl

theorem SameNulls.refl (p : Payload F) : SameNulls p p := by
  cases p with
  | scalar _ => exact .scalar
  | nullScalar => exact .nullScalar
  | vector _ => exact .vector rfl

theorem elementwiseUnary_nulls (hp : I.options.nullPolicy = .propagate)
    {v : EvalValue F} (h : I.elementwiseUnary f x unit = .ok v) : SameNulls x.payload v.payload := by
  unfold elementwiseUnary at h
  cases hx : x.payload with
  | scalar _ =>
    rw [hx] at h
    obtain ⟨_, _, h⟩ := bind_ok_iff.mp h
    obtain ⟨_, _, h⟩ := bind_ok_iff.mp h
    cases h
    exact .scalar
  | nullScalar =>
    rw [hx] at h
    cases h
    exact .nullScalar
  | vector cells =>
    rw [hx] at h
    obtain ⟨_, _, h⟩ := bind_ok_iff.mp h
    obtain ⟨_, _, h⟩ := bind_ok_iff.mp h
    cases h
    exact .vector (mapCells_null hp _ _)

theorem scalarArg_ok {val : EvalValue F} {message : String} {x : F} (h : scalarArg val message = .ok x) :
    val.payload = .scalar x := by
  unfold scalarArg at h
  cases hv : val.payload with
  | scalar v =>
    rw [hv] at h
    cases h
    rfl
  | nullScalar | vector _ => rw [hv] at h; cases h

theorem callRound_nulls (hp : I.options.nullPolicy = .propagate) {digits : EvalValue F}
    (h : I.callRound x digits = .ok v) : SameNulls x.payload v.1.payload ∧ ∃ d, digits.payload = .scalar d := by
  obtain ⟨d, hd, h⟩ := bind_ok_iff.mp h
  obtain ⟨_, _, h⟩ := bind_ok_iff.mp h
  obtain ⟨_, _, h⟩ := bind_ok_iff.mp h
  refine ⟨?_, d, scalarArg_ok hd⟩
  cases hx : x.payload with
  | scalar _ =>
    rw [hx] at h
    obtain ⟨_, _, h⟩ := bind_ok_iff.mp h
    cases h
    exact .scalar
  | nullScalar =>
    rw [hx] at h
    cases h
    exact .nullScalar
  | vector cells =>
    rw [hx] at h
    cases h
    exact .vector (mapCells_null hp _ _)

theorem callClip_nulls (hp : I.options.nullPolicy = .propagate) {low high : EvalValue F}
    (h : I.callClip x low high = .ok v) :
    SameNulls x.payload v.1.payload ∧ (∃ d, low.payload = .scalar d) ∧ ∃ d, high.payload = .scalar d := by
  obtain ⟨_, _, h⟩ := bind_ok_iff.mp h
  obtain ⟨_, _, h⟩ := bind_ok_iff.mp h
  obtain ⟨_, _, h⟩ := bind_ok_iff.mp h
  obtain ⟨_, _, h⟩ := bind_ok_iff.mp h
  obtain ⟨lowVal, hlow, h⟩ := bind_ok_iff.mp h
  obtain ⟨highVal, hhigh, h⟩ := bind_ok_iff.mp h
  obtain ⟨_, _, h⟩ := bind_ok_iff.mp h
  obtain ⟨⟨unit, w⟩, _, h⟩ := bind_ok_iff.mp h
  refine ⟨?_, ⟨lowVal, scalarArg_ok hlow⟩, highVal, scalarArg_ok hhigh⟩
  cases hx : x.payload with
  | scalar _ =>
    rw [hx] at h
    cases h
    exact .scalar
  | nullScalar =>
    rw [hx] at h
    cases h
    exact .nullScalar
  | vector cells =>
    rw [hx] at h
    obtain ⟨_, _, h⟩ := bind_ok_iff.mp h
    cases h
    exact .vector (mapCells_null hp _ _)

/-! ## Functions of several operands -/

theorem callAtan2_nulls (hp : I.options.nullPolicy = .propagate) {y : EvalValue F}
    (h : I.callAtan2 y x = .ok v) : Nulls false [y.payload, x.payload] v.1.payload := by
  obtain ⟨_, _, h⟩ := bind_ok_iff.mp h
  obtain ⟨_, _, h⟩ := bind_ok_iff.mp h
  obtain ⟨⟨unit, w⟩, _, h⟩ := bind_ok_iff.mp h
  obtain ⟨shape, hshape, h⟩ := bind_ok_iff.mp h
  obtain ⟨u, hu, h⟩ := bind_ok_iff.mp h
  cases h
  exact applyBinop_nulls hp hshape hu

theorem callMinMax_nulls (hp : I.options.nullPolicy = .propagate) {name : String}
    {scalar vector : F → F → F} (h : I.callMinMax a b name scalar vector = .ok v) :
    Nulls false [a.payload, b.payload] v.1.payload := by
  obtain ⟨_, _, h⟩ := bind_ok_iff.mp h
  obtain ⟨_, _, h⟩ := bind_ok_iff.mp h
  obtain ⟨⟨unit, w⟩, _, h⟩ := bind_ok_iff.mp h
  obtain ⟨shape, hshape, h⟩ := bind_ok_iff.mp h
  cases shape with
  | some n =>
    obtain ⟨_, _, h⟩ := bind_ok_iff.mp h
    cases h
    exact .vector (mapNonNull_spread hp (broadcast_some hshape) vector)
  | none =>
    obtain ⟨hav, hbv⟩ := broadcast_none hshape
    cases ha : a.payload with
    | vector _ => rw [ha] at hav; cases hav
    | nullScalar =>
      rw [ha] at h
      cases h
      exact .scalar rfl (scalarNulls_pair rfl hbv rfl rfl)
    | scalar x =>
      rw [ha] at h
      cases hb : b.payload with
      | vector _ => rw [hb] at hbv; cases hbv
      | nullScalar | scalar y =>
        rw [hb] at h
        cases h
        exact .scalar rfl (scalarNulls_pair rfl rfl rfl rfl)

theorem stretchLength_ok {k : Nat} (h : stretchLength n m = .ok k) :
    (n = k ∨ n = 1) ∧ (m = k ∨ m = 1) ∧ (k = n ∨ k = m) := by
  unfold stretchLength at h
  split at h
  · next heq =>
      cases h
      exact ⟨.inl rfl, .inl heq.symm, .inl rfl⟩
  · split at h
    · next hone =>
        cases h
        exact ⟨.inr hone, .inl rfl, .inr rfl⟩
    · split at h
      · next hone =>
          cases h
          exact ⟨.inl rfl, .inr hone, .inl rfl⟩
      · cases h

theorem stretch_length {cells : List (Cell F)} (h : cells.length = m ∨ cells.length = 1) :
    (stretch cells m).length = m := by
  match cells with
  | [] => exact h.resolve_right Nat.zero_ne_one
  | [c] => exact List.length_replicate
  | _ :: _ :: _ => exact h.resolve_right (by simp)

theorem stretch_cellAt {cells : List (Cell F)} (h : (stretch cells m)[i]? = some c) : cellAt cells i = some c := by
  match cells with
  | [] => exact h
  | [d] =>
    rw [List.eq_of_mem_replicate (List.mem_of_getElem? h)]
    rfl
  | _ :: _ :: _ => exact h

theorem mem_of_cellAt {cells : List (Cell F)} (h : cellAt cells i = some c) : c ∈ cells := by
  match cells with
  | [] => cases h
  | [d] =>
    cases h
    exact List.mem_cons_self
  | _ :: _ :: _ => exact List.mem_of_getElem? h

theorem getCells_scalar {v : EvalValue F} (hv : v.payload.isVector = false)
    (h : c ∈ I.getCells v n) : c.null = false := by
  unfold getCells at h
  cases hp : v.payload with
  | vector _ => rw [hp] at hv; cases hv
  | scalar x | nullScalar =>
    rw [hp] at h
    rw [List.eq_of_mem_replicate h]

theorem stretch_null {v : EvalValue F} (h : (stretch (I.getCells v n) m)[i]? = some c) :
    c.null = true ↔ v.payload.isVector = true ∧ v.payload.nullAt i = true := by
  have hc := stretch_cellAt h
  cases hv : v.payload.isVector with
  | false =>
    rw [getCells_scalar hv (mem_of_cellAt hc)]
    simp
  | true =>
    cases hp : v.payload with
    | scalar _ | nullScalar => rw [hp] at hv; cases hv
    | vector cells =>
      have hcells : I.getCells v n = cells := by
        unfold getCells
        rw [hp]
      rw [hcells] at hc
      show _ ↔ true = true ∧ (cellAt cells i).any Cell.null = true
      rw [hc]
      simp

theorem whereCells_null (hp : I.options.nullPolicy = .propagate)
    {d : Cell F} (h : (I.whereCells (I.getCells cond n) (I.getCells a n) (I.getCells b n) m)[i]? = some d) :
    d.null = true ↔ ∃ p ∈ [cond.payload, a.payload, b.payload], p.isVector = true ∧ p.nullAt i = true := by
  obtain ⟨c, ⟨x, y⟩, hc, hxy, rfl⟩ := List.getElem?_zipWith_eq_some.mp h
  obtain ⟨hx, hy⟩ := List.getElem?_zip_eq_some.mp hxy
  have hnulls : (I.whereCell c x y).null = true ↔ (c.null = true ∨ x.null = true) ∨ y.null = true := by
    unfold whereCell
    rw [hp]
    simp
  simp only [hnulls, stretch_null hc, stretch_null hx, stretch_null hy, List.mem_cons, List.not_mem_nil,
    or_false, exists_eq_or_imp, exists_eq_left, or_assoc]

/-- The arrays of `where` have the length of the result, or are stretched to it. -/
theorem whereVector_nulls (hp : I.options.nullPolicy = .propagate) {v : EvalValue F}
    (hn : ∃ cs, Payload.vector cs ∈ [cond.payload, a.payload, b.payload] ∧ cs.length = n)
    (h : I.whereVector cond a b n unit = .ok v) : Nulls false [cond.payload, a.payload, b.payload] v.payload := by
  obtain ⟨m, hm, h⟩ := bind_ok_iff.mp h
  obtain ⟨k, hk, h⟩ := bind_ok_iff.mp h
  unfold whereResult at h
  rw [hp] at h
  obtain ⟨_, _, h⟩ := bind_ok_iff.mp h
  cases h
  obtain ⟨hc, ha, hmc⟩ := stretchLength_ok hm
  obtain ⟨hmk, hb, hkm⟩ := stretchLength_ok hk
  -- every array has the length of the result or length one
  have hcond : (I.getCells cond n).length = k ∨ (I.getCells cond n).length = 1 := by omega
  have hleft : (I.getCells a n).length = k ∨ (I.getCells a n).length = 1 := by omega
  have hlen : (I.whereCells (I.getCells cond n) (I.getCells a n) (I.getCells b n) k).length = k := by
    rw [whereCells, List.length_zipWith, List.length_zip, stretch_length hcond, stretch_length hleft,
      stretch_length hb, Nat.min_self, Nat.min_self]
  have hvector : ∀ {w : EvalValue F} {cs : List (Cell F)}, w.payload = .vector cs →
      (I.getCells w n).length = cs.length := by
    intro w cs hw
    unfold getCells
    rw [hw]
  -- an array that is no vector has the length `n` of one
  have hsome : ∀ {w : EvalValue F}, w.payload ∈ [cond.payload, a.payload, b.payload] →
      (I.getCells w n).length = k →
      ∃ cs, Payload.vector cs ∈ [cond.payload, a.payload, b.payload] ∧ cs.length = k := by
    intro w hw hwk
    cases hp : w.payload with
    | vector cs => exact ⟨cs, hp ▸ hw, hvector hp ▸ hwk⟩
    | scalar x | nullScalar =>
      rw [getCells_length (.inl (by rw [hp]; rfl))] at hwk
      exact hwk ▸ hn
  refine .vector (Spread.of_lengths ?_ ?_ ?_)
  · intro cs hcs
    rw [List.length_map, hlen]
    simp only [List.mem_cons, List.not_mem_nil, or_false] at hcs
    rcases hcs with hw | hw | hw <;> have hlw := hvector hw.symm <;> omega
  · rw [List.length_map, hlen]
    rcases hkm with hkm | hkb
    · rcases hmc with hmc | hma
      · exact hsome (w := cond) (by simp) (by omega)
      · exact hsome (w := a) (by simp) (by omega)
    · exact hsome (w := b) (by simp) (by omega)
  · intro i d hd
    rw [List.getElem?_map, Option.map_eq_some_iff] at hd
    obtain ⟨d', hd', rfl⟩ := hd
    show d'.null = true ↔ _
    exact whereCells_null hp hd'

theorem whereScalars_nulls (hc : cond.payload.isVector = false)
    (ha : a.payload.isVector = false) (hb : b.payload.isVector = false) :
    ScalarNulls [cond.payload, a.payload, b.payload] (I.whereScalars cond a b unit).payload := by
  refine ⟨by simp [hc, ha, hb], ?_, ?_⟩
  all_goals
    unfold whereScalars
    generalize cond.payload = p at hc ⊢
    generalize a.payload = q at ha ⊢
    generalize b.payload = r at hb ⊢
    cases p with
    | vector _ => cases hc
    | nullScalar => simp [EvalValue.nullScalar, Payload.isVector, Payload.isNullScalar]
    | scalar _ =>
      cases q with
      | vector _ => cases ha
      | nullScalar => simp [EvalValue.nullScalar, Payload.isVector, Payload.isNullScalar]
      | scalar _ =>
        cases r with
        | vector _ => cases hb
        | nullScalar => simp [EvalValue.nullScalar, Payload.isVector, Payload.isNullScalar]
        | scalar _ => simp [EvalValue.scalarVal, Payload.isVector, Payload.isNullScalar]

theorem applyWhere_nulls (hp : I.options.nullPolicy = .propagate) {v : EvalValue F}
    (h : I.applyWhere cond a b unit = .ok v) : Nulls false [cond.payload, a.payload, b.payload] v.payload := by
  unfold applyWhere at h
  split at h
  · next hc ha hb =>
    rw [← isVector_eq_false_iff] at hc ha hb
    cases h
    exact .scalar rfl (whereScalars_nulls hc ha hb)
  · next hnot =>
    obtain ⟨shape, hshape, h⟩ := bind_ok_iff.mp h
    refine whereVector_nulls hp ?_ h
    -- the length is that of the condition, or else that of the branches
    cases hcond : cond.payload.shape with
    | some n =>
      obtain ⟨cs, hcs, hlen⟩ := exists_of_shape hcond
      exact ⟨cs, hcs ▸ List.mem_cons_self, hlen⟩
    | none =>
      cases shape with
      | some n =>
        obtain ⟨_, cs, hcs, hlen⟩ := (broadcast_some hshape).lengths
        exact ⟨cs, List.mem_cons_of_mem _ hcs, hlen⟩
      | none =>
        obtain ⟨ha, hb⟩ := broadcast_none hshape
        rw [isVector_eq_false_iff] at ha hb
        exact absurd hb (hnot hcond ha)

theorem callWhere_nulls (hp : I.options.nullPolicy = .propagate) (h : I.callWhere cond a b = .ok v) :
    Nulls false [cond.payload, a.payload, b.payload] v.1.payload := by
  obtain ⟨_, _, h⟩ := bind_ok_iff.mp h
  obtain ⟨_, _, h⟩ := bind_ok_iff.mp h
  obtain ⟨_, _, h⟩ := bind_ok_iff.mp h
  obtain ⟨⟨unit, w⟩, _, h⟩ := bind_ok_iff.mp h
  obtain ⟨u, hu, h⟩ := bind_ok_iff.mp h
  cases h
  exact applyWhere_nulls hp hu

/-! ## Nodes -/

theorem keepUnit_nulls (hp : I.options.nullPolicy = .propagate)
    (h : I.keepUnit f x = .ok v) : SameNulls x.payload v.1.payload := by
  obtain ⟨u, hu, h⟩ := bind_ok_iff.mp h
  cases h
  exact elementwiseUnary_nulls hp hu

theorem dimensionless_nulls (hp : I.options.nullPolicy = .propagate)
    (h : I.dimensionless f x = .ok v) : SameNulls x.payload v.1.payload := by
  obtain ⟨w, _, h⟩ := bind_ok_iff.mp h
  obtain ⟨u, hu, h⟩ := bind_ok_iff.mp h
  cases h
  exact elementwiseUnary_nulls hp hu

theorem angle_nulls (hp : I.options.nullPolicy = .propagate)
    (h : I.angle f x = .ok v) : SameNulls x.payload v.1.payload := by
  obtain ⟨⟨unit, w⟩, _, h⟩ := bind_ok_iff.mp h
  obtain ⟨u, hu, h⟩ := bind_ok_iff.mp h
  cases h
  exact elementwiseUnary_nulls hp hu

theorem callSqrt_nulls (hp : I.options.nullPolicy = .propagate)
    (h : I.callSqrt x = .ok v) : SameNulls x.payload v.1.payload := by
  obtain ⟨u, hu, h⟩ := bind_ok_iff.mp h
  cases h
  exact elementwiseUnary_nulls hp hu

theorem callElementwise_nulls (hp : I.options.nullPolicy = .propagate) {func : Func}
    {args : List (EvalValue F)} (hlo : func.expectedArgs.1 ≤ args.length)
    (hhi : args.length ≤ func.expectedArgs.2) (h : I.callElementwise func args = .ok v) :
    Nulls false (args.map EvalValue.payload) v.1.payload := by
  have hnone : ∀ p ∈ ([] : List (Payload F)), ∃ v, p = .scalar v := List.forall_mem_nil _
  cases func
  case atan2 =>
    obtain ⟨y, x, rfl⟩ := two_arguments hhi hlo
    exact callAtan2_nulls hp h
  case round =>
    obtain ⟨x, digits, rfl⟩ := two_arguments hhi hlo
    obtain ⟨_, _, h⟩ := bind_ok_iff.mp h
    obtain ⟨hx, hdigits⟩ := callRound_nulls hp h
    refine hx.nulls (fun p hp => ?_)
    rw [List.mem_singleton.mp hp]
    exact hdigits
  case abs | floor | ceil =>
    obtain ⟨x, rfl⟩ := one_argument hhi hlo
    obtain ⟨_, _, h⟩ := bind_ok_iff.mp h
    exact (keepUnit_nulls hp h).nulls hnone
  case sqrt =>
    obtain ⟨x, rfl⟩ := one_argument hhi hlo
    obtain ⟨_, _, h⟩ := bind_ok_iff.mp h
    exact (callSqrt_nulls hp h).nulls hnone
  case exp | log | log10 | sin | cos | tan =>
    obtain ⟨x, rfl⟩ := one_argument hhi hlo
    obtain ⟨_, _, h⟩ := bind_ok_iff.mp h
    exact (dimensionless_nulls hp h).nulls hnone
  case asin | acos | atan =>
    obtain ⟨x, rfl⟩ := one_argument hhi hlo
    obtain ⟨_, _, h⟩ := bind_ok_iff.mp h
    exact (angle_nulls hp h).nulls hnone
  all_goals cases h

theorem callSelect_nulls (hp : I.options.nullPolicy = .propagate) {func : Func} {args : List (EvalValue F)}
    (hlo : func.expectedArgs.1 ≤ args.length) (hhi : args.length ≤ func.expectedArgs.2)
    (h : I.callSelect func args = .ok v) : Nulls false (args.map EvalValue.payload) v.1.payload := by
  cases func
  case minimum | maximum =>
    obtain ⟨a, b, rfl⟩ := two_arguments hhi hlo
    exact callMinMax_nulls hp h
  case clip =>
    obtain ⟨x, low, high, rfl⟩ := List.length_eq_three.mp (show args.length = 3 from Nat.le_antisymm hhi hlo)
    obtain ⟨hx, hlow, hhigh⟩ := callClip_nulls hp h
    refine hx.nulls (fun p hp => ?_)
    rcases List.mem_pair.mp hp with rfl | rfl
    · exact hlow
    · exact hhigh
  case where_ =>
    obtain ⟨c, a, b, rfl⟩ := List.length_eq_three.mp (show args.length = 3 from Nat.le_antisymm hhi hlo)
    exact callWhere_nulls hp h
  all_goals cases h

end Interpreter

/-- The nodes that combine their operands position by position: signs, operators, comparisons, and calls of
elementwise and selecting functions. -/
def Expr.combines : Expr F → Bool
  | .unaryOp _ _ => true
  | .binOp _ _ _ => true
  | .compare _ _ _ _ => true
  | .call func _ _ => (Func.ofName func).any (fun f => f.isElementwise || f.isSelect)
  | _ => false

/-- A comparison. -/
def Expr.isCompare : Expr F → Bool
  | .compare _ _ _ _ => true
  | _ => false

theorem visit_nulls {I : Interpreter F} (hp : I.options.nullPolicy = .propagate) {s : Expr F}
    {vs : List (EvalValue F)} {v : Visited F} (hs : s.combines = true) (hvalid : s.Valid)
    (hlen : vs.length = s.operands.length) (h : I.visit s vs = .ok v) :
    Nulls s.isCompare (vs.map EvalValue.payload) v.1.payload := by
  cases s with
  | constant _ => cases hs
  | name _ => cases hs
  | callOther => cases hs
  | other _ => cases hs
  | unaryOp op operand =>
    obtain ⟨x, rfl⟩ := List.length_eq_one_iff.mp hlen
    have hnone : ∀ p ∈ ([] : List (Payload F)), ∃ v, p = .scalar v :=
      List.forall_mem_nil _
    cases op with
    | uAdd =>
      cases h
      exact (Interpreter.SameNulls.refl _).nulls hnone
    | uSub =>
      obtain ⟨u, hu, h⟩ := bind_ok_iff.mp (show (I.negate x >>= fun u => pure (u, [])) = .ok v from h)
      cases h
      exact (Interpreter.negate_nulls hu).nulls hnone
    | other _ => cases h
  | binOp left op right =>
    obtain ⟨l, r, rfl⟩ := List.length_eq_two.mp hlen
    exact Interpreter.visitBinop_nulls hp h
  | compare left op right more =>
    cases more with
    | cons _ _ =>
      rw [List.eq_nil_of_length_eq_zero hlen] at h
      cases h
    | nil =>
      obtain ⟨l, r, rfl⟩ := List.length_eq_two.mp hlen
      exact Interpreter.visitCompare_nulls hp h
  | call func args keywords =>
    obtain ⟨f, hf, hlo, hhi⟩ := hvalid
    have hlen' : vs.length = args.length := hlen
    rw [← hlen'] at hlo hhi
    have hcall : I.visitCall func vs args = .ok v := h
    have hkind : (f.isElementwise || f.isSelect) = true := by
      have hs' : (Func.ofName func).any (fun f => f.isElementwise || f.isSelect) = true := hs
      rwa [hf] at hs'
    cases he : f.isElementwise with
    | true =>
      rw [I.visitCall_elementwise hf he] at hcall
      exact Interpreter.callElementwise_nulls hp hlo hhi hcall
    | false =>
      rw [he, Bool.false_or] at hkind
      rw [I.visitCall_select hf he hkind] at hcall
      exact Interpreter.callSelect_nulls hp hlo hhi hcall

/-! ## Result -/

/-- **Nulls propagate unless a null scalar is lost.** At every combining node an interpretation comes to, a position
of the value is null exactly when an operand is null there, if and only if no null scalar meets vectors with a
common position that is null in none of them, and none is compared with a scalar. -/
theorem null_propagation_iff (isIdentifier : String → Bool) (I : Interpreter F)
    (hp : I.options.nullPolicy = .propagate) (e : Expr F) (he : validate isIdentifier I.limits e = .ok ())
    (s : Expr F) (vs : List (EvalValue F)) (hr : I.Reached e s vs) (hs : s.combines = true) (v : Visited F)
    (hv : I.visit s vs = .ok v) :
    NullsPropagate (vs.map EvalValue.payload) v.1.payload ↔
      ¬ LosesNull s.isCompare (vs.map EvalValue.payload) := by
  obtain ⟨hacc, hlen⟩ := (accepted_of_validate he).reached hr
  exact (visit_nulls hp hs hacc.valid hlen hv).iff

/-- Two series, `v` and `w`, with nulls that propagate. -/
def twoSeries (v w : List (Cell ℚ)) : Interpreter ℚ where
  arith := rational
  vars := [("v", ⟨"v", .vector v, some "1"⟩), ("w", ⟨"w", .vector w, some "1"⟩)]
  options := { nullPolicy := .propagate }
  limits := {}

/-- The sum of two series, one of which has a null. -/
theorem null_propagation_iff_sum :
    NullsPropagate [.vector [⟨1, false⟩, ⟨0, true⟩], .vector [⟨3, false⟩, ⟨4, false⟩]]
      (.vector [⟨(4 : ℚ), false⟩, ⟨0, true⟩]) := by
  have hops : (Expr.operands (.binOp (.name "v") .add (.name "w"))).mapM
      (twoSeries [⟨1, false⟩, ⟨0, true⟩] [⟨3, false⟩, ⟨4, false⟩]).interpret =
      .ok [(.vectorVal [⟨1, false⟩, ⟨0, true⟩] .dimensionless, []),
        (.vectorVal [⟨3, false⟩, ⟨4, false⟩] .dimensionless, [])] := rfl
  refine (null_propagation_iff (fun _ => true) _ rfl (.binOp (.name "v") .add (.name "w")) rfl _ _
    (.here hops) rfl (.vectorVal [⟨4, false⟩, ⟨0, true⟩] .dimensionless, [])
    (ok_of_toOption (by decide +kernel))).mpr ?_
  rintro ⟨⟨p, hp, hnull⟩, _⟩
  rcases List.mem_pair.mp hp with rfl | rfl <;> cases hnull

/-- **A null that is lost.** The mean of a series with a null is a null scalar; adding it to a series gives the
numbers of the series. -/
theorem mean_of_nulls_lost :
    ¬ ∀ (I : Interpreter ℚ) (e : Expr ℚ), I.options.nullPolicy = .propagate →
      validate (fun _ => true) I.limits e = .ok () →
      ∀ s vs v, I.Reached e s vs → s.combines = true → I.visit s vs = .ok v →
        NullsPropagate (vs.map EvalValue.payload) v.1.payload := by
  intro hall
  have hops : (Expr.operands (.binOp (.name "v") .add (.call "mean" [.name "w"] false))).mapM
      (twoSeries [⟨1, false⟩, ⟨2, false⟩] [⟨3, false⟩, ⟨0, true⟩]).interpret =
      .ok [(.vectorVal [⟨1, false⟩, ⟨2, false⟩] .dimensionless, []),
        (.nullScalar .dimensionless, [.nullInAggregate])] := rfl
  have hprop := hall _ (.binOp (.name "v") .add (.call "mean" [.name "w"] false)) rfl rfl _ _
    (.vectorVal [⟨1, false⟩, ⟨2, false⟩] .dimensionless, []) (.here hops) rfl
    (ok_of_toOption (by decide +kernel))
  have hnull := (hprop 0 (show 0 < 2 by decide)).mpr
    ⟨.nullScalar, List.mem_cons_of_mem _ List.mem_cons_self, rfl⟩
  exact Bool.false_ne_true hnull

end Irip.Numeric
