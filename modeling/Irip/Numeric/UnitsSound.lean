import Irip.Numeric.UnitRules

/-!
# `Numeric.UnitsSound` — whether unit labels denote dimensions

Units are sound when the labels can be read back.
-/

namespace Irip.Numeric

open Evaluation

variable {F : Type}

/-! ## The property -/

/-- A declared unit is a name. -/
def UnitTag.IsName (t : UnitTag) : Prop := ∀ label, t = .known label → Label.Plain label.toList

/-- The label can stand behind a `/`: the factors behind its first cancel. -/
def UnitTag.Divides (t : UnitTag) : Prop := ∀ label, t = .known label → headLabel label = readLabel label

/-- The label can stand before an exponent: what is before its last factor cancels. -/
def UnitTag.Powers (t : UnitTag) : Prop := ∀ label, t = .known label → leadLabel label = some 0

/-- The arguments of a function whose units are compared, out of something for each argument. -/
def Func.compared {α : Type} (func : Func) (xs : List α) : List (α × α) :=
  match func, xs with
  | .atan2, y :: x :: _ => [(y, x)]
  | .minimum, a :: b :: _ => [(a, b)]
  | .maximum, a :: b :: _ => [(a, b)]
  | .clip, x :: low :: high :: _ => [(x, low), (x, high)]
  | .where_, _ :: a :: b :: _ => [(a, b)]
  | _, _ => []

/-- The operands of a node whose units are compared. -/
def Expr.compared {α : Type} (e : Expr F) (xs : List α) : List (α × α) :=
  match e, xs with
  | .binOp _ .add _, [l, r] => [(l, r)]
  | .binOp _ .sub _, [l, r] => [(l, r)]
  | .binOp _ .mod _, [l, r] => [(l, r)]
  | .call func _ _, xs => ((Func.ofName func).map (Func.compared · xs)).getD []
  | _, _ => []

/-- Units are sound in an evaluation that gives `r`: operands whose units are compared and known have one dimension,
the unit of every value on the way is the dimension of its node, and the label handed out is the dimension of
the expression. -/
structure UnitsSound (I : Interpreter F) (e : Expr F) (r : NumericValue F) : Prop where
  agree : ∀ s vs, I.Reached e s vs →
    ∀ p ∈ s.compared ((vs.map EvalValue.unit).zip (s.operands.map I.dim)),
      p.1.1.isKnown = true → p.2.1.isKnown = true → p.1.2 = p.2.2
  denotes : ∀ s vs v w, I.Reached e s vs → I.visit s vs = .ok (v, w) → v.unit.Denotes (I.dim s)
  returned : ∀ label, r.unit = some label → readLabel label = some (I.dim e)

/-- The labels of a node are written so that they can be read back: a variable has a name as its unit, a divisor that
is not equal to the dividend can stand behind a `/`, and a base before its exponent. -/
def Interpreter.LabelsOk (I : Interpreter F) (e : Expr F) (ts : List UnitTag) : Prop :=
  match e, ts with
  | .name id, _ => isConstantName id = false → ∀ var, I.vars.lookup id = some var →
      (UnitTag.fromUnitString var.unit).IsName
  | .binOp _ .div _, [l, r] => l ≠ r → r.Divides
  | .binOp _ .pow right, [l, _] => ∀ n, right.intLiteral = some (n + 2) → l.Powers
  | .call func _ _, t :: _ => Func.ofName func = some .var → t.Powers
  | _, _ => True

/-! ## Nodes -/

variable {d : Dim} {t : UnitTag}

theorem UnitTag.Denotes.unique {d' : Dim} (ht : t.isKnown = true) (h : t.Denotes d) (h' : t.Denotes d') : d = d' := by
  cases t with
  | known label => exact Option.some.inj (h.symm.trans h')
  | dimensionless => exact h.trans h'.symm
  | unknown => cases ht

theorem angleTag_denotes (angle : AngleUnit) : (angleTag angle).Denotes (angleTag angle).ownDim := by
  cases angle with
  | degree | radian => exact readLabel_own_iff.mpr (by decide)

theorem ownDim_denotes_iff (t : UnitTag) : t.Denotes t.ownDim ↔ t.IsName := by
  cases t with
  | known label =>
    refine readLabel_own_iff.trans ⟨?_, fun h => h label rfl⟩
    rintro h _ ⟨⟩
    exact h
  | dimensionless => exact ⟨fun _ _ h => (by cases h), fun _ => rfl⟩
  | unknown => exact ⟨fun _ _ h => (by cases h), fun _ => trivial⟩

theorem mult_denotes {l r : UnitTag} {a b : Dim} (hl : l.isKnown = true) (hr : r.isKnown = true)
    (ha : l.Denotes a) (hb : r.Denotes b) : (combineMultiplication l r).1.Denotes (a + b) := by
  cases l with
  | unknown => cases hl
  | dimensionless =>
    obtain rfl : a = 0 := ha
    rw [zero_add]
    cases r with
    | unknown => cases hr
    | dimensionless => exact hb
    | known _ => exact hb
  | known label =>
    cases r with
    | unknown => cases hr
    | dimensionless =>
      obtain rfl : b = 0 := hb
      rw [add_zero]
      exact ha
    | known divisor => exact readLabel_mul ha hb

theorem div_denotes_iff {l r : UnitTag} {a b : Dim} (hl : l.isKnown = true) (hr : r.isKnown = true)
    (ha : l.Denotes a) (hb : r.Denotes b) :
    (combineDivision l r).1.Denotes (a - b) ↔ (l ≠ r → r.Divides) := by
  cases r with
  | unknown => cases hr
  | dimensionless =>
    obtain rfl : b = 0 := hb
    have hdiv : UnitTag.dimensionless.Divides := fun _ h => by cases h
    refine iff_of_true ?_ (fun _ => hdiv)
    rw [sub_zero]
    cases l with
    | unknown => cases hl
    | dimensionless => exact ha
    | known _ => exact ha
  | known divisor =>
    have hdiv : (UnitTag.known divisor).Divides ↔ headLabel divisor = readLabel divisor := by
      refine ⟨fun h => h divisor rfl, ?_⟩
      rintro h _ ⟨⟩
      exact h
    cases l with
    | unknown => cases hl
    | dimensionless =>
      obtain rfl : a = 0 := ha
      have hne : UnitTag.dimensionless ≠ .known divisor := fun h => by cases h
      refine (readLabel_one_div_iff hb).trans (hdiv.symm.trans ⟨fun h _ => h, fun h => h hne⟩)
    | known label =>
      by_cases heq : label = divisor
      · -- equal units cancel, whatever they are
        subst heq
        have hsame : combineDivision (.known label) (.known label) = (.dimensionless, []) := if_pos rfl
        obtain rfl : a = b := Option.some.inj (ha.symm.trans hb)
        rw [hsame, sub_self]
        exact iff_of_true rfl (fun h => absurd rfl h)
      · have hne : UnitTag.known label ≠ .known divisor := fun h => heq (UnitTag.known.inj h)
        have hquot : combineDivision (.known label) (.known divisor) = (.known s!"{label}/{divisor}", []) :=
          if_neg heq
        rw [hquot]
        exact (readLabel_div_iff ha hb).trans (hdiv.symm.trans ⟨fun h _ => h, fun h => h hne⟩)

theorem powers_iff {label : String} : (UnitTag.known label).Powers ↔ leadLabel label = some 0 := by
  refine ⟨fun h => h label rfl, ?_⟩
  rintro h _ ⟨⟩
  exact h

theorem sqrt_denotes (ht : t.isKnown = true) (h : t.Denotes d) : (propagateSqrt t).1.Denotes ((1 / 2 : ℚ) • d) := by
  cases t with
  | unknown => cases ht
  | dimensionless =>
    obtain rfl : d = 0 := h
    exact smul_zero _
  | known label => exact readLabel_sqrt h

theorem variance_denotes_iff (h : t.Denotes d) : (propagateVariance t).Denotes (2 • d) ↔ t.Powers := by
  cases t with
  | unknown => exact ⟨fun _ _ h => (by cases h), fun _ => trivial⟩
  | dimensionless =>
    obtain rfl : d = 0 := h
    exact ⟨fun _ _ h => (by cases h), fun _ => nsmul_zero 2⟩
  | known label => exact (readLabel_square_iff h).trans powers_iff.symm

theorem callDim_keeps {angle : AngleUnit} {f : Func} {ds : List Dim} (hf : f.keepsUnit = true) :
    callDim angle f (d :: ds) = d := by
  cases f <;> first | rfl | exact absurd hf (by decide)

theorem callDim_number {angle : AngleUnit} {f : Func} {ds : List Dim} (hf : f.ofNumber = true) :
    callDim angle f (d :: ds) = 0 := by
  cases f <;> first | rfl | exact absurd hf (by decide)

theorem callDim_inverseTrig {angle : AngleUnit} {f : Func} {ds : List Dim} (hf : f.isInverseTrig = true) :
    callDim angle f ds = (angleTag angle).ownDim := by
  cases f <;> first | rfl | exact absurd hf (by decide)

namespace UnitRule

variable {I : Interpreter F}

variable {keywords : Bool} {args : List (Expr F)} {func : String}

theorem nodeDim_call {f : Func} (hf : Func.ofName func = some f)
    (ds : List Dim) : I.nodeDim (.call func args keywords) ds = callDim I.options.angleUnit f ds := by
  show ((Func.ofName func).map _).getD 0 = _
  rw [hf]
  rfl

theorem labelsOk_call {f : Func} (hf : Func.ofName func = some f) (hvar : f ≠ .var) (ts : List UnitTag) :
    I.LabelsOk (.call func args keywords) ts := by
  cases ts with
  | nil => trivial
  | cons t ts => exact fun h => absurd (Option.some.inj (hf.symm.trans h)) hvar

theorem denotes_pair {l r : UnitTag} {ds : List Dim} (h : List.Forall₂ UnitTag.Denotes [l, r] ds) :
    ∃ d d', ds = [d, d'] ∧ l.Denotes d ∧ r.Denotes d' := by
  obtain ⟨d, _, hd, h₁, rfl⟩ := List.forall₂_cons_left_iff.mp h
  obtain ⟨d', _, hd', h₂, rfl⟩ := List.forall₂_cons_left_iff.mp h₁
  cases h₂
  exact ⟨d, d', rfl, hd, hd'⟩

/-- **One node.** When the operands denote their dimensions, the result does exactly when the labels are written so
that they can be read back. -/
theorem denotes_iff {s : Expr F} {ts : List UnitTag} {t : UnitTag} {ds : List Dim} (h : UnitRule I s ts t)
    (hden : List.Forall₂ UnitTag.Denotes ts ds) : t.Denotes (I.nodeDim s ds) ↔ I.LabelsOk s ts := by
  cases h with
  | constant => exact iff_of_true rfl trivial
  | constantName hconst =>
    refine iff_of_true ?_ (fun h => absurd (hconst.symm.trans h) (by decide))
    exact if_pos hconst
  | @«variable» id var hconst hvar =>
    have hdim : I.nameDim id = (UnitTag.fromUnitString var.unit).ownDim := by
      unfold Interpreter.nameDim
      rw [hconst, hvar]
      rfl
    show (UnitTag.fromUnitString var.unit).Denotes (I.nameDim id) ↔ _
    rw [hdim, ownDim_denotes_iff]
    constructor
    · intro hname _ var' hvar'
      rw [hvar] at hvar'
      cases hvar'
      exact hname
    · exact fun h => h hconst var hvar
  | sign =>
    obtain ⟨d, _, hd, h, rfl⟩ := List.forall₂_cons_left_iff.mp hden
    cases h
    exact iff_of_true hd trivial
  | additive hop hknown =>
    obtain ⟨d, d', rfl, hd, hd'⟩ := denotes_pair hden
    rcases hop with rfl | rfl | rfl <;> exact iff_of_true hd trivial
  | mult hl hr =>
    obtain ⟨d, d', rfl, hd, hd'⟩ := denotes_pair hden
    exact iff_of_true (mult_denotes hl hr hd hd') trivial
  | div hl hr =>
    obtain ⟨d, d', rfl, hd, hd'⟩ := denotes_pair hden
    exact div_denotes_iff hl hr hd hd'
  | @powDimensionless left right =>
    obtain ⟨d, d', rfl, hd, hd'⟩ := denotes_pair hden
    obtain rfl : d = 0 := hd
    exact iff_of_true (nsmul_zero (right.intLiteral.getD 0)) (fun _ _ _ h => by cases h)
  | @powZero left right label hlit =>
    obtain ⟨d, d', rfl, hd, hd'⟩ := denotes_pair hden
    refine iff_of_true ?_ (fun n h => ?_)
    · show right.intLiteral.getD 0 • d = 0
      rw [hlit]
      exact zero_nsmul d
    · rw [hlit] at h
      cases h
  | @powOne left right label hlit =>
    obtain ⟨d, d', rfl, hd, hd'⟩ := denotes_pair hden
    refine iff_of_true ?_ (fun n h => ?_)
    · show (UnitTag.known label).Denotes (right.intLiteral.getD 0 • d)
      rw [hlit]
      exact (one_nsmul d).symm ▸ hd
    · rw [hlit] at h
      cases h
  | @pow left right label n hlit =>
    obtain ⟨d, d', rfl, hd, hd'⟩ := denotes_pair hden
    show (UnitTag.known s!"{label}^{n + 2}").Denotes (right.intLiteral.getD 0 • d) ↔
      ∀ m, right.intLiteral = some (m + 2) → (UnitTag.known label).Powers
    rw [hlit]
    refine (readLabel_pow_iff hd).trans (powers_iff.symm.trans ⟨fun h _ _ => h, fun h => h n rfl⟩)
  | compare => exact iff_of_true rfl trivial
  | keep hf hkeep =>
    obtain ⟨d, _, hd, _, rfl⟩ := List.forall₂_cons_left_iff.mp hden
    refine iff_of_true ?_ (labelsOk_call hf (fun h => by rw [h] at hkeep; cases hkeep) _)
    rw [nodeDim_call hf, callDim_keeps hkeep]
    exact hd
  | sqrt hf hknown =>
    obtain ⟨d, _, hd, _, rfl⟩ := List.forall₂_cons_left_iff.mp hden
    refine iff_of_true ?_ (labelsOk_call hf (by decide) _)
    rw [nodeDim_call hf]
    exact sqrt_denotes hknown hd
  | number hf hnum =>
    obtain ⟨d, _, hd, _, rfl⟩ := List.forall₂_cons_left_iff.mp hden
    refine iff_of_true ?_ (labelsOk_call hf (fun h => by rw [h] at hnum; cases hnum) _)
    rw [nodeDim_call hf]
    exact callDim_number hnum
  | inverseTrig hf htrig =>
    refine iff_of_true ?_ (labelsOk_call hf (fun h => by rw [h] at htrig; cases htrig) _)
    rw [nodeDim_call hf, callDim_inverseTrig htrig]
    exact angleTag_denotes _
  | atan2 hf _ =>
    obtain ⟨d, _, _, _, rfl⟩ := List.forall₂_cons_left_iff.mp hden
    refine iff_of_true ?_ (labelsOk_call hf (by decide) _)
    rw [nodeDim_call hf]
    exact angleTag_denotes _
  | extremum hf hext _ =>
    obtain ⟨d, _, hd, _, rfl⟩ := List.forall₂_cons_left_iff.mp hden
    refine iff_of_true ?_ (labelsOk_call hf (by rcases hext with rfl | rfl <;> decide) _)
    rw [nodeDim_call hf]
    rcases hext with rfl | rfl <;> exact hd
  | clip hf _ =>
    obtain ⟨d, _, hd, _, rfl⟩ := List.forall₂_cons_left_iff.mp hden
    refine iff_of_true ?_ (labelsOk_call hf (by decide) _)
    rw [nodeDim_call hf]
    exact hd
  | choice hf _ =>
    obtain ⟨_, _, _, h, rfl⟩ := List.forall₂_cons_left_iff.mp hden
    obtain ⟨d, _, hd, _, rfl⟩ := List.forall₂_cons_left_iff.mp h
    refine iff_of_true ?_ (labelsOk_call hf (by decide) _)
    rw [nodeDim_call hf]
    exact hd
  | count hf =>
    obtain ⟨d, _, _, _, rfl⟩ := List.forall₂_cons_left_iff.mp hden
    refine iff_of_true ?_ (labelsOk_call hf (by decide) _)
    rw [nodeDim_call hf]
    rfl
  | var hf =>
    obtain ⟨d, _, hd, _, rfl⟩ := List.forall₂_cons_left_iff.mp hden
    rw [nodeDim_call hf]
    exact (variance_denotes_iff hd).trans ⟨fun h _ => h, fun h => h hf⟩

theorem agree_of_same {t : UnitTag} {d d' : Dim} (ht : t.isKnown = true) (hd : t.Denotes d) (hd' : t.Denotes d')
    {ps : List ((UnitTag × Dim) × (UnitTag × Dim))} (hps : ps = [((t, d), (t, d'))]) :
    ∀ p ∈ ps, p.1.2 = p.2.2 := by
  intro p hp
  rw [hps] at hp
  rw [List.mem_singleton.mp hp]
  exact hd.unique ht hd'

theorem compared_call {α : Type} {f : Func} (hf : Func.ofName func = some f) (xs : List α) :
    (Expr.call func args keywords).compared xs = f.compared xs := by
  show ((Func.ofName func).map _).getD [] = _
  rw [hf]
  rfl

theorem compared_nil {α : Type} {f : Func} (hf : Func.ofName func = some f)
    (hone : f.keepsUnit = true ∨ f.ofNumber = true ∨ f.isInverseTrig = true ∨ f = .sqrt ∨ f = .count ∨ f = .var)
    {xs : List α} {p : α × α} (hp : p ∈ (Expr.call func args keywords).compared xs) : False := by
  rw [compared_call hf] at hp
  have hnil : f.compared xs = [] := by
    cases f <;> first | rfl | exact absurd hone (by decide)
  rw [hnil] at hp
  exact List.not_mem_nil hp

theorem agree {s : Expr F} {ts : List UnitTag} {t : UnitTag} {ds : List Dim} (h : UnitRule I s ts t)
    (hden : List.Forall₂ UnitTag.Denotes ts ds) : ∀ p ∈ s.compared (ts.zip ds), p.1.2 = p.2.2 := by
  cases h with
  | constant | constantName _ | «variable» _ _ | sign | compare | mult _ _ | div _ _ | powDimensionless
  | powZero _ | powOne _ | pow _ => exact List.forall_mem_nil _
  | additive hop hknown =>
    obtain ⟨d, d', rfl, hd, hd'⟩ := denotes_pair hden
    rcases hop with rfl | rfl | rfl <;> exact agree_of_same hknown hd hd' rfl
  | keep hf hkeep => exact fun p hp => (compared_nil hf (.inl hkeep) hp).elim
  | number hf hnum => exact fun p hp => (compared_nil hf (.inr (.inl hnum)) hp).elim
  | inverseTrig hf htrig => exact fun p hp => (compared_nil hf (.inr (.inr (.inl htrig))) hp).elim
  | sqrt hf _ | count hf | var hf => exact fun p hp => (compared_nil hf (by decide) hp).elim
  | atan2 hf hknown =>
    obtain ⟨d, _, hd, h₁, rfl⟩ := List.forall₂_cons_left_iff.mp hden
    obtain ⟨d', _, hd', _, rfl⟩ := List.forall₂_cons_left_iff.mp h₁
    rw [compared_call hf]
    exact agree_of_same hknown hd hd' rfl
  | extremum hf hext hknown =>
    obtain ⟨d, _, hd, h₁, rfl⟩ := List.forall₂_cons_left_iff.mp hden
    obtain ⟨d', _, hd', _, rfl⟩ := List.forall₂_cons_left_iff.mp h₁
    rw [compared_call hf]
    rcases hext with rfl | rfl <;> exact agree_of_same hknown hd hd' rfl
  | clip hf hknown =>
    obtain ⟨d, _, hd, h₁, rfl⟩ := List.forall₂_cons_left_iff.mp hden
    obtain ⟨d', _, hd', h₂, rfl⟩ := List.forall₂_cons_left_iff.mp h₁
    obtain ⟨d'', _, hd'', _, rfl⟩ := List.forall₂_cons_left_iff.mp h₂
    rw [compared_call hf]
    intro p hp
    rcases List.mem_pair.mp hp with rfl | rfl
    · exact hd.unique hknown hd'
    · exact hd.unique hknown hd''
  | choice hf hknown =>
    obtain ⟨_, _, _, h₁, rfl⟩ := List.forall₂_cons_left_iff.mp hden
    obtain ⟨d, _, hd, h₂, rfl⟩ := List.forall₂_cons_left_iff.mp h₁
    obtain ⟨d', _, hd', _, rfl⟩ := List.forall₂_cons_left_iff.mp h₂
    rw [compared_call hf]
    exact agree_of_same hknown hd hd' rfl

end UnitRule

/-! ## Result -/

theorem readLabel_toOutput (h : t.Denotes d) {label : String}
    (hout : t.toOutput = some label) : readLabel label = some d := by
  cases t with
  | known l =>
    cases hout
    exact h
  | dimensionless =>
    cases hout
    obtain rfl : d = 0 := h
    exact Label.read_one
  | unknown => cases hout

section Sound

variable {I : Interpreter F} {e : Expr F} {v : EvalValue F}

variable {vs : List (EvalValue F)}

/-- In an evaluation without warnings every node is visited by the rules. -/
theorem Interpreter.Reached.rule {s : Expr F} (h : I.Reached e s vs) (he : I.interpret e = .ok (v, [])) :
    ∃ u, I.visit s vs = .ok (u, []) ∧ UnitRule I s (vs.map EvalValue.unit) u.unit := by
  obtain ⟨u, hu, _⟩ := Evaluator.Reached.log_nil h he
  obtain ⟨rs, hrs, rfl⟩ := Evaluator.Reached.operands_ok h
  refine ⟨u, hu, Interpreter.visit_unitRule hu ?_⟩
  rw [List.length_map]
  exact (mapM_ok_iff.mp hrs).length_eq.symm

theorem denotes_units {os : List (Expr F)}
    (h : List.Forall₂ (fun o u => u.unit.Denotes (I.dim o)) os vs) :
    List.Forall₂ UnitTag.Denotes (vs.map EvalValue.unit) (os.map I.dim) := by
  rw [List.forall₂_map_left_iff, List.forall₂_map_right_iff]
  exact h.flip

theorem visit_denotes_iff {s : Expr F} (hreach : I.Reached e s vs)
    (he : I.interpret e = .ok (v, [])) {u : EvalValue F} {w : List Warning} (hu : I.visit s vs = .ok (u, w))
    (hden : List.Forall₂ (fun o u => u.unit.Denotes (I.dim o)) s.operands vs) :
    u.unit.Denotes (I.dim s) ↔ I.LabelsOk s (vs.map EvalValue.unit) := by
  obtain ⟨u', hu', hrule⟩ := hreach.rule he
  rw [hu] at hu'
  cases hu'
  rw [I.dim_eq]
  exact hrule.denotes_iff (denotes_units hden)

end Sound

/-- **Units are sound exactly when the labels can be read back** at every node an evaluation without warnings comes
to. -/
theorem units_sound_iff (I : Interpreter F) (e : Expr F) {r : NumericValue F} (h : I.evaluateTree e = .ok r)
    (hw : r.warnings = []) :
    UnitsSound I e r ↔ ∀ s vs, I.Reached e s vs → I.LabelsOk s (vs.map EvalValue.unit) := by
  obtain ⟨_, _, h⟩ := bind_ok_iff.mp h
  obtain ⟨⟨v, w⟩, he, h⟩ := bind_ok_iff.mp h
  cases h
  obtain rfl : w = [] := hw
  constructor
  · intro hsound s vs hreach
    obtain ⟨u, hu, _⟩ := hreach.rule he
    refine (visit_denotes_iff hreach he hu ?_).mp (hsound.denotes s vs u [] hreach hu)
    -- the operands were visited before
    refine (Evaluator.Reached.operands_reached hreach).imp ?_
    rintro o x ⟨us, w, hreach', hx⟩
    exact hsound.denotes o us x w hreach' hx
  · intro hok
    have hoperands : ∀ {s vs}, I.Reached e s vs →
        List.Forall₂ (fun o u => u.unit.Denotes (I.dim o)) s.operands vs := by
      intro s vs hreach
      refine Evaluator.Reached.invariant (P := fun o u => u.unit.Denotes (I.dim o))
        (C := fun s vs => I.Reached e s vs) ?_ (fun _ _ h => h) hreach
      intro s vs r hden hreach' hr
      exact (visit_denotes_iff hreach' he hr hden).mpr (hok s vs hreach')
    have hdenotes : ∀ s vs u w, I.Reached e s vs → I.visit s vs = .ok (u, w) → u.unit.Denotes (I.dim s) :=
      fun s vs u w hreach hu => (visit_denotes_iff hreach he hu (hoperands hreach)).mpr (hok s vs hreach)
    refine ⟨fun s vs hreach p hp _ _ => ?_, hdenotes, fun label hlabel => ?_⟩
    · obtain ⟨u, _, hrule⟩ := hreach.rule he
      exact hrule.agree (denotes_units (hoperands hreach)) p hp
    · obtain ⟨rs, u, hrs, hu, hv⟩ := Evaluator.eval_ok_iff (E := I.evaluator).mp he
      have hvu : v = u.1 := congrArg Prod.fst hv
      refine readLabel_toOutput (hdenotes e _ u.1 u.2 (.here hrs) hu) ?_
      rw [← hvu]
      exact hlabel

/-- Three numbers with units of their own. -/
def threeUnits : Interpreter ℚ where
  arith := rational
  vars := [("x", ⟨"x", .scalar 6, some "a"⟩), ("y", ⟨"y", .scalar 2, some "b"⟩),
    ("z", ⟨"z", .scalar 3, some "c"⟩)]
  options := {}
  limits := {}

/-- The units of a product are sound. -/
theorem units_sound_iff_product : UnitsSound threeUnits (.binOp (.name "x") .mult (.name "y"))
    { payload := .scalar 12, unit := some "a*b", warnings := [] } := by
  refine (units_sound_iff threeUnits (.binOp (.name "x") .mult (.name "y"))
    (ok_of_toOption (by decide +kernel)) rfl).mpr ?_
  intro s vs hreach
  have hname : ∀ var, threeUnits.vars.lookup "x" = some var ∨ threeUnits.vars.lookup "y" = some var →
      (UnitTag.fromUnitString var.unit).IsName := by
    rintro var (hvar | hvar) <;>
      · cases hvar
        rintro label ⟨⟩
        decide
  rcases Interpreter.reached_binOp hreach with rfl | hreach | hreach
  · trivial
  · rw [Interpreter.reached_name hreach]
    exact fun _ var hvar => hname var (.inl hvar)
  · rw [Interpreter.reached_name hreach]
    exact fun _ var hvar => hname var (.inr hvar)

/-- **A product as divisor.** `x / (y * z)` and `x / y * z` have one label, so that they are added up. -/
theorem product_as_divisor :
    ¬ ∀ (I : Interpreter ℚ) (e : Expr ℚ) (r : NumericValue ℚ), validate (fun _ => true) I.limits e = .ok () →
      I.evaluateTree e = .ok r → r.warnings = [] → UnitsSound I e r := by
  intro hall
  have hsound := hall threeUnits
    (.binOp (.binOp (.name "x") .div (.binOp (.name "y") .mult (.name "z"))) .add
      (.binOp (.binOp (.name "x") .div (.name "y")) .mult (.name "z")))
    { payload := .scalar 10, unit := some "a/b*c", warnings := [] } rfl (ok_of_toOption (by decide +kernel)) rfl
  have hops : (Expr.operands (.binOp (.binOp (.name "x") .div (.binOp (.name "y") .mult (.name "z"))) .add
      (.binOp (.binOp (.name "x") .div (.name "y")) .mult (.name "z")))).mapM threeUnits.interpret =
      .ok [(.scalarVal 1 (.known "a/b*c"), []), (.scalarVal 9 (.known "a/b*c"), [])] :=
    ok_of_toOption (by decide +kernel)
  have hdim := hsound.agree _ _ (.here hops) _ List.mem_cons_self rfl rfl
  have hc := congrFun hdim "c"
  exact absurd hc (by decide +kernel)

end Irip.Numeric
