import Irip.Numeric.Facade

/-!
# `Numeric.Naming` — what the names of an expression stand for

Renaming the variables with their data changes nothing (`interpret_rename`), but the names of constants come first.
-/

namespace Irip.Numeric

open Evaluation

variable {F : Type}

/-! ## Renaming -/

namespace Expr

mutual

/-- The names a tree has as operands. The names of the functions it calls are not among them. -/
def names : Expr F → List String
  | .constant _ => []
  | .name id => [id]
  | .unaryOp _ operand => names operand
  | .binOp left _ right => names left ++ names right
  | .compare left _ right more => names left ++ names right ++ namesMore more
  | .call _ args _ => namesArgs args
  | .callOther => []
  | .other _ => []

def namesArgs : List (Expr F) → List String
  | [] => []
  | arg :: args => names arg ++ namesArgs args

def namesMore : List (CmpOp × Expr F) → List String
  | [] => []
  | (_, e) :: more => names e ++ namesMore more

end

mutual

/-- The tree with every name `id` replaced by `ρ id`. -/
def rename (ρ : String → String) : Expr F → Expr F
  | .constant value => .constant value
  | .name id => .name (ρ id)
  | .unaryOp op operand => .unaryOp op (rename ρ operand)
  | .binOp left op right => .binOp (rename ρ left) op (rename ρ right)
  | .compare left op right more => .compare (rename ρ left) op (rename ρ right) (renameMore ρ more)
  | .call func args keywords => .call func (renameArgs ρ args) keywords
  | .callOther => .callOther
  | .other type => .other type

def renameArgs (ρ : String → String) : List (Expr F) → List (Expr F)
  | [] => []
  | arg :: args => rename ρ arg :: renameArgs ρ args

def renameMore (ρ : String → String) : List (CmpOp × Expr F) → List (CmpOp × Expr F)
  | [] => []
  | (op, e) :: more => (op, rename ρ e) :: renameMore ρ more

end

@[simp] theorem length_renameArgs (ρ : String → String) (args : List (Expr F)) :
    (renameArgs ρ args).length = args.length := by
  induction args with
  | nil => rfl
  | cons arg args ih => exact congrArg (· + 1) ih

mutual

theorem names_rename (ρ : String → String) (e : Expr F) : (e.rename ρ).names = e.names.map ρ := by
  match e with
  | .constant _ => rfl
  | .name _ => rfl
  | .unaryOp _ operand => exact names_rename ρ operand
  | .binOp left _ right =>
    rw [rename, names, names, names_rename ρ left, names_rename ρ right, List.map_append]
  | .compare left _ right more =>
    rw [rename, names, names, names_rename ρ left, names_rename ρ right, namesMore_rename ρ more, List.map_append,
      List.map_append]
  | .call _ args _ => exact namesArgs_rename ρ args
  | .callOther => rfl
  | .other _ => rfl

theorem namesArgs_rename (ρ : String → String) (args : List (Expr F)) :
    namesArgs (renameArgs ρ args) = (namesArgs args).map ρ := by
  match args with
  | [] => rfl
  | arg :: args => rw [renameArgs, namesArgs, namesArgs, names_rename ρ arg, namesArgs_rename ρ args, List.map_append]

theorem namesMore_rename (ρ : String → String) (more : List (CmpOp × Expr F)) :
    namesMore (renameMore ρ more) = (namesMore more).map ρ := by
  match more with
  | [] => rfl
  | (_, e) :: more =>
    rw [renameMore, namesMore, namesMore, names_rename ρ e, namesMore_rename ρ more, List.map_append]

end

@[simp] theorem intLiteral_rename (ρ : String → String) (e : Expr F) : (e.rename ρ).intLiteral = e.intLiteral := by
  cases e <;> rfl

end Expr

section Validation

variable {isIdentifier : String → Bool} {limits : NumericLimits} {ρ : String → String}

theorem checkName_identifier {id : String} (h : isIdentifier id = true) : checkName isIdentifier id = .ok () := by
  unfold checkName
  rw [h]
  simp

mutual

theorem countAndCheck_rename (e : Expr F) (depth count : Nat)
    (h : ∀ id ∈ e.names, isIdentifier id = true ∧ isIdentifier (ρ id) = true) :
    countAndCheck isIdentifier limits depth (e.rename ρ) count = countAndCheck isIdentifier limits depth e count := by
  match e with
  | .constant value => rfl
  | .name id =>
    obtain ⟨hid, hρ⟩ := h id List.mem_cons_self
    simp only [Expr.rename, countAndCheck, checkName_identifier hid, checkName_identifier hρ]
  | .unaryOp op operand =>
    have ih := fun count => countAndCheck_rename operand (depth + 1) count h
    simp only [Expr.rename, countAndCheck, ih]
  | .binOp left op right =>
    have ihl := fun count => countAndCheck_rename left (depth + 1) count
      (fun id hid => h id (List.mem_append_left _ hid))
    have ihr := fun count => countAndCheck_rename right (depth + 1) count
      (fun id hid => h id (List.mem_append_right _ hid))
    simp only [Expr.rename, countAndCheck, ihl, ihr]
  | .compare left op right more =>
    have ihl := fun count => countAndCheck_rename left (depth + 1) count
      (fun id hid => h id (List.mem_append_left _ (List.mem_append_left _ hid)))
    have ihr := fun count => countAndCheck_rename right (depth + 1) count
      (fun id hid => h id (List.mem_append_left _ (List.mem_append_right _ hid)))
    have ihm := fun count => checkComparators_rename more (depth + 1) count
      (fun id hid => h id (List.mem_append_right _ hid))
    simp only [Expr.rename, countAndCheck, ihl, ihr, ihm, checkOps_rename]
  | .call func args keywords =>
    have ih := fun count => checkArgs_rename args (depth + 1) count h
    simp only [Expr.rename, countAndCheck, ih, Expr.length_renameArgs]
  | .callOther => rfl
  | .other type => rfl

theorem checkArgs_rename (args : List (Expr F)) (depth count : Nat)
    (h : ∀ id ∈ Expr.namesArgs args, isIdentifier id = true ∧ isIdentifier (ρ id) = true) :
    checkArgs isIdentifier limits depth (Expr.renameArgs ρ args) count =
      checkArgs isIdentifier limits depth args count := by
  match args with
  | [] => rfl
  | arg :: args =>
    have ih := fun count => countAndCheck_rename arg depth count (fun id hid => h id (List.mem_append_left _ hid))
    have ihs := fun count => checkArgs_rename args depth count (fun id hid => h id (List.mem_append_right _ hid))
    simp only [Expr.renameArgs, checkArgs, ih, ihs]

theorem checkOps_rename (more : List (CmpOp × Expr F)) (depth count : Nat) :
    checkOps isIdentifier limits depth (Expr.renameMore ρ more) count =
      checkOps isIdentifier limits depth more count := by
  match more with
  | [] => rfl
  | (op, e) :: more =>
    have ih := fun count => checkOps_rename more depth count
    simp only [Expr.renameMore, checkOps, ih]

theorem checkComparators_rename (more : List (CmpOp × Expr F)) (depth count : Nat)
    (h : ∀ id ∈ Expr.namesMore more, isIdentifier id = true ∧ isIdentifier (ρ id) = true) :
    checkComparators isIdentifier limits depth (Expr.renameMore ρ more) count =
      checkComparators isIdentifier limits depth more count := by
  match more with
  | [] => rfl
  | (op, e) :: more =>
    have ih := fun count => countAndCheck_rename e depth count (fun id hid => h id (List.mem_append_left _ hid))
    have ihs := fun count =>
      checkComparators_rename more depth count (fun id hid => h id (List.mem_append_right _ hid))
    simp only [Expr.renameMore, checkComparators, ih, ihs]

end

theorem validate_rename {e : Expr F} (h : ∀ id ∈ e.names, isIdentifier id = true ∧ isIdentifier (ρ id) = true) :
    validate isIdentifier limits (e.rename ρ) = validate isIdentifier limits e := by
  unfold validate
  simp only [countAndCheck_rename e _ _ h]

end Validation

namespace Interpreter

/-- The interpreter with other variables. -/
def withVars (I : Interpreter F) (vars : List (String × ResolvedNumericInput F)) : Interpreter F :=
  { I with vars := vars }

variable {I : Interpreter F} {vars : List (String × ResolvedNumericInput F)} {ρ : String → String}

theorem getDdof_rename (args : List (EvalValue F)) (nodes : List (Expr F)) :
    getDdof args (Expr.renameArgs ρ nodes) = getDdof args nodes := by
  unfold getDdof
  split
  · split
    · cases nodes with
      | nil => rfl
      | cons _ nodes =>
        cases nodes with
        | nil => rfl
        | cons node _ =>
          cases node with
          | constant value => cases value <;> rfl
          | _ => rfl
    · rfl
  · rfl

theorem visitCall_rename (func : String) (args : List (EvalValue F)) (nodes : List (Expr F)) :
    (I.withVars vars).visitCall func args (Expr.renameArgs ρ nodes) = I.visitCall func args nodes := by
  have hcall : (I.withVars vars).visitCall func args (Expr.renameArgs ρ nodes) =
      I.visitCall func args (Expr.renameArgs ρ nodes) := rfl
  rw [hcall]
  unfold visitCall callAggregate aggregateValues
  simp only [getDdof_rename]

mutual

/-- **The substitution lemma.** If every name stands for what its new name stands for with the other variables, a
tree evaluates to what the renamed tree does. -/
theorem interpret_rename (e : Expr F)
    (h : ∀ id ∈ e.names, (I.withVars vars).visitName (ρ id) = I.visitName id) :
    (I.withVars vars).interpret (e.rename ρ) = I.interpret e := by
  match e with
  | .constant value => rfl
  | .name id => exact h id List.mem_cons_self
  | .unaryOp op operand =>
    rw [Expr.rename, interpret, interpret, interpret_rename operand h]
    rfl
  | .binOp left op right =>
    rw [Expr.rename, interpret, interpret,
      interpret_rename left (fun id hid => h id (List.mem_append_left _ hid)),
      interpret_rename right (fun id hid => h id (List.mem_append_right _ hid)), Expr.intLiteral_rename]
    rfl
  | .compare left op right [] =>
    rw [Expr.rename, Expr.renameMore, interpret, interpret,
      interpret_rename left (fun id hid => h id (List.mem_append_left _ (List.mem_append_left _ hid))),
      interpret_rename right (fun id hid => h id (List.mem_append_left _ (List.mem_append_right _ hid)))]
    rfl
  | .compare left op right (_ :: _) =>
    rw [Expr.rename, Expr.renameMore, interpret, interpret]
  | .call func args keywords =>
    rw [Expr.rename, interpret, interpret, interpretArgs_rename args h]
    simp only [visitCall_rename]
  | .callOther => rfl
  | .other type => rfl

theorem interpretArgs_rename (args : List (Expr F))
    (h : ∀ id ∈ Expr.namesArgs args, (I.withVars vars).visitName (ρ id) = I.visitName id) :
    (I.withVars vars).interpretArgs (Expr.renameArgs ρ args) = I.interpretArgs args := by
  match args with
  | [] => rfl
  | arg :: args =>
    rw [Expr.renameArgs, interpretArgs, interpretArgs,
      interpret_rename arg (fun id hid => h id (List.mem_append_left _ hid)),
      interpretArgs_rename args (fun id hid => h id (List.mem_append_right _ hid))]

end

end Interpreter

/-! ## Data -/

/-- The source under another name. -/
def NumericSource.rename (ρ : String → String) (source : NumericSource) : NumericSource :=
  { source with name := ρ source.name }

/-- The resolved inputs under other names. -/
def renameVars (ρ : String → String) (vars : List (String × ResolvedNumericInput F)) :
    List (String × ResolvedNumericInput F) :=
  vars.map (fun v => (ρ v.1, { v.2 with name := ρ v.1 }))

/-- Two results that are the same but for the names in errors. -/
inductive SameBut {α β : Type} (R : α → β → Prop) : Except Exn α → Except Exn β → Prop where
  | ok {a b} : R a b → SameBut R (.ok a) (.ok b)
  | numeric {e e'} : e.code = e'.code → SameBut R (.error (.numeric e)) (.error (.numeric e'))
  | python {x} : SameBut R (.error (.python x)) (.error (.python x))

namespace SameBut

variable {α β γ δ : Type} {R : α → β → Prop} {Q : γ → δ → Prop}

theorem bind_of {x : Except Exn α} {y : Except Exn β} {f : α → Except Exn γ} {g : β → Except Exn δ}
    (h : SameBut R x y) (hfg : ∀ a b, x = .ok a → y = .ok b → R a b → SameBut Q (f a) (g b)) :
    SameBut Q (x >>= f) (y >>= g) := by
  cases h with
  | ok hab => exact hfg _ _ rfl rfl hab
  | numeric hcode => exact .numeric hcode
  | python => exact .python

theorem bind {x : Except Exn α} {y : Except Exn β} {f : α → Except Exn γ} {g : β → Except Exn δ}
    (h : SameBut R x y) (hfg : ∀ a b, R a b → SameBut Q (f a) (g b)) : SameBut Q (x >>= f) (y >>= g) :=
  h.bind_of (fun a b _ _ => hfg a b)

theorem refl (x : Except Exn α) : SameBut Eq x x := by
  cases x with
  | ok a => exact .ok rfl
  | error e =>
    cases e with
    | numeric e => exact .numeric rfl
    | python x => exact .python

theorem raiseIf {c : Bool} {e e' : NumericError} (h : e.code = e'.code) :
    SameBut Eq (raiseIf c e) (Numeric.raiseIf c e') := by
  cases c with
  | true => exact .numeric h
  | false => exact .ok rfl

theorem require {x : Option α} {e e' : NumericError} (h : e.code = e'.code) :
    SameBut Eq (Numeric.require x e) (Numeric.require x e') := by
  cases x with
  | some a => exact .ok rfl
  | none => exact .numeric h

theorem guarded {x : Except Exn α} {y : Except Exn α} (h : SameBut Eq x y) :
    (Numeric.guarded x).mapError NumericError.code = (Numeric.guarded y).mapError NumericError.code := by
  cases h with
  | ok hab => rw [hab]
  | numeric hcode => exact congrArg Except.error hcode
  | python => rfl

end SameBut

namespace Service

variable {S : Service F} {ρ : String → String}

theorem finiteFloat_same (n : Number) (message path path' : String) :
    SameBut Eq (S.finiteFloat n message path) (S.finiteFloat n message path') := by
  apply (SameBut.refl _).bind
  rintro x _ rfl
  apply SameBut.bind (SameBut.raiseIf ?_)
  · rintro _ _ rfl
    exact .ok rfl
  · rfl

theorem resolveItem_same (name name' : String) (i : Nat) (raw : Json) :
    SameBut Eq (S.resolveItem name i raw) (S.resolveItem name' i raw) := by
  have hnumber (n : Number) (message path path' : String) :
      SameBut Eq (S.finiteFloat n message path >>= fun x => pure (Cell.mk x false))
        (S.finiteFloat n message path' >>= fun x => pure (Cell.mk x false)) := by
    refine (finiteFloat_same n message path path').bind ?_
    rintro x _ rfl
    exact .ok rfl
  cases raw with
  | null => exact .ok rfl
  | int n | float r => exact hnumber _ _ _ _
  | bool _ | str _ | arr _ | obj _ => exact .numeric rfl
  | other _ => exact .python

theorem resolveItems_same (name name' : String) (i : Nat) (raws : List Json) :
    SameBut Eq (S.resolveItems name i raws) (S.resolveItems name' i raws) := by
  induction raws generalizing i with
  | nil => exact .ok rfl
  | cons raw raws ih =>
    refine (resolveItem_same name name' i raw).bind ?_
    rintro cell _ rfl
    refine (ih (i + 1)).bind ?_
    rintro cells _ rfl
    exact .ok rfl

theorem resolveScalar_rename (source : NumericSource) :
    SameBut (fun r r' => r' = { r with name := ρ source.name }) (S.resolveScalar source)
      (S.resolveScalar (source.rename ρ)) := by
  apply SameBut.bind (SameBut.require ?_)
  · rintro value _ rfl
    apply (finiteFloat_same value _ _ _).bind
    rintro x _ rfl
    apply SameBut.bind (SameBut.raiseIf ?_)
    · rintro _ _ rfl
      exact .ok rfl
    · rfl
  · rfl

theorem resolveInline_rename (source : NumericSource) :
    SameBut (fun r r' => r' = { r with name := ρ source.name }) (S.resolveInline source)
      (S.resolveInline (source.rename ρ)) := by
  apply SameBut.bind (SameBut.require ?_)
  · rintro raws _ rfl
    apply SameBut.bind (SameBut.raiseIf ?_)
    · rintro _ _ rfl
      apply (resolveItems_same _ _ 0 raws).bind
      rintro cells _ rfl
      apply SameBut.bind (SameBut.raiseIf ?_)
      · rintro _ _ rfl
        exact .ok rfl
      · rfl
    · rfl
  · rfl

theorem resolveFactSeries_rename (source : NumericSource) :
    SameBut (fun r r' => r' = { r with name := ρ source.name }) (S.resolveFactSeries source)
      (S.resolveFactSeries (source.rename ρ)) := by
  have hanswer : S.factSeries (source.rename ρ).factId (source.rename ρ).seriesIndex (source.rename ρ).columnName =
      S.factSeries source.factId source.seriesIndex source.columnName := rfl
  unfold resolveFactSeries
  rw [hanswer]
  cases S.factSeries source.factId source.seriesIndex source.columnName with
  | ok r => exact .ok rfl
  | error e => exact .numeric rfl

theorem resolveArtifactSeries_rename (source : NumericSource) :
    SameBut (fun r r' => r' = { r with name := ρ source.name }) (S.resolveArtifactSeries source)
      (S.resolveArtifactSeries (source.rename ρ)) := by
  unfold resolveArtifactSeries
  split
  · exact .numeric rfl
  · exact .numeric rfl

theorem resolve_rename (source : NumericSource) :
    SameBut (fun r r' => r' = { r with name := ρ source.name }) (S.resolve source)
      (S.resolve (source.rename ρ)) := by
  have htype : (source.rename ρ).sourceType = source.sourceType := rfl
  unfold resolve
  rw [htype]
  cases source.sourceType with
  | scalar => exact resolveScalar_rename source
  | inline => exact resolveInline_rename source
  | factSeries => exact resolveFactSeries_rename source
  | artifactSeries => exact resolveArtifactSeries_rename source

theorem resolveAll_rename (sources : List NumericSource) :
    SameBut (fun vars vars' => vars' = renameVars ρ vars ∧ vars.map Prod.fst = sources.map NumericSource.name)
      (S.resolveAll sources) (S.resolveAll (sources.map (NumericSource.rename ρ))) := by
  induction sources with
  | nil => exact .ok ⟨rfl, rfl⟩
  | cons source sources ih =>
    refine (resolve_rename source).bind ?_
    rintro r _ rfl
    refine ih.bind ?_
    rintro vars _ ⟨rfl, hnames⟩
    exact .ok ⟨rfl, congrArg (source.name :: ·) hnames⟩

end Service

theorem lookup_rename {ρ : String → String} {vars : List (String × ResolvedNumericInput F)} {id : String}
    (h : ∀ v ∈ vars.map Prod.fst, ρ v = ρ id → v = id) :
    (renameVars ρ vars).lookup (ρ id) = (vars.lookup id).map (fun r => { r with name := ρ id }) := by
  induction vars with
  | nil => rfl
  | cons v vars ih =>
    obtain ⟨name, r⟩ := v
    have ih' := ih (fun u hu => h u (List.mem_cons_of_mem _ hu))
    show List.lookup (ρ id) ((ρ name, { r with name := ρ name }) :: renameVars ρ vars) = _
    by_cases hname : name = id
    · rw [hname, List.lookup_cons_self, List.lookup_cons_self]
      rfl
    · have hρ : (ρ id == ρ name) = false :=
        beq_false_of_ne (fun heq => hname (h name List.mem_cons_self heq.symm))
      rw [List.lookup_cons, hρ, List.lookup_cons, beq_false_of_ne (Ne.symm hname)]
      exact ih'

/-! ### Accepted requests -/

/-- The names the variables of a request are declared under. -/
def Request.declared (r : Request) : List String := r.sources.map NumericSource.name

theorem require_ok {α : Type} {x : Option α} {e : NumericError} {a : α} : require x e = .ok a ↔ x = some a := by
  cases x with
  | none | some b => simp [require]

theorem parseVariable_new {i : Nat} {seen : List String} {var : Json} {source : NumericSource}
    (h : parseVariable i seen var = .ok source) : source.name ∉ seen := by
  cases var with
  | obj fields =>
    obtain ⟨_, _, h⟩ := bind_ok_iff.mp h
    obtain ⟨s, _, h⟩ := bind_ok_iff.mp h
    obtain ⟨_, hseen, h⟩ := bind_ok_iff.mp h
    cases h
    intro hmem
    rw [raiseIf_ok, List.contains_iff_mem.mpr hmem] at hseen
    cases hseen
  | _ => cases h

theorem parseItems_names {i : Nat} {seen : List String} {items : List Json} {sources : List NumericSource}
    (h : parseItems i seen items = .ok sources) :
    (sources.map NumericSource.name).Nodup ∧ ∀ name ∈ sources.map NumericSource.name, name ∉ seen := by
  induction items generalizing i seen sources with
  | nil =>
    cases h
    exact ⟨List.nodup_nil, List.forall_mem_nil _⟩
  | cons item items ih =>
    obtain ⟨source, hsource, h⟩ := bind_ok_iff.mp h
    obtain ⟨rest, hrest, h⟩ := bind_ok_iff.mp h
    cases h
    obtain ⟨hnodup, hnew⟩ := ih hrest
    -- the name of the first was looked up among those seen, and is seen by the others
    have hfirst := parseVariable_new hsource
    refine ⟨List.nodup_cons.mpr ⟨fun hmem => ?_, hnodup⟩, fun name hname => ?_⟩
    · exact hnew _ hmem List.mem_cons_self
    · rcases List.mem_cons.mp hname with rfl | hname
      · exact hfirst
      · exact fun hmem => hnew name hname (List.mem_cons_of_mem _ hmem)

namespace Service

variable {S : Service F}

theorem request_ok {args : List (String × Json)} {r : Request} (h : S.request args = .ok r) :
    r.expression.length ≠ 0 ∧ r.expression.length ≤ S.limits.maxExpressionLength ∧ r.declared.Nodup := by
  obtain ⟨expression, hexpression, h⟩ := bind_ok_iff.mp h
  obtain ⟨sources, hsources, h⟩ := bind_ok_iff.mp h
  obtain ⟨options, _, h⟩ := bind_ok_iff.mp h
  cases h
  obtain ⟨text, _, hexpression⟩ := bind_ok_iff.mp hexpression
  obtain ⟨_, hempty, hexpression⟩ := bind_ok_iff.mp hexpression
  obtain ⟨_, hlong, hexpression⟩ := bind_ok_iff.mp hexpression
  cases hexpression
  obtain ⟨items, _, hsources⟩ := bind_ok_iff.mp hsources
  obtain ⟨_, _, hsources⟩ := bind_ok_iff.mp hsources
  refine ⟨?_, ?_, (parseItems_names hsources).1⟩
  · simpa using raiseIf_ok.mp hempty
  · simpa using raiseIf_ok.mp hlong

end Service

/-! ## Names -/

/-- The value a supplied input has as an operand. -/
def ResolvedNumericInput.given (r : ResolvedNumericInput F) : EvalValue F :=
  match r.series with
  | .scalar x => .scalarVal x (.fromUnitString r.unit)
  | .vector cells => .vectorVal cells (.fromUnitString r.unit)

namespace Interpreter

/-- The value of a name that is a constant. -/
def constantValue (I : Interpreter F) (id : String) : Option (EvalValue F) :=
  if id = "pi" then some (.scalarVal I.arith.pi .dimensionless)
  else if id = "e" then some (.scalarVal I.arith.e .dimensionless)
  else none

/-- Every declared name stands for the data supplied for it, wherever it is an operand of `e`. -/
def Denotes (I : Interpreter F) (e : Expr F) : Prop :=
  ∀ v r, I.vars.lookup v = some r → v ∈ e.names → I.interpret (.name v) = .ok (r.given, [])

/-- A declared name that `e` uses is that of a constant, and was not supplied as just that constant. -/
def Shadowed (I : Interpreter F) (e : Expr F) : Prop :=
  ∃ v r c, I.vars.lookup v = some r ∧ v ∈ e.names ∧ I.constantValue v = some c ∧ r.given ≠ c

variable {I : Interpreter F} {e : Expr F}

theorem visitName_constant {id : String} {c : EvalValue F} (h : I.constantValue id = some c) :
    I.visitName id = .ok (c, []) := by
  unfold constantValue at h
  unfold visitName
  split at h
  · next hpi =>
      cases h
      exact if_pos hpi
  · next hpi =>
      rw [if_neg hpi]
      split at h
      · next he =>
          cases h
          exact if_pos he
      · cases h

theorem visitName_undeclared {id : String} (h : I.constantValue id = none) (hid : I.vars.lookup id = none) :
    I.visitName id = reject s!"undefined variable: {id}" := by
  unfold constantValue at h
  unfold visitName
  split at h
  · cases h
  · next hpi =>
      rw [if_neg hpi]
      split at h
      · cases h
      · next he => rw [if_neg he, hid]

theorem precheck_lookup (h : I.precheck = .ok ()) {v : String} {r : ResolvedNumericInput F}
    (hr : I.vars.lookup v = some r) :
    (decide (I.options.nullPolicy = .fail) && r.series.anyNull) = false := by
  obtain ⟨_, _, h⟩ := bind_ok_iff.mp h
  split at h
  · cases h
  · next hnone =>
      have hmem : (v, r) ∈ I.vars := by
        obtain ⟨before, after, hsplit, _⟩ := List.lookup_eq_some_iff.mp hr
        rw [hsplit]
        exact List.mem_append_right _ List.mem_cons_self
      exact Bool.eq_false_iff.mpr (List.find?_eq_none.mp hnone (v, r) hmem)

theorem visitName_variable (h : I.precheck = .ok ()) {v : String} {r : ResolvedNumericInput F}
    (hr : I.vars.lookup v = some r) (hv : I.constantValue v = none) : I.visitName v = .ok (r.given, []) := by
  unfold constantValue at hv
  unfold visitName
  split at hv
  · cases hv
  · next hpi =>
      rw [if_neg hpi]
      split at hv
      · cases hv
      · next he =>
          rw [if_neg he, hr]
          show (if _ then _ else _) = _
          rw [precheck_lookup h hr, if_neg Bool.false_ne_true]
          unfold ResolvedNumericInput.given
          cases r.series <;> rfl

theorem denotes_iff (h : I.precheck = .ok ()) : I.Denotes e ↔ ¬ I.Shadowed e := by
  constructor
  · rintro hdenotes ⟨v, r, c, hr, hv, hc, hne⟩
    have hvisit : I.visitName v = .ok (r.given, []) := hdenotes v r hr hv
    rw [visitName_constant hc] at hvisit
    exact hne (Prod.mk.inj (Except.ok.inj hvisit)).1.symm
  · intro hshadowed v r hr hv
    show I.visitName v = _
    cases hc : I.constantValue v with
    | none => exact visitName_variable h hr hc
    | some c =>
      have hgiven : r.given = c := by
        by_contra hne
        exact hshadowed ⟨v, r, c, hr, hv, hc, hne⟩
      rw [visitName_constant hc, hgiven]

theorem precheck_rename (I : Interpreter F) (ρ : String → String) :
    SameBut Eq I.precheck (I.withVars (renameVars ρ I.vars)).precheck := by
  have hlength : (I.withVars (renameVars ρ I.vars)).vars.length = I.vars.length := List.length_map _
  have hfind : (renameVars ρ I.vars).find? (fun v => I.options.nullPolicy = .fail && v.2.series.anyNull) =
      (I.vars.find? (fun v => I.options.nullPolicy = .fail && v.2.series.anyNull)).map
        (fun v => (ρ v.1, { v.2 with name := ρ v.1 })) := List.find?_map
  unfold precheck
  apply SameBut.bind
  · rw [hlength]
    exact SameBut.raiseIf rfl
  · rintro _ _ -
    have hoptions : (I.withVars (renameVars ρ I.vars)).options = I.options := rfl
    have hrenamed : (I.withVars (renameVars ρ I.vars)).vars = renameVars ρ I.vars := rfl
    rw [hoptions, hrenamed, hfind]
    cases I.vars.find? (fun v => I.options.nullPolicy = .fail && v.2.series.anyNull) with
    | none => exact .ok rfl
    | some v => exact .numeric rfl

end Interpreter

/-! ## Requests -/

/-- The declared variables of `r`, whose expression is `e`, are renamed by `ρ` in `r'`: no other name that `e` uses
is changed, or becomes the name of a variable. -/
structure Renaming (S : Service F) (ρ : String → String) (r r' : Request) (e : Expr F) : Prop where
  parsed : S.parser.parse r.expression = .ok e
  parsed' : S.parser.parse r'.expression = .ok (e.rename ρ)
  sources : r'.sources = r.sources.map (NumericSource.rename ρ)
  options : r'.options = r.options
  fixes : ∀ id ∈ e.names, id ∉ r.declared → ρ id = id
  captures : ∀ v ∈ r.declared, ∀ id ∈ e.names, id ∉ r.declared → ρ v ≠ id

/-- The names in what Python parses are identifiers. -/
def Parser.Lawful (P : Parser F) : Prop :=
  ∀ text e, P.parse text = .ok e → ∀ id ∈ e.names, P.isIdentifier id = true

namespace Service

/-- The interpreter of a request. -/
def interpreter (S : Service F) (r : Request) (vars : List (String × ResolvedNumericInput F)) : Interpreter F :=
  { arith := S.arith, vars := vars, options := r.options, limits := S.limits.toNumericLimits }

/-- The evaluation of the request comes to interpreting the tree `e` with `I`. -/
structure Starts (S : Service F) (r : Request) (e : Expr F) (I : Interpreter F) : Prop where
  valid : validate S.parser.isIdentifier S.limits.toNumericLimits e = .ok ()
  resolved : ∃ vars, S.resolveAll r.sources = .ok vars ∧ I = S.interpreter r vars
  checked : I.precheck = .ok ()

variable {S : Service F} {ρ : String → String} {r r' : Request} {e : Expr F}

theorem visitName_rename (hren : Renaming S ρ r r' e) (hnodup : r'.declared.Nodup) {I : Interpreter F}
    (hnames : I.vars.map Prod.fst = r.declared) (hdenotes : I.Denotes e) (hdenotes' : (I.withVars (renameVars ρ I.vars)).Denotes (e.rename ρ)) (id : String)
    (hid : id ∈ e.names) : (I.withVars (renameVars ρ I.vars)).visitName (ρ id) = I.visitName id := by
  have hdeclared : r'.declared = r.declared.map ρ := by
    unfold Request.declared
    rw [hren.sources, List.map_map, List.map_map]
    rfl
  rw [hdeclared] at hnodup
  have hinj : ∀ v ∈ I.vars.map Prod.fst, ρ v = ρ id → v = id := by
    intro v hv heq
    rw [hnames] at hv
    by_cases hmem : id ∈ r.declared
    · exact List.inj_on_of_nodup_map hnodup hv hmem heq
    · rw [hren.fixes id hid hmem] at heq
      exact absurd heq (hren.captures v hv id hid hmem)
  have hlookup := lookup_rename hinj
  cases hr : I.vars.lookup id with
  | some u =>
    rw [hr] at hlookup
    have hmem : ρ id ∈ (e.rename ρ).names := by
      rw [Expr.names_rename]
      exact List.mem_map_of_mem hid
    have hold : I.visitName id = .ok (u.given, []) := hdenotes id u hr hid
    rw [hold]
    exact hdenotes' (ρ id) { u with name := ρ id } hlookup hmem
  | none =>
    rw [hr] at hlookup
    have hmem : id ∉ r.declared := by
      rw [← hnames]
      intro hmem
      obtain ⟨v, hv, hv1⟩ := List.mem_map.mp hmem
      have hne := List.lookup_eq_none_iff.mp hr v hv
      rw [hv1] at hne
      simp at hne
    rw [hren.fixes id hid hmem] at hlookup ⊢
    cases hc : I.constantValue id with
    | some c =>
      have hc' : (I.withVars (renameVars ρ I.vars)).constantValue id = some c := hc
      rw [Interpreter.visitName_constant hc, Interpreter.visitName_constant hc']
    | none =>
      have hc' : (I.withVars (renameVars ρ I.vars)).constantValue id = none := hc
      rw [Interpreter.visitName_undeclared hc hr, Interpreter.visitName_undeclared hc' hlookup]

theorem evaluate_eq (hempty : r.expression.length ≠ 0) (hlong : r.expression.length ≤ S.limits.maxExpressionLength)
    (hparsed : S.parser.parse r.expression = .ok e) (vars : List (String × ResolvedNumericInput F)) :
    evaluate S.parser S.arith S.limits.toNumericLimits r.expression vars r.options =
      validate S.parser.isIdentifier S.limits.toNumericLimits e >>= fun _ => (S.interpreter r vars).evaluateTree e := by
  have hsome : decide (r.expression.length > S.limits.maxExpressionLength) = false :=
    decide_eq_false (Nat.not_lt.mpr hlong)
  have hne : (r.expression.length == 0) = false := beq_false_of_ne hempty
  unfold evaluate
  rw [hsome, hne, hparsed]
  rfl

theorem run_rename (hP : S.parser.Lawful) {args args' : List (String × Json)} (hr : S.request args = .ok r)
    (hr' : S.request args' = .ok r') (hren : Renaming S ρ r r' e) (hdenotes : ∀ I, S.Starts r e I → I.Denotes e)
    (hdenotes' : ∀ I, S.Starts r' (e.rename ρ) I → I.Denotes (e.rename ρ)) :
    (S.run r).mapError NumericError.code = (S.run r').mapError NumericError.code := by
  obtain ⟨hempty, hlong, _⟩ := request_ok hr
  obtain ⟨hempty', hlong', hnodup⟩ := request_ok hr'
  have hidentifiers : ∀ id ∈ e.names, S.parser.isIdentifier id = true ∧ S.parser.isIdentifier (ρ id) = true := by
    intro id hid
    refine ⟨hP _ e hren.parsed id hid, hP _ _ hren.parsed' (ρ id) ?_⟩
    rw [Expr.names_rename]
    exact List.mem_map_of_mem hid
  unfold run
  apply SameBut.guarded
  apply SameBut.bind_of (R := fun vars vars' => vars' = renameVars ρ vars ∧ vars.map Prod.fst = r.declared)
  · rw [hren.sources]
    exact resolveAll_rename r.sources
  · rintro vars _ hvars hvars' ⟨rfl, hnames⟩
    rw [evaluate_eq hempty hlong hren.parsed, evaluate_eq hempty' hlong' hren.parsed', validate_rename hidentifiers]
    apply (SameBut.refl _).bind_of
    rintro _ _ hvalid _ -
    have hrenamed : S.interpreter r' (renameVars ρ vars) = (S.interpreter r vars).withVars (renameVars ρ vars) := by
      unfold interpreter Interpreter.withVars
      rw [hren.options]
    rw [hrenamed]
    apply (Interpreter.precheck_rename _ ρ).bind_of
    rintro _ _ hpre hpre' -
    have hstarts : S.Starts r e (S.interpreter r vars) := ⟨hvalid, ⟨vars, hvars, rfl⟩, hpre⟩
    have hstarts' : S.Starts r' (e.rename ρ) ((S.interpreter r vars).withVars (renameVars ρ vars)) :=
      ⟨validate_rename hidentifiers ▸ hvalid, ⟨_, hvars', hrenamed.symm⟩, hpre'⟩
    have hinterpret : ((S.interpreter r vars).withVars (renameVars ρ vars)).interpret (e.rename ρ) =
        (S.interpreter r vars).interpret e := Interpreter.interpret_rename e
      (visitName_rename hren hnodup hnames (hdenotes _ hstarts) (hdenotes' _ hstarts'))
    rw [hinterpret]
    exact SameBut.refl _

/-- **Names and data.** Names denote their data, and can be changed, exactly if none is shadowed. -/
theorem denotes_renaming_iff (hP : S.parser.Lawful) {args args' : List (String × Json)}
    (hr : S.request args = .ok r) (hr' : S.request args' = .ok r') (hren : Renaming S ρ r r' e) :
    ((∀ I, S.Starts r e I → I.Denotes e) ∧ (∀ I, S.Starts r' (e.rename ρ) I → I.Denotes (e.rename ρ)) ∧
      (S.run r).mapError NumericError.code = (S.run r').mapError NumericError.code) ↔
    (∀ I, S.Starts r e I → ¬ I.Shadowed e) ∧ (∀ I, S.Starts r' (e.rename ρ) I → ¬ I.Shadowed (e.rename ρ)) := by
  have hiff (q : Request) (t : Expr F) :
      (∀ I, S.Starts q t I → I.Denotes t) ↔ ∀ I, S.Starts q t I → ¬ I.Shadowed t :=
    forall_congr' fun I => forall_congr' fun hstarts => Interpreter.denotes_iff hstarts.checked
  rw [← hiff r e, ← hiff r' (e.rename ρ)]
  constructor
  · rintro ⟨hdenotes, hdenotes', _⟩
    exact ⟨hdenotes, hdenotes'⟩
  · rintro ⟨hdenotes, hdenotes'⟩
    exact ⟨hdenotes, hdenotes', run_rename hP hr hr' hren hdenotes hdenotes'⟩

end Service

/-- A service that reads expressions that are single names. -/
def singleNames : Service ℚ where
  parser := { parse := fun text => .ok (.name text), isIdentifier := fun _ => true }
  arith := rational
  limits := {}
  toFloat
    | .int n => .ok n
    | .float _ => .error .valueError
  artifactRead := false
  factSeries _ _ _ := .error
    { code := "numeric_field_not_found"
      message := fun name => s!"permission 'fact:read' required for variable '{name}'"
      path := fun name => s!"variables.{name}" }

/-- The arguments of a call for the one variable `name`, a scalar 1. -/
def oneScalar (name : String) : List (String × Json) :=
  [("expression", .str name),
   ("variables", .arr [.obj [("name", .str name), ("source_type", .str "scalar"), ("value", .int 1),
     ("unit", .str "1")]])]

/-- The request that is. -/
def oneScalarRequest (name : String) : Request where
  expression := name
  sources := [{ name := name, sourceType := .scalar, value := some (.int 1), values := none, unit := some "1",
                   factId := none, artifactId := none, seriesIndex := none, columnName := none }]
  options := {}

/-- The variable `x` becomes `y`. -/
theorem denotes_renaming_iff_scalar :
    (singleNames.run (oneScalarRequest "x")).mapError NumericError.code =
      (singleNames.run (oneScalarRequest "y")).mapError NumericError.code := by
  have hren : Renaming singleNames (fun _ => "y") (oneScalarRequest "x") (oneScalarRequest "y") (.name "x") :=
    { parsed := rfl
      parsed' := rfl
      sources := rfl
      options := rfl
      fixes := fun id hid hnot => absurd hid hnot
      captures := fun v _ id hid hnot => absurd hid hnot }
  have hx : singleNames.request (oneScalar "x") = .ok (oneScalarRequest "x") := rfl
  have hy : singleNames.request (oneScalar "y") = .ok (oneScalarRequest "y") := rfl
  have hiff := Service.denotes_renaming_iff (S := singleNames) (fun _ _ _ _ _ => rfl) hx hy hren
  refine (hiff.mpr ⟨?_, ?_⟩).2.2
  · rintro I _ ⟨v, r, c, _, hv, hc, _⟩
    cases List.mem_singleton.mp hv
    cases hc
  · rintro I _ ⟨v, r, c, _, hv, hc, _⟩
    cases List.mem_singleton.mp hv
    cases hc

/-- **A variable by the name of a constant.** The variable `pi`, supplied as 1, stands for the constant. -/
theorem pi_not_supplied :
    ¬ ∀ (S : Service ℚ) (args : List (String × Json)) (r : Request) (e : Expr ℚ) (I : Interpreter ℚ),
      S.parser.Lawful → S.request args = .ok r → S.parser.parse r.expression = .ok e → S.Starts r e I →
        I.Denotes e := by
  intro hall
  have hdenotes := hall singleNames (oneScalar "pi") (oneScalarRequest "pi") (.name "pi")
    (singleNames.interpreter (oneScalarRequest "pi") [("pi", ⟨"pi", .scalar 1, some "1"⟩)])
    (fun _ _ _ _ _ => rfl) rfl rfl ⟨rfl, ⟨_, rfl, rfl⟩, rfl⟩
  have hpi := hdenotes "pi" ⟨"pi", .scalar 1, some "1"⟩ rfl List.mem_cons_self
  have hvalue : (355 / 113 : ℚ) = 1 := by
    injection hpi with hpi
    injection hpi with hpi
    injection hpi with hpi
    injection hpi
  exact absurd hvalue (by decide +kernel)

end Irip.Numeric
