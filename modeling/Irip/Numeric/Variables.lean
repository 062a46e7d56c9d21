import Irip.Base.JsonSchema
import Irip.Numeric.Naming

/-!
# `Numeric.Variables` — the variables the contract describes, and those the facade takes

`Overlooked` and `Undeclared` are the objects only one of the two takes.
-/

namespace Irip.Numeric

open Evaluation (bind_ok_iff)

/-! ## The contract -/

/-- A CJK unified ideograph. -/
def isCjk (c : Char) : Bool := '\u4e00' ≤ c && c ≤ '\u9fff'

def isDeclaredText : List Char → Bool
  | [] => false
  | c :: cs => (isAsciiLetter c || isCjk c) && cs.all (fun d => isAsciiLetter d || isAsciiDigit d || isCjk d) &&
      cs.length ≤ 63

/-- `re.search(VARIABLE_NAME_PATTERN, name)`: the `$` also matches before a final newline. -/
def matchesVariableNamePattern (name : String) : Bool :=
  isDeclaredText name.toList || (name.toList.getLast? == some '\n' && isDeclaredText name.toList.dropLast)

/-- The type of a string whose format is an annotation. -/
def anyString : Schema := .string (fun _ => true) 0 none

def variableSourceSchema : Schema :=
  .object
    [("name", .string matchesVariableNamePattern 0 none),
     ("source_type", .enum ["scalar", "inline", "fact_series"]),
     ("value", .typed [.number]),
     ("values", .array (.typed [.number, .null])),
     ("unit", .string (fun _ => true) 0 (some 64)),
     ("fact_id", anyString),
     ("artifact_id", anyString),
     ("series_index", .natural),
     ("column_name", .string (fun _ => true) 1 (some 128))]
    ["name", "source_type"]

section Variable

variable (var : List (String × Json))

/-- What both look at first: the fields are known ones, and the name and the source type are readable. -/
structure Shaped (name : String) (sourceType : SourceType) : Prop where
  keys : ∀ key ∈ var.map Prod.fst, key ∈ allowedKeys
  named : var.lookup "name" = some (.str name)
  pattern : matchesVariableNamePattern name = true
  source : ∃ text, var.lookup "source_type" = some (.str text) ∧ SourceType.ofText text = some sourceType

/-- What is given for `key`, if anything, has the property `P`. -/
def Given (key : String) (P : Json → Prop) : Prop := ∀ v, var.lookup key = some v → P v

/-- The members that describe the source are of the types that are declared. -/
structure Typed : Prop where
  value : Given var "value" (fun v => v.hasType .number = true)
  values : Given var "values" (fun v => ∃ xs, v = .arr xs ∧ ∀ x ∈ xs, x.hasType .number = true ∨ x = .null)
  unit : Given var "unit" (fun v => ∃ s, v = .str s ∧ s.length ≤ 64)
  factId : Given var "fact_id" (fun v => ∃ s, v = .str s)
  artifactId : Given var "artifact_id" (fun v => ∃ s, v = .str s)
  seriesIndex : Given var "series_index" (fun v => v.hasType .integer = true ∧ v.isNonnegative = true)
  columnName : Given var "column_name" (fun v => ∃ s, v = .str s ∧ 1 ≤ s.length ∧ s.length ≤ 128)

/-! ## The facade -/

/-- The unit is missing, or a short text. -/
def UnitFits : Prop := Json.get var "unit" = .null ∨ ∃ s, Json.get var "unit" = .str s ∧ s.length ≤ 64

/-- The index is a natural number, written as one. -/
def IndexFits : Prop := ∃ n : Int, Json.get var "series_index" = .int n ∧ 0 ≤ n

/-- The members fit the source type: what it needs is there, and nothing that belongs to another. A member that is
`None`, or an empty identifier, is not there. -/
def Fits : SourceType → Prop
  | .scalar =>
    Json.get var "value" ≠ .null ∧ Json.get var "values" = .null ∧ hasPlatformFields var = false ∧ UnitFits var
  | .inline =>
    Json.get var "values" ≠ .null ∧ Json.get var "value" = .null ∧ hasPlatformFields var = false ∧ UnitFits var
  | .factSeries =>
    (Json.get var "fact_id").truthy = true ∧ IndexFits var ∧
      (∃ s, Json.get var "column_name" = .str s ∧ 1 ≤ s.length ∧ s.length ≤ 128) ∧
        Json.get var "unit" = .null ∧ Json.get var "value" = .null ∧ Json.get var "values" = .null
  | .artifactSeries =>
    (Json.get var "artifact_id").truthy = true ∧ IndexFits var ∧ (Json.get var "column_name").truthy = true ∧
      Json.get var "unit" = .null

end Variable

/-! ## Names -/

namespace Python

/-- The reserved words. -/
def keywords : List String :=
  ["False", "None", "True", "and", "as", "assert", "async", "await", "break", "class", "continue", "def", "del",
   "elif", "else", "except", "finally", "for", "from", "global", "if", "import", "in", "is", "lambda", "nonlocal",
   "not", "or", "pass", "raise", "return", "try", "while", "with", "yield"]

end Python

variable {F : Type}

/-- What the parser of Python does with names: an identifier has no line break, a word of ASCII letters, digits and
underscores is one, and such a word is a name in an expression unless it is reserved. -/
structure Parser.Python (P : Parser F) : Prop where
  oneLine : ∀ name, P.isIdentifier name = true → '\n' ∉ name.toList
  word : ∀ name, isVariableText name.toList = true → P.isIdentifier name = true
  names : ∀ text e, P.parse text = .ok e → ∀ id ∈ e.names, P.isIdentifier id = true ∧ id ∉ Python.keywords
  parseWord : ∀ name, isVariableText name.toList = true → name ∉ Python.keywords → P.parse name = .ok (.name name)

/-- An expression can use the name for a variable. -/
structure Usable (P : Parser F) (name : String) : Prop where
  parsed : ∃ text e, P.parse text = .ok e ∧ name ∈ e.names
  validated : checkName P.isIdentifier name = .ok ()
  -- `_visit_name` looks among the constants first
  visited : isConstantName name = false

/-- An ASCII word that is neither reserved nor the name of a constant. -/
def PlainName (name : String) : Prop :=
  isVariableText name.toList = true ∧ name ∉ Python.keywords ∧ isConstantName name = false

/-! ## Comparison -/

/-- The facade takes the object, and expressions can use its name. -/
def Taken (P : Parser F) (var : List (String × Json)) (pathPrefix : String) : Prop :=
  ∃ source, parseSource var pathPrefix = .ok source ∧ Usable P source.name

/-- The contract describes it, and the facade or the expressions refuse it: its name is no plain one, or its members
do not fit its source type. -/
def Overlooked (var : List (String × Json)) (name : String) (sourceType : SourceType) : Prop :=
  Typed var ∧ sourceType ≠ .artifactSeries ∧ ¬ (PlainName name ∧ Fits var sourceType)

/-- It is taken, and the contract does not describe it: the source type is not among those declared, or a member is
not of the type declared. -/
def Undeclared (var : List (String × Json)) (name : String) (sourceType : SourceType) : Prop :=
  PlainName name ∧ Fits var sourceType ∧ ¬ (Typed var ∧ sourceType ≠ .artifactSeries)

/-! ### The contract -/

theorem isDeclaredText_of_word : ∀ {cs : List Char}, isVariableText cs = true → isDeclaredText cs = true
  | [], h => h
  | c :: cs, h => by
    simp only [isVariableText, Bool.and_eq_true, List.all_eq_true] at h
    simp only [isDeclaredText, Bool.and_eq_true, List.all_eq_true, h.1.1, h.2, Bool.true_or, and_true, true_and]
    intro d hd
    rw [h.1.2 d hd, Bool.true_or]

theorem matchesPattern_of_word {name : String} (h : isVariableName name = true) :
    matchesVariableNamePattern name = true := by
  unfold isVariableName at h
  unfold matchesVariableNamePattern
  rw [Bool.or_eq_true, Bool.and_eq_true] at h ⊢
  exact h.imp isDeclaredText_of_word (And.imp_right isDeclaredText_of_word)

theorem SourceType.mem_declared_iff {text : String} :
    text ∈ ["scalar", "inline", "fact_series"] ↔ ∃ t, SourceType.ofText text = some t ∧ t ≠ .artifactSeries := by
  constructor
  · intro h
    simp only [List.mem_cons, List.not_mem_nil, or_false] at h
    rcases h with rfl | rfl | rfl
    · exact ⟨.scalar, rfl, by decide⟩
    · exact ⟨.inline, rfl, by decide⟩
    · exact ⟨.factSeries, rfl, by decide⟩
  · rintro ⟨t, ht, hne⟩
    unfold SourceType.ofText at ht
    split at ht <;> cases ht
    · decide
    · decide
    · decide
    · exact absurd rfl hne

theorem contract_iff {var : List (String × Json)} :
    variableSourceSchema.accepts (.obj var) = true ↔
      ∃ name t, Shaped var name t ∧ Typed var ∧ t ≠ .artifactSeries := by
  unfold variableSourceSchema anyString
  rw [Schema.accepts_object_iff]
  simp only [List.forall_mem_cons, Schema.accepts_string_iff, Schema.accepts_enum_iff, Schema.accepts_typed_iff,
    Schema.accepts_array_iff, Schema.accepts_natural_iff]
  constructor
  · rintro ⟨hkeys, ⟨hname, hsource, -⟩, hnamed, htype, hvalue, hvalues, hunit, hfact, hartifact, hindex, hcolumn, -⟩
    obtain ⟨v, hv⟩ := Option.isSome_iff_exists.mp hname
    obtain ⟨name, rfl, hpattern, -⟩ := hnamed v hv
    obtain ⟨w, hw⟩ := Option.isSome_iff_exists.mp hsource
    obtain ⟨text, htext, rfl⟩ := htype w hw
    obtain ⟨t, ht, hdeclared⟩ := SourceType.mem_declared_iff.mp htext
    refine ⟨name, t, ⟨hkeys, hv, hpattern, text, hw, ht⟩, ?_, hdeclared⟩
    constructor
    · intro v hv
      simpa using hvalue v hv
    · intro v hv
      obtain ⟨xs, rfl, hxs⟩ := hvalues v hv
      refine ⟨xs, rfl, fun x hx => (by simpa using hxs x hx : _ ∨ _).imp id ?_⟩
      intro hnull
      cases x with
      | null => rfl
      | _ => cases hnull
    · intro v hv
      obtain ⟨s, rfl, -, -, hlength⟩ := hunit v hv
      exact ⟨s, rfl, hlength 64 rfl⟩
    · intro v hv
      obtain ⟨s, rfl, -⟩ := hfact v hv
      exact ⟨s, rfl⟩
    · intro v hv
      obtain ⟨s, rfl, -⟩ := hartifact v hv
      exact ⟨s, rfl⟩
    · exact hindex
    · intro v hv
      obtain ⟨s, rfl, -, hmin, hmax⟩ := hcolumn v hv
      exact ⟨s, rfl, hmin, hmax 128 rfl⟩
  · rintro ⟨name, t, ⟨hkeys, hnamed, hpattern, text, htext, ht⟩, htyped, hdeclared⟩
    refine ⟨hkeys, ⟨?_, ?_, nofun⟩, ?_, ?_, ?_, ?_, ?_, ?_, ?_, ?_, ?_, nofun⟩
    · exact Option.isSome_of_mem hnamed
    · exact Option.isSome_of_mem htext
    · intro v hv
      cases hnamed.symm.trans hv
      exact ⟨name, rfl, hpattern, Nat.zero_le _, nofun⟩
    · intro v hv
      cases htext.symm.trans hv
      exact ⟨text, SourceType.mem_declared_iff.mpr ⟨t, ht, hdeclared⟩, rfl⟩
    · intro v hv
      exact ⟨.number, List.mem_singleton_self _, htyped.value v hv⟩
    · intro v hv
      obtain ⟨xs, rfl, hxs⟩ := htyped.values v hv
      refine ⟨xs, rfl, fun x hx => ?_⟩
      rcases hxs x hx with hnumber | rfl
      · exact ⟨.number, List.mem_cons_self, hnumber⟩
      · exact ⟨.null, List.mem_cons_of_mem _ List.mem_cons_self, rfl⟩
    · intro v hv
      obtain ⟨s, rfl, hlength⟩ := htyped.unit v hv
      refine ⟨s, rfl, trivial, Nat.zero_le _, ?_⟩
      rintro _ ⟨⟩
      exact hlength
    · intro v hv
      obtain ⟨s, rfl⟩ := htyped.factId v hv
      exact ⟨s, rfl, trivial, Nat.zero_le _, nofun⟩
    · intro v hv
      obtain ⟨s, rfl⟩ := htyped.artifactId v hv
      exact ⟨s, rfl, trivial, Nat.zero_le _, nofun⟩
    · exact htyped.seriesIndex
    · intro v hv
      obtain ⟨s, rfl, hmin, hmax⟩ := htyped.columnName v hv
      refine ⟨s, rfl, trivial, hmin, ?_⟩
      rintro _ ⟨⟩
      exact hmax

/-! ### The facade -/

section Facade

variable {var : List (String × Json)} {path : String}

theorem then_ok {α : Type} {x : Except Exn Unit} {y : Except Exn α} {a : α} :
    (x >>= fun _ => y) = .ok a ↔ x = .ok () ∧ y = .ok a := by
  rw [bind_ok_iff]
  exact ⟨fun ⟨_, hx, hy⟩ => ⟨hx, hy⟩, fun ⟨hx, hy⟩ => ⟨(), hx, hy⟩⟩

theorem isNone_iff {v : Json} : v.isNone = true ↔ v = .null := by
  cases v <;> simp [Json.isNone]

theorem isNone_eq_false_iff {v : Json} : v.isNone = false ↔ v ≠ .null := by
  rw [← Bool.not_eq_true, isNone_iff]

theorem checkUnit_ok : checkUnit var path = .ok () ↔ UnitFits var := by
  unfold checkUnit UnitFits
  cases Json.get var "unit" with
  | null => simp
  | str s => simp [raiseIf_ok]
  | _ => simp

theorem checkSeriesIndex_ok : checkSeriesIndex var path = .ok () ↔ IndexFits var := by
  unfold checkSeriesIndex IndexFits
  rw [raiseIf_ok]
  cases Json.get var "series_index" with
  | int n | _ => simp [Json.asInt]

theorem column_iff :
    (Json.get var "column_name").asStr.any (fun s => 1 ≤ s.length && s.length ≤ 128) = true ↔
      ∃ s, Json.get var "column_name" = .str s ∧ 1 ≤ s.length ∧ s.length ≤ 128 := by
  cases Json.get var "column_name" with
  | str s | _ => simp [Json.asStr]

theorem IndexFits.ne_null (h : IndexFits var) : Json.get var "series_index" ≠ .null := by
  obtain ⟨n, hn, _⟩ := h
  rw [hn]
  nofun

theorem truthy_of_column {s : String} (h : Json.get var "column_name" = .str s) (hs : 1 ≤ s.length) :
    (Json.get var "column_name").truthy = true := by
  rw [h, Json.truthy, bne_iff_ne]
  rintro rfl
  exact absurd hs (by decide)

theorem checkFields_ok {t : SourceType} :
    checkFields var path t = .ok () ∧ checkUnit var path = .ok () ↔ Fits var t := by
  rw [checkUnit_ok]
  cases t with
  | scalar =>
    unfold checkFields checkScalar Fits
    simp only [then_ok, raiseIf_ok, Bool.not_eq_false', isNone_iff, isNone_eq_false_iff, and_assoc]
  | inline =>
    unfold checkFields checkInline Fits
    simp only [then_ok, raiseIf_ok, Bool.not_eq_false', isNone_iff, isNone_eq_false_iff, and_assoc]
  | factSeries =>
    unfold checkFields checkFactSeries checkPlatform Fits
    simp only [then_ok, raiseIf_ok, Bool.or_eq_false_iff, Bool.not_eq_false', isNone_iff, isNone_eq_false_iff,
      checkSeriesIndex_ok, column_iff]
    constructor
    · rintro ⟨⟨⟨hfact, -, -, hunit⟩, ⟨hvalue, hvalues⟩, hindex, hcolumn⟩, -⟩
      exact ⟨hfact, hindex, hcolumn, hunit, hvalue, hvalues⟩
    · rintro ⟨hfact, hindex, ⟨s, hs, hlength⟩, hunit, hvalue, hvalues⟩
      exact ⟨⟨⟨hfact, hindex.ne_null, truthy_of_column hs hlength.1, hunit⟩, ⟨hvalue, hvalues⟩, hindex, s, hs, hlength⟩,
        .inl hunit⟩
  | artifactSeries =>
    unfold checkFields checkArtifactSeries checkPlatform Fits
    simp only [then_ok, raiseIf_ok, Bool.not_eq_false', isNone_iff, isNone_eq_false_iff, checkSeriesIndex_ok]
    constructor
    · rintro ⟨⟨⟨hartifact, -, hcolumn, hunit⟩, hindex⟩, -⟩
      exact ⟨hartifact, hindex, hcolumn, hunit⟩
    · rintro ⟨hartifact, hindex, hcolumn, hunit⟩
      exact ⟨⟨⟨hartifact, hindex.ne_null, hcolumn, hunit⟩, hindex⟩, .inl hunit⟩

theorem asStr_get {key s : String} : (Json.get var key).asStr = some s ↔ var.lookup key = some (.str s) := by
  unfold Json.get
  cases var.lookup key with
  | none => exact iff_of_false nofun nofun
  | some v => cases v <;> simp [Json.asStr]

/-- The fields that are not known: there are none exactly if every key is a known one. -/
theorem unknown_iff :
    ((var.map Prod.fst).filter (fun key => !allowedKeys.contains key)).isEmpty = true ↔
      ∀ key ∈ var.map Prod.fst, key ∈ allowedKeys := by
  rw [List.isEmpty_iff, List.filter_eq_nil_iff]
  refine forall_congr' fun key => imp_congr_right fun _ => ?_
  rw [Bool.not_eq_true, Bool.not_eq_false', List.contains_iff_mem]

theorem parseSource_iff {name : String} {t : SourceType} :
    (∃ source, parseSource var path = .ok source ∧ source.name = name ∧ source.sourceType = t) ↔
      (∀ key ∈ var.map Prod.fst, key ∈ allowedKeys) ∧ var.lookup "name" = some (.str name) ∧
        isVariableName name = true ∧ (∃ text, var.lookup "source_type" = some (.str text) ∧
          SourceType.ofText text = some t) ∧ Fits var t := by
  unfold parseSource
  simp only [then_ok, raiseIf_ok, Bool.not_eq_false', unknown_iff, bind_ok_iff (f := fun (x : String) => _),
    bind_ok_iff (f := fun (x : SourceType) => _), require_ok, asStr_get, Option.bind_eq_some_iff]
  constructor
  · rintro ⟨source, ⟨hkeys, name', hname, -, hvalid, t', ⟨text, htext, ht⟩, hfields, hunit, hok⟩, rfl, rfl⟩
    obtain rfl := Except.ok.inj hok
    exact ⟨hkeys, hname, hvalid, ⟨text, htext, ht⟩, checkFields_ok.mp ⟨hfields, hunit⟩⟩
  · rintro ⟨hkeys, hname, hvalid, ⟨text, htext, ht⟩, hfits⟩
    obtain ⟨hfields, hunit⟩ := (@checkFields_ok _ path _).mpr hfits
    have hlength : (name.length == 0) = false := by
      refine beq_false_of_ne fun hzero => ?_
      rw [String.length_eq_zero_iff.mp hzero] at hvalid
      cases hvalid
    exact ⟨_, ⟨hkeys, name, hname, hlength, hvalid, t, ⟨text, htext, ht⟩, hfields, hunit, rfl⟩, rfl, rfl⟩

end Facade

/-! ### Names -/

section Names

variable {P : Parser F} {name : String}

theorem checkName_ok : checkName P.isIdentifier name = .ok () ↔
    (Func.ofName name).isSome = true ∨ isConstantName name = true ∨ P.isIdentifier name = true := by
  unfold checkName
  cases (Func.ofName name) with
  | none => cases isConstantName name <;> cases P.isIdentifier name <;> simp [reject]
  | some f => simp

theorem plainName_iff (hP : P.Python) : isVariableName name = true ∧ Usable P name ↔ PlainName name := by
  constructor
  · rintro ⟨hvalid, ⟨⟨text, e, hparse, hmem⟩, -, hvisited⟩⟩
    obtain ⟨hidentifier, hkeyword⟩ := hP.names text e hparse name hmem
    refine ⟨?_, hkeyword, hvisited⟩
    rcases Bool.or_eq_true_iff.mp hvalid with hword | hline
    · exact hword
    · -- the line break at the end is in no identifier
      have hlast := eq_of_beq (Bool.and_eq_true_iff.mp hline).1
      exact absurd (List.mem_of_getLast? hlast) (hP.oneLine name hidentifier)
  · rintro ⟨hword, hkeyword, hvisited⟩
    refine ⟨Bool.or_eq_true_iff.mpr (.inl hword), ⟨name, .name name, hP.parseWord name hword hkeyword, ?_⟩,
      checkName_ok.mpr (.inr (.inr (hP.word name hword))), hvisited⟩
    exact List.mem_singleton_self name

theorem taken_iff (hP : P.Python) {var : List (String × Json)} {path : String} :
    Taken P var path ↔ ∃ name t, Shaped var name t ∧ PlainName name ∧ Fits var t := by
  constructor
  · rintro ⟨source, hparse, husable⟩
    obtain ⟨hkeys, hname, hvalid, hsource, hfits⟩ := parseSource_iff.mp ⟨source, hparse, rfl, rfl⟩
    exact ⟨source.name, source.sourceType, ⟨hkeys, hname, matchesPattern_of_word hvalid, hsource⟩,
      (plainName_iff hP).mp ⟨hvalid, husable⟩, hfits⟩
  · rintro ⟨name, t, hshaped, hplain, hfits⟩
    obtain ⟨hvalid, husable⟩ := (plainName_iff hP).mpr hplain
    obtain ⟨source, hparse, rfl, rfl⟩ := (@parseSource_iff _ path _ _).mpr
      ⟨hshaped.keys, hshaped.named, hvalid, hshaped.source, hfits⟩
    exact ⟨source, hparse, husable⟩

end Names

/-! ### The two together -/

theorem Shaped.unique {var : List (String × Json)} {n n' : String} {t t' : SourceType} (h : Shaped var n t)
    (h' : Shaped var n' t') : n = n' ∧ t = t' := by
  cases h.named.symm.trans h'.named
  obtain ⟨text, htext, ht⟩ := h.source
  obtain ⟨text', htext', ht'⟩ := h'.source
  cases htext.symm.trans htext'
  exact ⟨rfl, Option.some.inj (ht.symm.trans ht')⟩

/-- **Contract and facade.** They accept the same object exactly where nothing is overlooked and nothing undeclared. -/
theorem sameVariables_iff {P : Parser F} (hP : P.Python) (var : List (String × Json)) (path : String) :
    (variableSourceSchema.accepts (.obj var) = true ↔ Taken P var path) ↔
      ∀ name t, Shaped var name t → ¬ Overlooked var name t ∧ ¬ Undeclared var name t := by
  rw [contract_iff, taken_iff hP]
  constructor
  · intro hsame name t hshaped
    constructor
    · rintro ⟨htyped, hdeclared, hnot⟩
      obtain ⟨_, _, hshaped', hplain, hfits⟩ := hsame.mp ⟨name, t, hshaped, htyped, hdeclared⟩
      obtain ⟨rfl, rfl⟩ := hshaped.unique hshaped'
      exact hnot ⟨hplain, hfits⟩
    · rintro ⟨hplain, hfits, hnot⟩
      obtain ⟨_, _, hshaped', htyped, hdeclared⟩ := hsame.mpr ⟨name, t, hshaped, hplain, hfits⟩
      obtain ⟨rfl, rfl⟩ := hshaped.unique hshaped'
      exact hnot ⟨htyped, hdeclared⟩
  · intro hneither
    constructor
    · rintro ⟨name, t, hshaped, htyped, hdeclared⟩
      by_contra hnot
      exact (hneither name t hshaped).1 ⟨htyped, hdeclared, fun h => hnot ⟨name, t, hshaped, h.1, h.2⟩⟩
    · rintro ⟨name, t, hshaped, hplain, hfits⟩
      by_contra hnot
      exact (hneither name t hshaped).2 ⟨hplain, hfits, fun h => hnot ⟨name, t, hshaped, h.1, h.2⟩⟩

/-- A parser that reads single words. -/
def words : Parser ℚ where
  parse text := if isVariableText text.toList ∧ text ∉ Python.keywords then .ok (.name text) else .error "invalid syntax"
  isIdentifier name := isVariableText name.toList

theorem isVariableText_oneLine : ∀ {cs : List Char}, isVariableText cs = true → '\n' ∉ cs
  | [], h => nofun
  | c :: cs, h => by
    simp only [isVariableText, Bool.and_eq_true, List.all_eq_true] at h
    intro hmem
    rcases List.mem_cons.mp hmem with rfl | hmem
    · exact absurd h.1.1 (by decide)
    · exact absurd (h.1.2 _ hmem) (by decide)

theorem words_python : words.Python where
  oneLine name h := isVariableText_oneLine h
  word name h := h
  names text e h id hid := by
    unfold words at h
    simp only at h
    split at h
    · next hword =>
        obtain rfl := Except.ok.inj h
        obtain rfl := List.mem_singleton.mp hid
        exact hword
    · cases h
  parseWord name hword hkeyword := if_pos ⟨hword, hkeyword⟩

/-- The object for a scalar 1. -/
def scalarVariable (name : String) : List (String × Json) :=
  [("name", .str name), ("source_type", .str "scalar"), ("value", .int 1)]

/-- The variable `x`. -/
theorem sameVariables_iff_x :
    variableSourceSchema.accepts (.obj (scalarVariable "x")) = true ↔
      Taken words (scalarVariable "x") "variables[0]" := by
  refine (sameVariables_iff words_python _ _).mpr ?_
  have hfits : PlainName "x" ∧ Fits (scalarVariable "x") .scalar :=
    ⟨⟨by decide, by decide +kernel, by decide⟩, nofun, rfl, by decide +kernel, .inl rfl⟩
  have htyped : Typed (scalarVariable "x") := by
    constructor
    · rintro _ ⟨⟩
      rfl
    all_goals exact nofun
  rintro name t ⟨-, hname, -, text, htext, ht⟩
  cases hname
  cases htext
  cases ht
  exact ⟨fun h => h.2.2 hfits, fun h => h.2.2 ⟨htyped, nofun⟩⟩

/-- **A name in Chinese.** The contract describes the variable, and the facade refuses it. -/
theorem not_sameVariables :
    ¬ ∀ (P : Parser ℚ) (var : List (String × Json)) (path : String), P.Python →
      (variableSourceSchema.accepts (.obj var) = true ↔ Taken P var path) := by
  intro hall
  obtain ⟨source, hparse, _⟩ := (hall words (scalarVariable "氧化钙") "variables[0]" words_python).mp (by decide +kernel)
  cases hparse

end Irip.Numeric
