import Irip.Base.Json

/-!
# `Base.JsonSchema` — the part of JSON Schema that describes the arguments of tools

A value of a type JSON does not have is of no type here. A `format` is an annotation, rejects nothing and is left out.
-/

/-! ## Types -/

inductive JsonType where
  | null | boolean | integer | number | string | array | object
  deriving DecidableEq

namespace Json

/-- `x.is_integer()` of a float, read off its shortest text: the exponent is positive, or the fraction is `.0`. -/
def isIntegerText (repr : String) : Bool :=
  let chars := repr.toList
  if chars.contains 'e' then !(['e', '-'].isPrefixOf (chars.dropWhile (· != 'e')))
  else ['0', '.'].isPrefixOf chars.reverse

def hasType : Json → JsonType → Bool
  | .null, .null => true
  | .bool _, .boolean => true
  | .int _, .integer => true
  | .int _, .number => true
  | .float _, .number => true
  -- an integer is a number without a fraction, however it is written
  | .float r, .integer => isIntegerText r
  | .str _, .string => true
  | .arr _, .array => true
  | .obj _, .object => true
  | _, _ => false

/-- The sign of a number is not negative. -/
def isNonnegative : Json → Bool
  | .int n => 0 ≤ n
  | .float r => r == "-0.0" || !(['-'].isPrefixOf r.toList)
  | _ => false

end Json

/-! ## Schemas -/

/-- A schema: a type with the keywords for it. -/
inductive Schema where
  /-- `{"type": types}`. -/
  | typed (types : List JsonType)
  /-- `{"type": "string", "enum": options}`. -/
  | enum (options : List String)
  | string (pattern : String → Bool) (minLength : Nat) (maxLength : Option Nat)
  /-- `{"type": "integer", "minimum": 0}`. -/
  | natural
  | array (items : Schema)
  /-- With `"additionalProperties": false`. -/
  | object (properties : List (String × Schema)) (required : List String)

namespace Schema

mutual

def accepts : Schema → Json → Bool
  | .typed types, v => types.any v.hasType
  | .enum options, .str s => options.contains s
  | .string pattern minLength maxLength, .str s =>
    pattern s && decide (minLength ≤ s.length) && maxLength.all (fun n => s.length ≤ n)
  | .natural, v => v.hasType .integer && v.isNonnegative
  | .array items, .arr xs => xs.all (accepts items)
  | .object properties required, .obj fs =>
    (fs.map Prod.fst).all (fun key => (properties.map Prod.fst).contains key) &&
      required.all (fun key => (fs.lookup key).isSome) && acceptsMembers properties fs
  | _, _ => false

/-- The members that are given are accepted by their schemas. -/
def acceptsMembers : List (String × Schema) → List (String × Json) → Bool
  | [], _ => true
  | (key, s) :: properties, fs => (fs.lookup key).all (accepts s) && acceptsMembers properties fs

end

attribute [local simp] accepts acceptsMembers

/-! ## Rules -/

theorem acceptsMembers_iff {properties : List (String × Schema)} {fs : List (String × Json)} :
    acceptsMembers properties fs = true ↔
      ∀ p ∈ properties, ∀ v, fs.lookup p.1 = some v → p.2.accepts v = true := by
  induction properties with
  | nil => exact iff_of_true rfl (List.forall_mem_nil _)
  | cons p properties ih =>
    rw [acceptsMembers, Bool.and_eq_true, ih, List.forall_mem_cons, Option.all_eq_true]

theorem accepts_object_iff {properties : List (String × Schema)} {required : List String}
    {fs : List (String × Json)} :
    (object properties required).accepts (.obj fs) = true ↔
      (∀ key ∈ fs.map Prod.fst, key ∈ properties.map Prod.fst) ∧ (∀ key ∈ required, (fs.lookup key).isSome = true) ∧
        ∀ p ∈ properties, ∀ v, fs.lookup p.1 = some v → p.2.accepts v = true := by
  rw [accepts, Bool.and_eq_true, Bool.and_eq_true, acceptsMembers_iff, List.all_eq_true, List.all_eq_true, and_assoc]
  simp only [List.contains_iff_mem]

theorem accepts_enum_iff {options : List String} {v : Json} :
    (enum options).accepts v = true ↔ ∃ s ∈ options, v = .str s := by
  cases v with
  | str s =>
    rw [accepts, List.contains_iff_mem]
    constructor
    · exact fun hs => ⟨s, hs, rfl⟩
    · rintro ⟨_, hs, heq⟩
      cases heq
      exact hs
  | _ => simp

theorem accepts_string_iff {pattern : String → Bool} {minLength : Nat} {maxLength : Option Nat} {v : Json} :
    (string pattern minLength maxLength).accepts v = true ↔
      ∃ s, v = .str s ∧ pattern s = true ∧ minLength ≤ s.length ∧ ∀ n, maxLength = some n → s.length ≤ n := by
  cases v with
  | str s => simp [and_assoc, Option.all_eq_true]
  | _ => simp

theorem accepts_natural_iff {v : Json} :
    natural.accepts v = true ↔ v.hasType .integer = true ∧ v.isNonnegative = true := by
  rw [accepts, Bool.and_eq_true]

theorem accepts_array_iff {items : Schema} {v : Json} :
    (array items).accepts v = true ↔ ∃ xs, v = .arr xs ∧ ∀ x ∈ xs, items.accepts x = true := by
  cases v with
  | arr xs | _ => simp

theorem accepts_typed_iff {types : List JsonType} {v : Json} :
    (typed types).accepts v = true ↔ ∃ t ∈ types, v.hasType t = true := by
  rw [accepts, List.any_eq_true]

end Schema
