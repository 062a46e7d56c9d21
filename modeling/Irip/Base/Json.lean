import Mathlib.Data.List.Sort

/-!
# `Base.Json` — JSON values and their canonical text

The values Python's `json` module reads and writes, with the text `json.dumps` produces for them under
`sort_keys=True, ensure_ascii=False, default=str` and the default separators.
-/

/-- A JSON value, or another Python value together with the JSON value `json` writes for it. -/
inductive Json where
  | null
  | bool (b : Bool)
  | int (i : Int)
  | float (repr : String)
  | str (s : String)
  | arr (items : List Json)
  | obj (fields : List (String × Json))
  | other (written : Json)

namespace Json

/-! ## Truth values -/

/-- Python's truth value: empty containers, zeros, `False` and `None` are false. -/
def truthy : Json → Bool
  | .null => false
  | .bool b => b
  | .int i => i != 0
  | .float r => r != "0.0" && r != "-0.0"
  | .str s => s != ""
  | .arr xs => !xs.isEmpty
  | .obj fs => !fs.isEmpty
  | .other _ => true

/-! ## Round trip -/

mutual

/-- `json.loads(json.dumps(·, default=str))`. -/
def plain : Json → Json
  | .arr xs => .arr (plainItems xs)
  | .obj fs => .obj (plainFields fs)
  | .other v => plain v
  | v => v

/-- `plain` of every item of an array. -/
def plainItems : List Json → List Json
  | [] => []
  | x :: xs => plain x :: plainItems xs

/-- `plain` of every member of an object. -/
def plainFields : List (String × Json) → List (String × Json)
  | [] => []
  | (k, v) :: fs => (k, plain v) :: plainFields fs

end

/-! ## Canonical text -/

/-- `xs` joined by the separator `sep`. -/
def joinWith (sep : List Char) : List (List Char) → List Char
  | [] => []
  | [x] => x
  | x :: xs => x ++ sep ++ joinWith sep xs

/-- One hexadecimal digit, lower case. -/
def hexChar (n : Nat) : Char := "0123456789abcdef".toList.getD (n % 16) '0'

/-- The escape of one character: the two-character escapes, `\u00xx` for the other control characters,
and the character itself otherwise. -/
def escapeChar (c : Char) : List Char :=
  if c = '"' then ['\\', '"']
  else if c = '\\' then ['\\', '\\']
  else if c = '\n' then ['\\', 'n']
  else if c = '\r' then ['\\', 'r']
  else if c = '\t' then ['\\', 't']
  else if c.toNat = 8 then ['\\', 'b']
  else if c.toNat = 12 then ['\\', 'f']
  else if c.toNat < 32 then ['\\', 'u', '0', '0', hexChar (c.toNat / 16), hexChar c.toNat]
  else [c]

/-- A string literal with its quotes. -/
def quote (s : String) : List Char := '"' :: s.toList.flatMap escapeChar ++ ['"']

mutual

/-- The characters of `json.dumps(·, sort_keys=True, ensure_ascii=False, default=str)`. -/
def chars : Json → List Char
  | .null => "null".toList
  | .bool b => if b then "true".toList else "false".toList
  | .int i => (toString i).toList
  | .float r => r.toList
  | .str s => quote s
  | .arr xs => '[' :: joinWith ", ".toList (charsItems xs) ++ [']']
  | .obj fs =>
    let members := (charsFields fs).insertionSort (fun p q => p.1 ≤ q.1)
    '{' :: joinWith ", ".toList (members.map (fun p => quote p.1 ++ ": ".toList ++ p.2)) ++ ['}']
  | .other v => chars v

/-- `chars` of every item of an array. -/
def charsItems : List Json → List (List Char)
  | [] => []
  | x :: xs => chars x :: charsItems xs

/-- `chars` of every member value of an object, with its key. -/
def charsFields : List (String × Json) → List (String × List Char)
  | [] => []
  | (k, v) :: fs => (k, chars v) :: charsFields fs

end

def dumps (j : Json) : String := String.ofList j.chars

/-- Members are written in key order, whatever order they were inserted in. -/
example : (obj [("b", .int (-12)), ("a", .arr [.null, .str "x\n"])]).dumps
    = "\x7b\"a\": [null, \"x\\n\"], \"b\": -12\x7d" := by decide

/-! ## Python text -/

mutual

/-- `repr(·)` of a decoded value. A string is put in quotes as it is. -/
def pyRepr : Json → String
  | .null => "None"
  | .bool b => if b then "True" else "False"
  | .int i => toString i
  | .float r => r
  | .str s => "'" ++ s ++ "'"
  | .arr xs => "[" ++ ", ".intercalate (pyReprItems xs) ++ "]"
  | .obj fs => "\x7b" ++ ", ".intercalate (pyReprFields fs) ++ "\x7d"
  | .other v => pyRepr v

/-- `pyRepr` of every item of an array. -/
def pyReprItems : List Json → List String
  | [] => []
  | x :: xs => pyRepr x :: pyReprItems xs

/-- `pyRepr` of every member of an object. -/
def pyReprFields : List (String × Json) → List String
  | [] => []
  | (k, v) :: fs => ("'" ++ k ++ "': " ++ pyRepr v) :: pyReprFields fs

end

/-- `str(·)` of a decoded value, as an f-string prints it. -/
def pyStr : Json → String
  | .str s => s
  | v => pyRepr v

/-- `·.get(key)` of a decoded object: a missing member is `None`. -/
def get (fields : List (String × Json)) (key : String) : Json := (fields.lookup key).getD .null

/-- The string a value is. -/
def asStr : Json → Option String
  | .str s => some s
  | _ => none

/-- The integer a value is. -/
def asInt : Json → Option Int
  | .int i => some i
  | _ => none

/-- The items of the array a value is. -/
def asArr : Json → Option (List Json)
  | .arr xs => some xs
  | _ => none

/-- `· is None`. -/
def isNone : Json → Bool
  | .null => true
  | _ => false

end Json
