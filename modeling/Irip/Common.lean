import Irip.Base.Json

/-!
# `Common` — what every package of the platform shares

The application error, instants in microseconds, the tests of texts and the identifiers.
-/

namespace Irip

/-! ## Errors -/

/-- An expected business error. -/
structure AppError where
  code : String
  message : String
  retryable : Bool := false
  fields : List (String × Json) := []

/-- The serialised error: exactly these four keys. -/
def AppError.toDict (e : AppError) : Json :=
  .obj [("code", .str e.code), ("message", .str e.message), ("retryable", .bool e.retryable),
        ("fields", .obj e.fields)]

/-! ## Time -/

/-- An instant, in microseconds. -/
abbrev Time := Int

/-- `timedelta(seconds=n)`. -/
def seconds (n : Nat) : Int := 1000000 * n

/-! ## Text -/

/-- The characters `str.strip` removes. -/
def isSpace (c : Char) : Bool :=
  let n := c.toNat
  (9 ≤ n && n ≤ 13) || (28 ≤ n && n ≤ 32) || n == 0x85 || n == 0xa0 || n == 0x1680
    || (0x2000 ≤ n && n ≤ 0x200a) || n == 0x2028 || n == 0x2029 || n == 0x202f || n == 0x205f
    || n == 0x3000

/-- `not s or not s.strip()`. -/
def isBlank (s : String) : Bool := s.toList.all isSpace

def strip (text : String) : String :=
  String.ofList ((text.toList.dropWhile isSpace).reverse.dropWhile isSpace).reverse

/-- The digits of `int(·)`, with single underscores between them. -/
def intDigits : List Char → Bool → Nat → Option Nat
  | [], afterDigit, acc => if afterDigit then some acc else none
  | c :: cs, afterDigit, acc =>
    if c.isDigit then intDigits cs true (acc * 10 + (c.toNat - 48))
    else if c = '_' ∧ afterDigit then intDigits cs false acc
    else none

/-- `int(·)` of a text. -/
def pyInt? (text : String) : Option Int :=
  match (strip text).toList with
  | '-' :: cs => (intDigits cs false 0).map (fun n => -(n : Int))
  | '+' :: cs => (intDigits cs false 0).map (fun n => (n : Int))
  | cs => (intDigits cs false 0).map (fun n => (n : Int))

/-- `text.encode("utf-8")`. -/
def utf8 (text : String) : List UInt8 := text.toByteArray.data.toList

/-! ## Identifiers -/

/-- A UUID, as its canonical text. -/
abbrev Uuid := String

end Irip
