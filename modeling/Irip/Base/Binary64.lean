import Mathlib.Algebra.Order.Field.Rat
import Mathlib.Data.Int.Log
import Mathlib.Data.Rat.Floor
import Mathlib.Order.WithBot
import Mathlib.Tactic.Linarith
import Mathlib.Tactic.Positivity

/-!
# `Base.Binary64` — binary floating-point numbers, and the texts of decimal ones

A format is given by its precision and the range of its exponents. A rational number is rounded to the nearest number of the
format, ties to the even significand, and to an infinity if it is too large. A zero has no sign here.
-/

/-! ## Numbers -/

/-- A floating-point number by its value. -/
inductive FloatNum where
  | nan
  | val (x : WithBot (WithTop ℚ))
  deriving DecidableEq

namespace FloatNum

/-- A finite number. -/
def fin (q : ℚ) : FloatNum := .val ((q : WithTop ℚ) : WithBot (WithTop ℚ))

def inf : FloatNum := .val ((⊤ : WithTop ℚ) : WithBot (WithTop ℚ))

def negInf : FloatNum := .val ⊥

def isFinite : FloatNum → Bool
  | .val x => decide (x ≠ ⊥ ∧ x ≠ ((⊤ : WithTop ℚ) : WithBot (WithTop ℚ)))
  | .nan => false

/-- `a < b`; a NaN is neither less nor greater than any number. -/
def lt : FloatNum → FloatNum → Bool
  | .val x, .val y => decide (x < y)
  | _, _ => false

theorem lt_trans {a b c : FloatNum} (hab : a.lt b = true) (hbc : b.lt c = true) : a.lt c = true := by
  cases a with
  | nan => cases hab
  | val x =>
    cases b with
    | nan => cases hab
    | val y =>
      cases c with
      | nan => cases hbc
      | val z => exact decide_eq_true ((of_decide_eq_true hab).trans (of_decide_eq_true hbc))

theorem lt_irrefl (a : FloatNum) : a.lt a = false := by
  cases a with
  | nan => rfl
  | val x => exact decide_eq_false (fun h => h.ne rfl)

theorem isFinite_iff {x : FloatNum} : x.isFinite = true ↔ ∃ q, x = .fin q := by
  constructor
  · intro h
    cases x with
    | nan => cases h
    | val x =>
      obtain ⟨hbot, htop⟩ := of_decide_eq_true h
      obtain ⟨y, rfl⟩ := WithBot.ne_bot_iff_exists.mp hbot
      obtain ⟨q, rfl⟩ := WithTop.ne_top_iff_exists.mp (fun hy => htop (congrArg _ hy))
      exact ⟨q, rfl⟩
  · rintro ⟨q, rfl⟩
    simp [isFinite, fin]

end FloatNum

/-! ## Formats -/

/-- A binary format: how many bits its significands have, the exponent of its least positive number, and the exponent from
which on numbers are too large. -/
structure FloatFormat where
  precision : ℕ
  minExp : ℤ
  maxExp : ℤ
  pos : 0 < precision

/-- The format of Python's `float`. -/
def binary64 : FloatFormat := ⟨53, -1074, 1024, by decide⟩

/-! ## Rounding -/

/-- The nearest integer, the even one of two. -/
def roundEven (q : ℚ) : ℤ :=
  if q - ⌊q⌋ < 1 / 2 then ⌊q⌋
  else if 1 / 2 < q - ⌊q⌋ then ⌊q⌋ + 1
  else if ⌊q⌋ % 2 = 0 then ⌊q⌋
  else ⌊q⌋ + 1

namespace FloatFormat

variable (F : FloatFormat)

/-- The exponent of the last bit of a number. -/
def exponent (q : ℚ) : ℤ := max (Int.log 2 |q| + 1 - F.precision) F.minExp

/-- The nearest number of the format, without an upper bound. -/
def round (q : ℚ) : ℚ := roundEven (q / 2 ^ F.exponent q) * 2 ^ F.exponent q

/-- The number of the format that a rational number is rounded to. -/
def ofRat (q : ℚ) : FloatNum :=
  if 2 ^ F.maxExp ≤ F.round q then .inf
  else if F.round q ≤ -2 ^ F.maxExp then .negInf
  else .fin (F.round q)

end FloatFormat

/-! ## Texts -/

/-- The text without its underscores, which stand between two digits; `prev` is the character before it. -/
def dropUnderscores (prev : Char) : List Char → Option (List Char)
  | [] => if prev = '_' then none else some []
  | c :: cs =>
    if c = '_' then if prev.isDigit then dropUnderscores c cs else none
    else if prev = '_' ∧ ¬ c.isDigit then none
    else (dropUnderscores c cs).map (c :: ·)

/-- Whether a minus sign comes first, and what follows the sign. -/
def splitSign : List Char → Bool × List Char
  | '-' :: cs => (true, cs)
  | '+' :: cs => (false, cs)
  | cs => (false, cs)

/-- The exponent behind the digits. -/
def parseExponent : List Char → Option ℤ
  | [] => some 0
  | c :: cs =>
    let (negative, digits) := splitSign cs
    if c.toLower = 'e' ∧ digits ≠ [] ∧ digits.all Char.isDigit then
      let n : ℤ := Nat.ofDigitChars 10 digits 0
      some (if negative then -n else n)
    else none

/-- The number that digits with a point and an exponent stand for. -/
def parseDecimal (cs : List Char) : Option ℚ :=
  let whole := cs.takeWhile Char.isDigit
  let rest := cs.dropWhile Char.isDigit
  let (part, rest) := if rest.head? = some '.' then (rest.tail.takeWhile Char.isDigit, rest.tail.dropWhile Char.isDigit)
    else ([], rest)
  if whole = [] ∧ part = [] then none
  else (parseExponent rest).map (fun e => (Nat.ofDigitChars 10 (whole ++ part) 0 : ℚ) * 10 ^ (e - (part.length : ℤ)))

/-- `float(·)` of a text without blanks around it. -/
def parseFloat (cs : List Char) : Option FloatNum :=
  (dropUnderscores ' ' cs).bind fun cs =>
    let (negative, body) := splitSign cs
    let name := String.ofList (body.map Char.toLower)
    if name = "inf" ∨ name = "infinity" then some (if negative then .negInf else .inf)
    else if name = "nan" then some .nan
    else (parseDecimal body).map (fun q => binary64.ofRat (if negative then -q else q))

/-! ## Numbers of the format -/

theorem two_zpow_pos (e : ℤ) : (0 : ℚ) < 2 ^ e := zpow_pos (by norm_num) e

theorem floor_le_roundEven (q : ℚ) : ⌊q⌋ ≤ roundEven q ∧ roundEven q ≤ ⌊q⌋ + 1 := by
  unfold roundEven
  split
  · exact ⟨le_refl _, by omega⟩
  · split
    · exact ⟨by omega, le_refl _⟩
    · split
      · exact ⟨le_refl _, by omega⟩
      · exact ⟨by omega, le_refl _⟩

namespace FloatFormat

variable {F : FloatFormat}

end FloatFormat
