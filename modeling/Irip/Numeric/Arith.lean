import Mathlib.Algebra.Order.Field.Rat
import Mathlib.Data.List.Sort

/-!
# `Numeric.Arith` — the floating-point arithmetic the engine computes with

The engine computes with Python's `float` in its scalar branches and with NumPy's elementwise functions in its
vector branches. Both are parameters here: nothing about rounding is assumed.
-/

namespace Irip.Numeric

/-- The built-in exceptions that are no `NumericError`. -/
inductive PyExn where
  | zeroDivisionError
  | overflowError
  | valueError
  | indexError
  | typeError
  | attributeError
  deriving DecidableEq

/-- The elementwise functions of NumPy with one argument. -/
inductive Ufunc where
  | abs | sqrt | exp | log | log10
  | sin | cos | tan | arcsin | arccos | arctan
  | floor | ceil | radians | degrees
  deriving DecidableEq

/-- The reductions of NumPy. `var` and `std` are given their `ddof`. -/
inductive Reduction where
  | mean | min | max | median
  | var (ddof : Nat)
  | std (ddof : Nat)
  deriving DecidableEq

/-- Floating-point numbers with the operations of Python and of NumPy. Addition, subtraction, multiplication,
division and the comparisons are those of IEEE 754 in both. -/
structure Arith (F : Type) where
  /-- `float(n)` for an integer of at most nineteen digits. -/
  ofInt : Int → F
  half : F
  pi : F
  e : F
  lt : F → F → Bool
  le : F → F → Bool
  eq : F → F → Bool
  isFinite : F → Bool
  /-- `x.is_integer()`. -/
  isInteger : F → Bool
  /-- `int(x)`, for an `x` that is an integer. -/
  toInt : F → Int
  /-- The text of a number. -/
  repr : F → String
  neg : F → F
  add : F → F → F
  sub : F → F → F
  mul : F → F → F
  div : F → F → F
  -- Python's operations on floats
  mod : F → F → F
  power : F → F → F
  /-- The result of a power is too large for a float. -/
  powOverflows : F → F → Bool
  round : F → Int → Except PyExn F
  atan2 : F → F → F
  degrees : F → F
  fsum : List F → Except PyExn F
  -- NumPy's operations on arrays
  ufunc : Ufunc → F → F
  npMod : F → F → F
  npPower : F → F → F
  npArctan2 : F → F → F
  npMinimum : F → F → F
  npMaximum : F → F → F
  npClip : F → F → F → F
  npRound : F → Int → F
  /-- `np.isclose(x % 1.0, 0.0)`. -/
  npIsInteger : F → Bool
  reduce : Reduction → List F → F
  quantile : List F → F → F

namespace Arith

variable {F : Type} (A : Arith F)

/-- The literal `0.0`. -/
def zero : F := A.ofInt 0

/-- The literal `1.0`. -/
def one : F := A.ofInt 1

/-- The built-in `min(a, b)`. -/
def pyMin (a b : F) : F := if A.lt b a then b else a

/-- The built-in `max(a, b)`. -/
def pyMax (a b : F) : F := if A.lt a b then b else a

/-- `a ** b` on floats, for a base that is not negative or an exponent that is an integer. -/
def pyPow (a b : F) : Except PyExn F :=
  if A.eq a A.zero && A.lt b A.zero then .error .zeroDivisionError
  else if A.powOverflows a b then .error .overflowError
  else .ok (A.power a b)

/-- `np.quantile(vals, q)`: quantiles must be in the range [0, 1]. -/
def npQuantile (vals : List F) (q : F) : Except PyExn F :=
  if A.le A.zero q && A.le q A.one then .ok (A.quantile vals q) else .error .valueError

/-- `0.0` for either zero. -/
def normalizeZero (x : F) : F := if A.eq x A.zero then A.zero else x

end Arith

/-! ## Exact numbers -/

namespace Rational

/-- The nearest integer, ties to even. -/
def nearest (x : ℚ) : Int :=
  let n := x.floor
  if x - n < 1 / 2 || (x - n = 1 / 2 && n % 2 = 0) then n else n + 1

def round (x : ℚ) (digits : Int) : ℚ := nearest (x * 10 ^ digits) / 10 ^ digits

def mean (xs : List ℚ) : ℚ := xs.sum / xs.length

def variance (ddof : Nat) (xs : List ℚ) : ℚ :=
  (xs.map (fun x => (x - mean xs) * (x - mean xs))).sum / ((xs.length : ℚ) - ddof)

/-- Linear interpolation between the neighbours in the sorted list. -/
def quantile (xs : List ℚ) (q : ℚ) : ℚ :=
  let sorted := xs.insertionSort (· ≤ ·)
  let h := ((xs.length : ℚ) - 1) * q
  let i := h.floor.toNat
  let low := sorted.getD i 0
  low + (h - i) * (sorted.getD (i + 1) low - low)

end Rational

/-- Exact arithmetic on rational numbers. The functions whose values are irrational answer with their argument. -/
def rational : Arith ℚ where
  ofInt n := n
  half := 1 / 2
  pi := 355 / 113
  e := 193 / 71
  lt x y := x < y
  le x y := x ≤ y
  eq x y := x = y
  isFinite _ := true
  isInteger x := x.den = 1
  toInt x := x.floor
  repr x := toString x
  neg x := -x
  add x y := x + y
  sub x y := x - y
  mul x y := x * y
  div x y := x / y
  mod x y := x - y * (x / y).floor
  power x y := x ^ y.floor
  powOverflows _ _ := false
  round x n := .ok (Rational.round x n)
  atan2 y _ := y
  degrees x := x
  fsum xs := .ok xs.sum
  ufunc
    | .abs, x => if x < 0 then -x else x
    | .floor, x => x.floor
    | .ceil, x => -(-x).floor
    | _, x => x
  npMod x y := x - y * (x / y).floor
  npPower x y := x ^ y.floor
  npArctan2 y _ := y
  npMinimum x y := if y < x then y else x
  npMaximum x y := if x < y then y else x
  npClip x low high := if x < low then low else if high < x then high else x
  npRound := Rational.round
  npIsInteger x := x.den = 1
  reduce
    | .mean, xs => Rational.mean xs
    | .min, xs => xs.foldl (fun x y => if y < x then y else x) (xs.headD 0)
    | .max, xs => xs.foldl (fun x y => if x < y then y else x) (xs.headD 0)
    | .median, xs => Rational.quantile xs (1 / 2)
    | .var n, xs => Rational.variance n xs
    | .std n, xs => Rational.variance n xs
  quantile := Rational.quantile

end Irip.Numeric
