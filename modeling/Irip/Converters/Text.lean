import Irip.Base.Words
import Irip.Common.PyText

/-!
# `Converters.Text` — what the converters of instrument files share

The lines of a text, the number patterns of the converters, and what they return or raise. A line holds no line break, so
that `.` is any character of it and `$` its end.
-/

namespace Irip.Converters

/-! ## Lines -/

abbrev Line := List Char

/-- The characters that end a line for `str.splitlines`. -/
def isBreak (c : Char) : Bool :=
  let n := c.toNat
  (10 ≤ n && n ≤ 13) || (28 ≤ n && n ≤ 30) || n == 0x85 || n == 0x2028 || n == 0x2029

/-- The lines of a text, the first of which has been read as far as `line`, backwards. -/
def linesFrom (line : Line) : List Char → List Line
  | [] => if line = [] then [] else [line.reverse]
  | '\r' :: '\n' :: cs => line.reverse :: linesFrom [] cs
  | c :: cs => if isBreak c then line.reverse :: linesFrom [] cs else linesFrom (c :: line) cs

def splitlines (text : List Char) : List Line := linesFrom [] text

/-- `line.strip()`. -/
def trim : Line → Line := Words.trim isSpace

/-- `line.split()`. -/
def words : Line → List (List Char) := Words.words isSpace

theorem linesFrom_cons {line : Line} {c : Char} {cs : List Char} (h : isBreak c = false) :
    linesFrom line (c :: cs) = linesFrom (c :: line) cs := by
  conv_lhs => unfold linesFrom
  split
  · next heq => cases heq
  · next heq =>
      rw [(List.cons.inj heq).1] at h
      exact absurd h (by decide)
  · next heq =>
      obtain ⟨rfl, rfl⟩ := List.cons.inj heq
      exact if_neg (by simp [h])

theorem linesFrom_append {line l : Line} (h : ∀ c ∈ l, isBreak c = false) (cs : List Char) :
    linesFrom line (l ++ '\n' :: cs) = (line.reverse ++ l) :: linesFrom [] cs := by
  induction l generalizing line with
  | nil =>
    rw [List.append_nil]
    rfl
  | cons c l ih =>
    rw [List.forall_mem_cons] at h
    rw [List.cons_append, linesFrom_cons h.1, ih h.2, List.reverse_cons, List.append_assoc]
    rfl

/-- **Lines** that are each ended by a line feed are the lines of the text. -/
theorem splitlines_flatMap {ls : List Line} (h : ∀ l ∈ ls, ∀ c ∈ l, isBreak c = false) :
    splitlines (ls.flatMap (· ++ ['\n'])) = ls := by
  unfold splitlines
  induction ls with
  | nil => rfl
  | cons l ls ih =>
    rw [List.forall_mem_cons] at h
    rw [List.flatMap_cons, List.append_assoc, List.singleton_append, linesFrom_append h.1, ih h.2]
    rfl

/-! ## Patterns -/

/-- `\d`: a decimal digit of any script. -/
def isDec (c : Char) : Bool := (decimalValue c).isSome

/-- What follows `\d+\.?\d*`, where it matches. -/
def afterNumber (cs : List Char) : Option (List Char) :=
  if cs.takeWhile isDec = [] then none
  else match cs.dropWhile isDec with
    | '.' :: rest => some (rest.dropWhile isDec)
    | rest => some rest

/-- `\d+\.?\d*`. -/
def isPlain (cs : List Char) : Bool := afterNumber cs = some []

/-- Without a sign. -/
def dropSign : List Char → List Char
  | '-' :: cs => cs
  | '+' :: cs => cs
  | cs => cs

/-- Without a minus sign. -/
def dropMinus : List Char → List Char
  | '-' :: cs => cs
  | cs => cs

/-- `\d+`. -/
def isDigits (cs : List Char) : Bool := !cs.isEmpty && cs.all isDec

/-- `(?:[eE][-+]?\d+)?`. -/
def isExponent : List Char → Bool
  | [] => true
  | c :: cs => (c = 'e' || c = 'E') && isDigits (dropSign cs)

/-- `\d+\.?\d*(?:[eE][-+]?\d+)?`. -/
def isNumber (cs : List Char) : Bool := (afterNumber cs).any isExponent

/-! ## Results -/

/-- A value of a result. -/
inductive Value where
  | null
  | int (n : Int)
  | float (x : FloatNum)
  | str (s : String)

structure Point where
  name : String
  value : Value
  unit : String

structure Series where
  name : String
  columns : List String
  rows : List (List Value)

/-- `{"metadata": …, "points": …, "series": …}`. -/
structure Parsed where
  metadata : List (String × Value)
  points : List Point
  series : List Series

/-- The classes of the converters' own errors. -/
inductive ErrorClass where
  | unsupportedFileFormat
  | invalidRasRawStructure
  | xrdDataParse
  | noData
  | invalidFormat
  deriving DecidableEq

/-- What a conversion raises: one of its own errors, or an exception of Python. -/
inductive Failure where
  | own (error : ErrorClass) (message : String)
  | python (e : FloatError)

/-- All values of a result. -/
def Parsed.values (r : Parsed) : List Value :=
  r.metadata.map Prod.snd ++ (r.points.map Point.value ++ r.series.flatMap (fun s => s.rows.flatten))

/-- A float is written if it is finite. An integer is written too: none has more digits than can be read. -/
def Value.Dumps : Value → Prop
  | .float x => x.isFinite = true
  | _ => True

instance decidableDumps : ∀ v : Value, Decidable v.Dumps
  | .float x => inferInstanceAs (Decidable (x.isFinite = true))
  | .null => isTrue trivial
  | .int _ => isTrue trivial
  | .str _ => isTrue trivial

/-- `json.dumps(·, allow_nan=False)` accepts the result. -/
def Parsed.Dumps (r : Parsed) : Prop := ∀ v ∈ r.values, v.Dumps

instance decidableParsedDumps (r : Parsed) : Decidable r.Dumps := inferInstanceAs (Decidable (∀ v ∈ r.values, v.Dumps))

/-- Every row has one cell for each column. -/
def Parsed.Rectangular (r : Parsed) : Prop := ∀ s ∈ r.series, ∀ row ∈ s.rows, row.length = s.columns.length

instance decidableRectangular (r : Parsed) : Decidable r.Rectangular :=
  inferInstanceAs (Decidable (∀ s ∈ r.series, ∀ row ∈ s.rows, row.length = s.columns.length))

/-- Either an error of the converter's own, or a result that can be written and whose rows are complete. -/
def FailsClosed : Except Failure Parsed → Prop
  | .error (.own _ _) => True
  | .error (.python _) => False
  | .ok r => r.Dumps ∧ r.Rectangular

instance decidableFailsClosed : ∀ r : Except Failure Parsed, Decidable (FailsClosed r)
  | .error (.own _ _) => isTrue trivial
  | .error (.python _) => isFalse id
  | .ok r => inferInstanceAs (Decidable (r.Dumps ∧ r.Rectangular))

end Irip.Converters
