import Irip.Base.Binary64
import Irip.Common

/-!
# `Common.PyText` — texts as Python reads them

The decimal digits of every script, `float(·)` of a value, and the integers it overflows on.
-/

namespace Irip

/-! ## Digits -/

/-- The code points of the digits zero: those of Unicode 15, with the other nine digits after each. -/
def decimalZeros : List Nat :=
  [0x30, 0x660, 0x6f0, 0x7c0, 0x966, 0x9e6, 0xa66, 0xae6, 0xb66, 0xbe6, 0xc66, 0xce6, 0xd66, 0xde6, 0xe50, 0xed0, 0xf20,
   0x1040, 0x1090, 0x17e0, 0x1810, 0x1946, 0x19d0, 0x1a80, 0x1a90, 0x1b50, 0x1bb0, 0x1c40, 0x1c50, 0xa620, 0xa8d0, 0xa900,
   0xa9d0, 0xa9f0, 0xaa50, 0xabf0, 0xff10, 0x104a0, 0x10d30, 0x11066, 0x110f0, 0x11136, 0x111d0, 0x112f0, 0x11450,
   0x114d0, 0x11650, 0x116c0, 0x11730, 0x118e0, 0x11950, 0x11c50, 0x11d50, 0x11da0, 0x11f50, 0x16a60, 0x16ac0, 0x16b50,
   0x1d7ce, 0x1d7d8, 0x1d7e2, 0x1d7ec, 0x1d7f6, 0x1e140, 0x1e2f0, 0x1e4f0, 0x1e950, 0x1fbf0]

/-- The value of a decimal digit. -/
def decimalValue (c : Char) : Option Nat :=
  (decimalZeros.find? (fun zero => zero ≤ c.toNat && c.toNat < zero + 10)).map (fun zero => c.toNat - zero)

/-- The text with its decimal digits written in ASCII. -/
def asciiDecimals (cs : List Char) : List Char :=
  cs.map (fun c => match decimalValue c with
    | some d => Nat.digitChar d
    | none => c)

/-! ## Numbers -/

/-- The exceptions of `float(·)`. -/
inductive FloatError where
  | typeError
  | valueError
  | overflowError
  deriving DecidableEq

/-- `float(·)` of a text. -/
def pyFloat? (text : String) : Option FloatNum := parseFloat (asciiDecimals (strip text).toList)

/-- Digits of any script, and blanks around them. -/
example : pyFloat? " ٣.5 " = pyFloat? "3.5" := by decide +kernel

/-- `float(·)` of an integer, which may be too large. -/
def floatOfInt (i : Int) : Except FloatError FloatNum :=
  if (binary64.ofRat i).isFinite then .ok (binary64.ofRat i) else .error .overflowError

/-- `float(·)` of a text, which may not be a number. -/
def floatOfText (text : String) : Except FloatError FloatNum :=
  match pyFloat? text with
  | some x => .ok x
  | none => .error .valueError

/-- The value of a float, which is known by its `repr`. -/
def floatOfRepr (repr : String) : FloatNum := (parseFloat repr.toList).getD .nan

/-- `float(·)` of a decoded value. -/
def pyFloat : Json → Except FloatError FloatNum
  | .int i => floatOfInt i
  | .bool b => floatOfInt (if b then 1 else 0)
  | .float r => .ok (floatOfRepr r)
  | .str s => floatOfText s
  | _ => .error .typeError

/-- `sys.get_int_max_str_digits()`. -/
def maxIntDigits : Nat := 4300

/-- An integer that no float is near to. -/
def TooLarge (v : Json) : Prop := ∃ i, v = .int i ∧ (binary64.ofRat i).isFinite = false

theorem floatOfInt_bool (b : Bool) : ∃ x, floatOfInt (if b then 1 else 0) = .ok x := by
  unfold floatOfInt
  cases b with
  | true | false => exact ⟨_, if_pos (by decide +kernel)⟩

theorem floatOfInt_error {i : Int} {e : FloatError} (h : floatOfInt i = .error e) :
    e = .overflowError ∧ (binary64.ofRat i).isFinite = false := by
  unfold floatOfInt at h
  split at h
  · cases h
  · next hinf => exact ⟨(Except.error.inj h).symm, by simpa using hinf⟩

theorem pyFloat_overflow_iff {v : Json} : pyFloat v = .error .overflowError ↔ TooLarge v := by
  constructor
  · intro h
    cases v with
    | bool b =>
      obtain ⟨x, hx⟩ := floatOfInt_bool b
      have hok : pyFloat (.bool b) = .ok x := hx
      rw [hok] at h
      cases h
    | int i => exact ⟨i, rfl, (floatOfInt_error h).2⟩
    | float r => cases h
    | str s =>
      change floatOfText s = .error .overflowError at h
      unfold floatOfText at h
      split at h <;> cases h
    | _ => cases h
  · rintro ⟨i, rfl, hi⟩
    show floatOfInt i = _
    rw [floatOfInt, if_neg (by simp [hi])]

end Irip
