import Irip.Common.PyText
import Irip.Models.Stored

/-!
# `Models.Applicability` — which values of an input the domain of a model holds back

The domain of a version is checked before its adapter runs; the adapter then makes numbers of the inputs with `float`.
-/

namespace Irip.Models

open Evaluation (bind_ok_iff)

variable {F : Type}

/-! ## Numbers -/

section Applicability

variable (number : Json → Except Raised F) (repr : FloatNum → String) (validation : Json → Json → Option String)

/-! ## Runs -/

/-- A bound of a dimension, if one is declared. -/
def bound (bounds : Json) (key : String) : Option (WithBot (WithTop ℚ)) :=
  match bounds with
  | .obj fields => match pyFloat (Json.get fields key) with
    | .ok (.val x) => some x
    | _ => none
  | _ => none

/-- The value is an `int` or a `float` and the dimension has both bounds. -/
inductive Checked : Json → Json → Prop
  | int (n : Int) (fields : Fields) (low : (Json.get fields "min").isNone = false)
      (high : (Json.get fields "max").isNone = false) : Checked (.int n) (.obj fields)
  | float (r : String) (fields : Fields) (low : (Json.get fields "min").isNone = false)
      (high : (Json.get fields "max").isNone = false) : Checked (.float r) (.obj fields)

variable {number repr validation}

end Applicability

/-! ### Values that are not held back -/

/-- A version whose domain declares the dimension `t`, and whose schema accepts everything. -/
def versionOf (bounds : Fields) : StoredVersion where
  contractJson := [("name", .str "model"), ("version", .str "1.0.0"), ("sha256", .str "0")]
  applicabilityDomainJson := [("t", .obj bounds)]

end Irip.Models
