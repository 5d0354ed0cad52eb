import Patchbay.Formula.Token
/-!
Terms of the standard engine, and the data they come to.

Arrays and maps can be written but not computed with; only what they are is
kept.
-/

namespace Patchbay.Formula

/-- Arrays and maps. -/
inductive Collection where
  | array
  | map
deriving DecidableEq, Repr

/-- What a term evaluates to. -/
inductive Datum where
  | int (n : Int)
  | float (x : Float)
  | bool (b : Bool)
  | text (s : String)
  | char (c : Char)
  | unit
  | collection (c : Collection)

/-- The name of the type. -/
def Datum.typeName : Datum → String
  | .int _ => "i64"
  | .float _ => "f64"
  | .bool _ => "bool"
  | .text _ => "string"
  | .char _ => "char"
  | .unit => "()"
  | .collection .array => "array"
  | .collection .map => "map"

inductive Term where
  | literal (d : Datum)
  | variable (name : String)
  | negate (t : Term)
  | plus (t : Term)
  | not (t : Term)
  | binary (o : Operator) (l r : Term)
  | call (function : String) (arguments : List Term)
  | property (t : Term) (name : String)
  | choice (condition yes no : Term)
  | several (kind : Collection) (items : List Term)

/-- A literal that is neither a truth value nor computed: it cannot be a condition. -/
def Term.isUnfitCondition : Term → Bool
  | .literal (.bool _) => false
  | .literal _ => true
  | .several _ _ => true
  | _ => false

end Patchbay.Formula
