import Patchbay.Mesh.Load
import Patchbay.Formula.Engine
import Patchbay.Value.Kind
/-!
Errors that a node reports and goes on with.

A node keeps the last error until it has computed a result again; the frame
goes on for all other nodes.
-/

namespace Patchbay

inductive NodeError where
  | missingInput (name : String)
  | typeMismatch (input : String) (required : KindSet) (supplied : Kind)
  | formula (cause : FormulaError)
  | divisionByZero
  | resource (cause : LoadError)
  | tooManyElements (total : UInt64)
deriving DecidableEq

/-- The most elements of a generated list. -/
def elementLimit : Nat := 1048576

def NodeError.message : NodeError → String
  | .missingInput name => "Missing required input: " ++ name
  | .typeMismatch input required supplied =>
    s!"Input '{input}' requires {required.text}, got {supplied.name}"
  | .formula cause => "Expression error: " ++ cause.message
  | .divisionByZero => "Expression error: integer division by zero"
  | .resource cause => "Resource load failed: " ++ cause.message
  | .tooManyElements total => s!"list of {total} elements exceeds the limit of {elementLimit}"

end Patchbay
