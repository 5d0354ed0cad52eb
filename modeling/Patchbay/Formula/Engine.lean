import Patchbay.Number.Double
/-!
Formulas, over the engine that reads and evaluates them.

The engine is none of this library's own.  It reads a source into a form that
only it knows, and finds what that form comes to when variables are bound.
Asked twice with the same it answers the same, so no formula reads the time.
What nodes do with formulas is told over any engine.  A formula keeps its
source beside the engine's form, an integer or a truth value that comes out is
widened to a float, and an error names the source before it says what the
engine says.
-/

namespace Patchbay

namespace Formula

/-- Variables and their values, the last of one name counting. -/
abbrev Bindings := List (String × Float)

/-- What an engine finds: a number, a truth value, or something else, of which only the name of
its type counts. -/
inductive Outcome where
  | float (x : Float)
  | int (n : Int64)
  | bool (b : Bool)
  | other (typeName : String)

/-- An engine for formulas, with the texts of its errors. -/
class Engine where
  /-- A source that has been read. -/
  Tree : Type
  parse : String → Except String Tree
  evaluate : Bindings → Tree → Except String Outcome

end Formula

/-- A source and what the engine has read in it. -/
structure Formula [Formula.Engine] where
  source : String
  tree : Formula.Engine.Tree

/-- Why a formula gives no number. -/
inductive FormulaError where
  | unreadable (source fault : String)
  | failed (source fault : String)
  | notANumber (source typeName : String)
deriving DecidableEq, Repr

/-- The source in quotes, and what is wrong with it. -/
def FormulaError.message : FormulaError → String
  | unreadable source fault => s!"'{source}': {fault}"
  | failed source fault => s!"'{source}': {fault}"
  | notANumber source typeName => s!"'{source}' produced {typeName} instead of a number"

namespace Formula

variable [Engine]

/-- Reads a source. -/
def compile (source : String) : Except FormulaError Formula :=
  match Engine.parse source with
  | .ok tree => .ok ⟨source, tree⟩
  | .error fault => .error (.unreadable source fault)

/-- Evaluates to a float; an integer or a truth value is widened. -/
def eval (f : Formula) (b : Bindings) : Except FormulaError Float :=
  match Engine.evaluate b f.tree with
  | .ok (.float x) => .ok x
  | .ok (.int n) => .ok (Double.ofInt n.toInt)
  | .ok (.bool x) => .ok (if x then 1.0 else 0.0)
  | .ok (.other typeName) => .error (.notANumber f.source typeName)
  | .error fault => .error (.failed f.source fault)

end Formula

end Patchbay
