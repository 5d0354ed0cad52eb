import Patchbay.Frame.Plan
import Patchbay.Node.Error
import Patchbay.Scene.Reading
import Patchbay.Number.Double
/-!
A formula over up to three inputs.

A new formula is compiled at the node's next turn.  One that does not
compile is reported and shown, but the last one that did goes on being
evaluated; the report stands until the formula shown is evaluated again.
-/

namespace Patchbay

open Bytes

variable [Formula.Engine]

/-- A node that evaluates a formula over `x`, `y` and `z`. -/
structure Evaluator where
  arity : Rank
  pendingArity : Option Rank
  source : String
  pendingSource : Option String
  compiled : Option Formula
  error : Option NodeError

namespace Evaluator

def initial : Evaluator := ⟨.one, none, "x", some "x", none, none⟩

instance : Inhabited Evaluator := ⟨initial⟩

def variableNames : List String := ["x", "y", "z"]

/-- The inputs for a number of variables. -/
def inputNames (r : Rank) : List String := variableNames.take r.count

/-- The formula with an edit that waits. -/
def expression (e : Evaluator) : String := e.pendingSource.getD e.source

def setArity (e : Evaluator) (r : Rank) : Evaluator := { e with pendingArity := some r }

def setExpression (e : Evaluator) (source : String) : Evaluator :=
  { e with pendingSource := some source }

/-! ## The turn -/

/-- Takes over a new number of variables. -/
def resized (e : Evaluator) : Evaluator :=
  { e with arity := e.pendingArity.getD e.arity, pendingArity := none }

/-- Takes over a new formula. -/
def recompiled (e : Evaluator) : Evaluator :=
  match e.pendingSource with
  | none => e
  | some source =>
    let e := { e with source, pendingSource := none }
    match Formula.compile source with
    | .ok f => { e with compiled := some f, error := none }
    | .error cause => { e with error := some (.formula cause) }

/-- The variables with what the inputs in use supply; all others are zero. -/
def bindings (e : Evaluator) (r : Readings) : List (String × Float) :=
  let used := inputNames e.arity
  variableNames.map fun name =>
    (name, if used.contains name then ((r.float? name).map Double.ofSingle).getD 0.0 else 0.0)

/-- Whether the formula that is evaluated is the one that is shown. -/
def isCurrent (e : Evaluator) (f : Formula) : Bool := f.source == e.source

def finish (e : Evaluator) (r : Readings) : Evaluator × List Post :=
  match e.compiled with
  | none => (e, [])
  | some f =>
    match f.eval (e.bindings r) with
    | .ok x =>
      ({ e with error := if e.isCurrent f then none else e.error },
        [.publish 0 (.float (Double.toSingle x))])
    | .error cause => ({ e with error := some (.formula cause) }, [])

def plan (e : Evaluator) : Plan Evaluator :=
  let next := e.resized.recompiled
  { inputs := e.pendingArity.map inputNames
    gates := (inputNames next.arity).map fun name => ⟨name, .single .float⟩
    finish := next.finish }

/-! ## View and fields -/

def rows (e : Evaluator) (d : Directory) : List Row :=
  ⟨"f", e.expression⟩ :: (d.firstValue?.map fun v => ⟨"result", v.text⟩).toList

def put (e : Evaluator) : List UInt8 :=
  Wire.u8.put e.arity.tag ++ (Wire.optional Wire.u8).put (e.pendingArity.map Rank.tag) ++
    Wire.text.put e.expression

/-- The arity that a byte stands for. -/
def arityOf (byte : UInt8) : Except SceneError Rank :=
  match Rank.ofTag? byte with
  | some r => .ok r
  | none => .error (.shape (.functionArity byte))

def get : BlockReader Evaluator := do
  let arity ← BlockReader.ofExcept (arityOf (← BlockReader.field Wire.u8))
  let pendingArity ← match ← BlockReader.field (Wire.optional Wire.u8) with
    | none => pure none
    | some byte => some <$> BlockReader.ofExcept (arityOf byte)
  let source ← BlockReader.field Wire.text
  return { initial with arity, pendingArity, pendingSource := some source, compiled := none }

end Evaluator

end Patchbay
