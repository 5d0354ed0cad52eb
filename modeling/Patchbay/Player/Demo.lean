import Patchbay.Graph.Frame
/-!
The demo scene: an animated row of instances.

The time bends the row of positions and drives a wave that a display shows
and a delay repeats; a render sink collects count, positions and colours,
and a mesh when a file is named.
-/

namespace Patchbay.Demo

/-- The number of instances in the row. -/
def instances : Nat := 16

variable [Formula.Engine]

/-- Steps that build a graph; an edge that cannot be made ends them. -/
abbrev Builder := StateT Graph (Except Graph.ConnectionError)

def create (t : NodeType) : Builder NodeId := modifyGet fun g => g.createNode t

/-- Makes a node with the given behavior. -/
def createAs (b : Behavior) : Builder NodeId := do
  let id ← create b.type
  modify fun g => g.modifyNode id fun n => { n with behavior := b }
  return id

def connect (producer : NodeId) (output : String) (consumer : NodeId) (input : String) :
    Builder Unit := do
  let (_, g) ← (← get).connectNamed producer output consumer input
  set g

/-- A constant that waits to be published. -/
def constant (v : Value) : Behavior := .value ((Constant.setValue? v).getD .initial)

/-- The wave over the time. -/
def wave : Behavior := .function (Evaluator.initial.setExpression "sin(x * 2.0)")

def product : Behavior := .math { Arithmetic.initial with operation := .mul }

/-- The row of positions, over the instance and the time. -/
def positions : Behavior :=
  .list ((((Generator.initial.setElement .vector3).setVariables "t").setExpression 0 "i * 1.5"
    |>.setExpression 1 "sin(i * 0.5 + t)").setExpression 2 "0.0")

/-- The colours of the row. -/
def colors : Behavior :=
  .list ((((Generator.initial.setElement .vector4).setExpression 0 s!"i / {instances}.0"
    |>.setExpression 1 "0.5").setExpression 2 s!"1.0 - i / {instances}.0").setExpression 3 "1.0")

/-- Makes a mesh node for a file, and feeds the sink from it. -/
def addMesh (sink : NodeId) (path : String) : Builder Unit := do
  let mesh ← createAs (.mesh (MeshSource.initial.setPath path))
  connect mesh "mesh" sink "mesh"

/-- The steps that build the scene.  The inputs for variables are there after a first frame. -/
def steps (poll : Graph.Poll) (mesh : Option String) : Builder Unit := do
  let time ← create .time
  let count ← createAs (constant (.uint (UInt32.ofNat instances)))
  let wave ← createAs wave
  connect time "time" wave "x"
  let half ← createAs (constant (.float ⟨0x3f000000⟩))
  let scaled ← createAs product
  connect wave "result" scaled "A"
  connect half "value" scaled "B"
  let positions ← createAs positions
  let colors ← createAs colors
  let _ ← create .camera
  let display ← create .display
  let delay ← create .feedback
  let sink ← create .render
  connect count "value" positions "sizex"
  connect count "value" colors "sizex"
  connect count "value" sink "instanceCount"
  connect positions "list" sink "worldPosition"
  connect colors "list" sink "colors"
  connect scaled "result" display "in"
  connect scaled "result" delay "in"
  match mesh with
  | some path => addMesh sink path
  | none => pure ()
  modify (Graph.step poll 0)
  connect time "time" positions "t"

/-- The demo scene. -/
def build (poll : Graph.Poll) (mesh : Option String) : Except Graph.ConnectionError Graph :=
  ((steps poll mesh).run (Graph.empty "demo")).map (·.2)

end Patchbay.Demo
