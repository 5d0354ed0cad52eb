import Patchbay.Behavior.Basic
import Patchbay.Graph.Context
/-!
Nodes.

A node has an identity, a name that is never blank, a class in the frame, a
place on the screen, its ports, and the behavior of its type.  A view is
what a user is shown of it.
-/

namespace Patchbay

/-- The place of a node on the screen. -/
structure Geometry where
  position : Vec2
  size : Vec2
deriving DecidableEq, Inhabited, Repr

def Geometry.origin : Geometry := ⟨⟨.zero, .zero⟩, ⟨.zero, .zero⟩⟩

variable [Formula.Engine]

structure Node where
  id : NodeId
  name : String
  priority : Priority
  geometry : Geometry
  ports : Directory
  behavior : Behavior
deriving Inhabited

namespace Node

def type (n : Node) : NodeType := n.behavior.type

/-- The ports of a new node. -/
def initialPorts (t : NodeType) : Directory :=
  (Behavior.initialPosts t).foldl Directory.post (Directory.new t.inputNames t.outputNames)

/-- A new node of a type, with an identity and a name from the context. -/
def create (t : NodeType) (c : Context) : Node × Context :=
  let (id, c) := c.allocate t.portCount
  let (name, c) := c.defaultName t
  ({ id := id.getD .unallocated
     name
     priority := t.priority
     geometry := Geometry.origin
     ports := initialPorts t
     behavior := Behavior.initial t }, c)

/-- Gives the node another name; a blank one is refused. -/
def rename? (n : Node) (name : String) : Option Node :=
  if Text.isBlankText name then none else some { n with name }

/-- The name after an attempt to change it. -/
def renamed (n : Node) (name : String) : Node := (n.rename? name).getD n

/-! ## Wiring -/

/-- Takes notice of a new source. -/
def connected (n : Node) (input : String) (p : ProducerInfo) : Node :=
  { n with behavior := n.behavior.connected input p }

/-- Takes notice of the loss of a source. -/
def disconnected (n : Node) (input : String) : Node :=
  { n with behavior := n.behavior.disconnected input }

/-- Takes the source from an input, and takes notice. -/
def detach (n : Node) (input : Nat) : Node :=
  match n.ports.inputs[input]? with
  | none => n
  | some p => { n with ports := n.ports.modifyInput input InputPort.detach }.disconnected p.name

end Node

/-! ## Views -/

/-- What a user is shown of a node. -/
structure View where
  id : NodeId
  title : String
  rows : List Row
  error : Option String
deriving DecidableEq

def Node.view (n : Node) : View where
  id := n.id
  title := n.name
  rows := n.behavior.rows n.ports
  error := n.behavior.error?.map NodeError.message

namespace View

/-- The value on the line with a label. -/
def value? (v : View) (label : String) : Option String :=
  (v.rows.find? (·.label == label)).map Row.value

/-- The view as lines, the title first. -/
def text (v : View) : String :=
  let head := s!"[{v.id.text}] {v.title}\n"
  let rows := v.rows.map fun r => s!"    {r.label}: {r.value}\n"
  let error := (v.error.map fun e => s!"    error: {e}\n").toList
  String.join (head :: rows ++ error)

end View

end Patchbay
