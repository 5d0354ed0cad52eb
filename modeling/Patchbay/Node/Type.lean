/-!
The sixteen node types and what is fixed about each.

A type has a tag in saved scenes, a class that places it in the frame, and
a descriptor with its names and its ports at creation.  A registry is a
list of types, each at most once.
-/

namespace Patchbay

/-- The identity of a node. -/
structure NodeId where
  val : UInt32
deriving DecidableEq, Inhabited, Repr, Hashable

namespace NodeId

/-- The identity of nodes made when no identity is left; the counter never gives it out. -/
def unallocated : NodeId := ⟨0xffffffff⟩

def text (n : NodeId) : String := s!"#{n.val.toNat}"

end NodeId

/-- The class of a node in the frame; lower classes run first. -/
inductive Priority where
  | feedback
  | normal
  | render
deriving DecidableEq, Inhabited, Repr

namespace Priority

def tag : Priority → UInt8
  | feedback => 0
  | normal => 1
  | render => 2

def ofTag? (t : UInt8) : Option Priority :=
  if t = 0 then some feedback
  else if t = 1 then some normal
  else if t = 2 then some render
  else none

theorem ofTag?_tag (p : Priority) : ofTag? p.tag = some p := by cases p <;> decide

/-- Whether one class runs before another. -/
def before (p q : Priority) : Bool := p.tag < q.tag

def label : Priority → String
  | feedback => "Feedback"
  | normal => "Normal"
  | render => "Render"

end Priority

inductive Category where
  | input
  | math
  | list
  | scene
  | utility
  | output
deriving DecidableEq, Repr

namespace Category

def all : List Category := [input, math, list, scene, utility, output]

def label : Category → String
  | input => "Input"
  | math => "Math"
  | list => "List"
  | scene => "Scene"
  | utility => "Utility"
  | output => "Output"

end Category

inductive NodeType where
  | value
  | color
  | math
  | function
  | time
  | list
  | listAccess
  | listJoin
  | mesh
  | camera
  | display
  | feedback
  | vector
  | render
  | path
  | worldPos
deriving DecidableEq, Inhabited, Repr

/-- An input at creation, and what it is for. -/
structure InputSpec where
  name : String
  description : String
deriving DecidableEq, Repr

/-- What is fixed about a node type. -/
structure Descriptor where
  name : String
  category : Category
  description : String
  inputs : List InputSpec
  outputs : List String
deriving DecidableEq, Repr

namespace NodeType

/-- Every type, by rising tag. -/
def all : List NodeType :=
  [value, color, math, function, time, list, listAccess, listJoin, mesh, camera, display,
    feedback, vector, render, path, worldPos]

def tag : NodeType → UInt8
  | value => 0
  | color => 1
  | math => 2
  | function => 3
  | time => 4
  | list => 5
  | listAccess => 6
  | listJoin => 7
  | mesh => 8
  | camera => 9
  | display => 10
  | feedback => 11
  | vector => 12
  | render => 13
  | path => 14
  | worldPos => 15

def ofTag? (t : UInt8) : Option NodeType := all[t.toNat]?

theorem ofTag?_tag (t : NodeType) : ofTag? t.tag = some t := by cases t <;> decide

/-- The name in scene summaries. -/
def label : NodeType → String
  | value => "Value"
  | color => "Color"
  | math => "Math"
  | function => "Function"
  | time => "Time"
  | list => "List"
  | listAccess => "ListAccess"
  | listJoin => "ListJoin"
  | mesh => "Mesh"
  | camera => "Camera"
  | display => "Display"
  | feedback => "Feedback"
  | vector => "Vector"
  | render => "Render"
  | path => "Path"
  | worldPos => "WorldPos"

/-- Delays run first and sinks last. -/
def priority : NodeType → Priority
  | feedback => .feedback
  | render => .render
  | _ => .normal

def descriptor : NodeType → Descriptor
  | value => ⟨"Value", .input, "A float, int or uint constant", [], ["value"]⟩
  | vector => ⟨"Vector", .input, "A fixed array of four floats", [], ["value"]⟩
  | color => ⟨"Color", .input, "An RGBA color", [], ["value"]⟩
  | math =>
    ⟨"Math", .math, "Add, subtract, multiply or divide two values",
      [⟨"A", "Left operand: a scalar or vector"⟩, ⟨"B", "Right operand: a scalar or vector"⟩],
      ["result"]⟩
  | function =>
    ⟨"Function", .math, "Evaluate an expression over x, y and z", [⟨"x", "Value bound to x"⟩],
      ["result"]⟩
  | list =>
    ⟨"List", .list, "Generate a list from per-component expressions over i, j, k",
      [⟨"sizex", "Number of elements along i"⟩], ["list"]⟩
  | listAccess =>
    ⟨"List Access", .list, "Pick one element of a list",
      [⟨"index", "Element index, clamped to the list"⟩, ⟨"list", "Any list"⟩], ["element"]⟩
  | listJoin =>
    ⟨"List Join", .list, "Concatenate two lists of the same kind",
      [⟨"List A", "First list"⟩, ⟨"List B", "Second list"⟩], ["list"]⟩
  | time => ⟨"Time", .input, "Seconds since the graph clock started", [], ["time"]⟩
  | display =>
    ⟨"Display", .utility, "Show and forward any single value", [⟨"in", "Any non-list value"⟩],
      ["out"]⟩
  | feedback =>
    ⟨"Feedback", .utility, "Republish the previous frame's value",
      [⟨"in", "Scalar or vector to delay"⟩], ["out"]⟩
  | mesh => ⟨"Mesh", .scene, "Load an OBJ mesh in the background", [], ["mesh"]⟩
  | camera =>
    ⟨"Camera", .scene, "Orbit or free camera",
      [⟨"position", "Camera position"⟩, ⟨"lookAt", "Point the camera faces"⟩],
      ["position", "forward"]⟩
  | render =>
    ⟨"Render", .output, "Collect instanced render parameters",
      [⟨"instanceCount", "Number of instances"⟩, ⟨"worldPosition", "Per-instance position list"⟩,
        ⟨"mesh", "Instanced mesh"⟩, ⟨"colors", "Per-instance color list"⟩],
      ["render"]⟩
  | path =>
    ⟨"Path", .scene, "Move a position along a line or closed spline",
      [⟨"t", "Distance along a line, or lap fraction of the spline"⟩], ["position"]⟩
  | worldPos => ⟨"World Position", .input, "Per-step world position offset", [], ["delta"]⟩

/-- The name shown to users. -/
def displayName (t : NodeType) : String := t.descriptor.name

def inputNames (t : NodeType) : List String := t.descriptor.inputs.map InputSpec.name

def outputNames (t : NodeType) : List String := t.descriptor.outputs

/-- What an input at creation is for. -/
def inputDescription? (t : NodeType) (name : String) : Option String :=
  (t.descriptor.inputs.find? (·.name == name)).map InputSpec.description

/-- The number of ports at creation. -/
def portCount (t : NodeType) : Nat := t.inputNames.length + t.outputNames.length

end NodeType

/-! ## Registries -/

/-- The node types on offer, each once, in the order in which they were registered. -/
structure Registry where
  types : List NodeType
deriving DecidableEq

namespace Registry

def empty : Registry := ⟨[]⟩

/-- Every type. -/
def builtin : Registry := ⟨NodeType.all⟩

/-- Adds a type; one that is there keeps its place. -/
def register (r : Registry) (t : NodeType) : Registry :=
  if r.types.contains t then r else ⟨r.types ++ [t]⟩

def has (r : Registry) (t : NodeType) : Bool := r.types.contains t

def inCategory (r : Registry) (c : Category) : List NodeType :=
  r.types.filter fun t => t.descriptor.category == c

/-- The text with ASCII letters in lower case. -/
def foldCase (s : String) : String := s.map Char.toLower

/-- The type of the given display name; the case of ASCII letters does not count. -/
def find? (r : Registry) (name : String) : Option NodeType :=
  r.types.find? fun t => foldCase t.displayName == foldCase name

end Registry

end Patchbay
