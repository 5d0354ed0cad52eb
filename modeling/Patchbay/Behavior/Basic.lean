import Patchbay.Behavior.Source
import Patchbay.Behavior.Arithmetic
import Patchbay.Behavior.Evaluator
import Patchbay.Behavior.Generator
import Patchbay.Behavior.Lists
import Patchbay.Behavior.Relay
import Patchbay.Behavior.MeshSource
import Patchbay.Behavior.Camera
import Patchbay.Behavior.Collector
import Patchbay.Behavior.Mover
/-!
What a node does, by its type.

A behavior is the state that a node has beside its ports.  This module
gathers the sixteen types: how each starts, plans its turn, takes notice of
its wiring, shows itself, and is written to and read from a scene.
-/

namespace Patchbay

variable [Formula.Engine]

inductive Behavior where
  | value (s : Constant)
  | vector (s : Quadruple)
  | color (s : Tint)
  | math (s : Arithmetic)
  | function (s : Evaluator)
  | list (s : Generator)
  | listAccess (s : Selector)
  | listJoin (s : Joiner)
  | time
  | display (s : Display)
  | feedback (s : Delay)
  | mesh (s : MeshSource)
  | camera (s : Camera)
  | render (s : Collector)
  | path (s : Mover)
  | worldPos (s : Offset)
deriving Inhabited

namespace Behavior

def type : Behavior → NodeType
  | value _ => .value
  | vector _ => .vector
  | color _ => .color
  | math _ => .math
  | function _ => .function
  | list _ => .list
  | listAccess _ => .listAccess
  | listJoin _ => .listJoin
  | time => .time
  | display _ => .display
  | feedback _ => .feedback
  | mesh _ => .mesh
  | camera _ => .camera
  | render _ => .render
  | path _ => .path
  | worldPos _ => .worldPos

/-- The state of a new node. -/
def initial : NodeType → Behavior
  | .value => value .initial
  | .vector => vector .initial
  | .color => color .initial
  | .math => math .initial
  | .function => function .initial
  | .list => list .initial
  | .listAccess => listAccess .initial
  | .listJoin => listJoin .initial
  | .time => time
  | .display => display .initial
  | .feedback => feedback .initial
  | .mesh => mesh .initial
  | .camera => camera .initial
  | .render => render .initial
  | .path => path .initial
  | .worldPos => worldPos .initial

theorem type_initial (t : NodeType) : (initial t).type = t := by cases t <;> rfl

/-- What a new node has on its outputs. -/
def initialPosts : NodeType → List Post
  | .value => Constant.initialPosts
  | .vector => Quadruple.initialPosts
  | .color => Tint.initialPosts
  | .worldPos => Offset.initialPosts
  | _ => []

/-! ## Turns and wiring -/

/-- What the node does in its turn. -/
def plan (now : Moment) (id : NodeId) : Behavior → Plan Behavior
  | value s => s.plan.map value
  | vector s => s.plan.map vector
  | color s => s.plan.map color
  | math s => s.plan.map math
  | function s => s.plan.map function
  | list s => s.plan.map list
  | listAccess s => s.plan.map listAccess
  | listJoin s => s.plan.map listJoin
  | time => .simply time (Seconds.posts now.elapsed)
  | display s => s.plan.map display
  | feedback s => s.plan.map feedback
  | mesh s => (s.plan now id).map mesh
  | camera s => s.plan.map camera
  | render s => s.plan.map render
  | path s => s.plan.map path
  | worldPos s => s.plan.map worldPos

/-- Takes notice of a new source on an input. -/
def connected (input : String) (p : ProducerInfo) : Behavior → Behavior
  | listJoin s => listJoin s.rewired
  | display s => display (s.connected p)
  | feedback _ => feedback Delay.connected
  | path s => path (s.connected input)
  | b => b

/-- Takes notice of the loss of a source on an input. -/
def disconnected (input : String) : Behavior → Behavior
  | listJoin s => listJoin s.rewired
  | display s => display s.disconnected
  | path s => path (s.disconnected input)
  | b => b

/-! ## View -/

/-- The error that the node reports. -/
def error? : Behavior → Option NodeError
  | math s => s.error
  | function s => s.error
  | list s => s.error
  | listAccess s => s.error
  | listJoin s => s.error
  | mesh s => s.error
  | path s => s.error
  | _ => none

def rows (d : Directory) : Behavior → List Row
  | value s => s.rows d
  | vector _ => Quadruple.rows d
  | color _ => Tint.rows d
  | math s => s.rows d
  | function s => s.rows d
  | list s => s.rows d
  | listAccess s => s.rows d
  | listJoin _ => Joiner.rows d
  | time => Seconds.rows d
  | display s => s.rows d
  | feedback _ => Delay.rows d
  | mesh s => s.rows d
  | camera s => s.rows d
  | render s => s.rows d
  | path s => s.rows d
  | worldPos s => s.rows

/-! ## Fields in a scene -/

def put : Behavior → List UInt8
  | value s => s.put
  | vector s => s.put
  | color s => s.put
  | math s => s.put
  | function s => s.put
  | list s => s.put
  | listAccess s => s.put
  | listJoin _ => []
  | time => []
  | display _ => []
  | feedback _ => []
  | mesh s => s.put
  | camera s => s.put
  | render s => s.put
  | path s => s.put
  | worldPos s => s.put

/-- Reads the fields of a node of the given type. -/
def get : NodeType → BlockReader Behavior
  | .value => value <$> Constant.get
  | .vector => vector <$> Quadruple.get
  | .color => color <$> Tint.get
  | .math => math <$> Arithmetic.get
  | .function => function <$> Evaluator.get
  | .list => list <$> Generator.get
  | .listAccess => listAccess <$> Selector.get
  | .mesh => mesh <$> MeshSource.get
  | .camera => camera <$> Camera.get
  | .render => render <$> Collector.get
  | .path => path <$> Mover.get
  | .worldPos => worldPos <$> Offset.get
  | .listJoin => return listJoin .initial
  | .time => return time
  | .display => return display .initial
  | .feedback => return feedback .initial

end Behavior

end Patchbay
