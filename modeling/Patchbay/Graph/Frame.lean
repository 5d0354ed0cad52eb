import Patchbay.Graph.Basic
import Patchbay.Frame.Turn
/-!
Frames.

In a frame every node has its turn once, in the order of the graph.  A node
reads what the nodes before it have just published and what the nodes behind
it published in the frame before.
-/

namespace Patchbay.Graph

/-! ## What a node sees of the others -/

variable [Formula.Engine]

/-- What a node in its turn sees of the others: the nodes before it, the nodes after it, and for
each input the position of its producer in the whole list, as it is when the turn begins. -/
structure Window where
  before : List Node
  after : List Node
  upstream : List (Option Nat)

namespace Window

/-- The window of the node at a position of the list. -/
def around (nodes : List Node) (position : Nat) (inputs : List InputPort) : Window where
  before := nodes.take position
  after := nodes.drop (position + 1)
  upstream := inputs.map fun p => p.source.bind fun a => nodes.findIdx? (·.id == a.producer)

/-- The node at a position of the whole list; a node does not see itself. -/
def node? (w : Window) (position : Nat) : Option Node :=
  if position < w.before.length then w.before[position]?
  else if position = w.before.length then none
  else w.after[position - (w.before.length + 1)]?

/-- The cell that an address stands for on an input.  The node is looked for where the producer
of the input was when the turn began, and it has to be the one that the address names. -/
def cell? (w : Window) (i : Nat) (a : Address) : Option Cell :=
  ((w.upstream[i]?.bind id).bind w.node?).bind fun n =>
    if n.id = a.producer then n.ports.cell? a.output.toNat else none

/-- What is supplied to inputs. -/
def supply (w : Window) (inputs : List InputPort) : Supply :=
  inputs.mapIdx fun i p => p.source.bind (w.cell? i)

end Window

/-- What is supplied to the inputs of a node. -/
def supplyOf (nodes : List Node) (n : Node) : Supply :=
  (Window.around nodes (nodes.findIdx (·.id == n.id)) n.ports.inputs).supply n.ports.inputs

/-! ## Turns and frames -/

/-- Removes the edges of lost sources. -/
def dropEdges (consumer : NodeId) (dropped : List Dropped) (t : EdgeTable) : EdgeTable :=
  dropped.foldl (fun t d => t.remove (consumer, d.address.input)) t

/-- Gives a node its turn. -/
def runNode (now : Moment) (g : Graph) (id : NodeId) : Graph :=
  match g.node? id with
  | none => g
  | some n =>
    let (n, dropped) := n.takeTurn now (supplyOf g.nodes n)
    { g.modifyNode id fun _ => n with edges := dropEdges id dropped g.edges }

/-- What is known of loads from outside. -/
abbrev Poll := NodeId → Load → LoadReport

/-- Every load can be started, and none has a result yet. -/
def Poll.none : Poll := fun _ _ => .pending

def moment (g : Graph) (poll : Poll) : Moment where
  elapsed := g.context.clock.elapsed
  assetsRoot := g.context.assetsRoot
  refusal? id load := (poll id load).refusal?
  poll id load := (poll id load).answer

/-- Gives every node its turn. -/
def evaluate (poll : Poll) (g : Graph) : Graph := g.ids.foldl (runNode (g.moment poll)) g

/-- The graph with another reading of its clock. -/
def withClock (g : Graph) (f : Clock → Clock) : Graph :=
  { g with context := { g.context with clock := f g.context.clock } }

/-- Advances the clock by a fixed step and runs a frame. -/
def step (poll : Poll) (dt : Nat) (g : Graph) : Graph := (g.withClock (·.step dt)).evaluate poll

/-- Advances the clock to a reading of the wall clock and runs a frame. -/
def tick (poll : Poll) (now : Nat) (g : Graph) : Graph := (g.withClock (·.tick now)).evaluate poll

/-- The loads that are under way. -/
def loads (g : Graph) : List (NodeId × Load) :=
  g.nodes.filterMap fun n =>
    match n.behavior with
    | .mesh m => m.status.load?.map fun load => (n.id, load)
    | _ => none

end Patchbay.Graph
