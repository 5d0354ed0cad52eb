import Patchbay.Node.Basic
/-!
Graphs, and how they are edited.

A graph holds its nodes in the order in which they run: by class, and
within a class by the time they were added.  An edge is noted twice, in the
table and as the source of the input it feeds; connecting, disconnecting and
removing keep both notes alike, and tell the node whose input is concerned.
-/

namespace Patchbay

variable [Formula.Engine]

structure Graph where
  name : String
  nodes : List Node
  edges : EdgeTable
  context : Context

namespace Graph

def empty (name : String) : Graph := ⟨name, [], EdgeTable.empty, Context.new⟩

instance : Inhabited Graph := ⟨empty ""⟩

/-! ## Nodes by identity -/

def node? (g : Graph) (id : NodeId) : Option Node := g.nodes.find? (·.id == id)

def contains (g : Graph) (id : NodeId) : Bool := g.nodes.any (·.id == id)

def ids (g : Graph) : List NodeId := g.nodes.map Node.id

/-- The nodes with one of them changed. -/
def changeNode (id : NodeId) (f : Node → Node) (nodes : List Node) : List Node :=
  nodes.map fun n => if n.id = id then f n else n

def modifyNode (g : Graph) (id : NodeId) (f : Node → Node) : Graph :=
  { g with nodes := changeNode id f g.nodes }

/-! ## Adding and removing -/

/-- Puts a node behind all nodes that do not run after its class. -/
def insertByPriority (n : Node) : List Node → List Node
  | [] => [n]
  | m :: rest =>
    if n.priority.before m.priority then n :: m :: rest else m :: insertByPriority n rest

/-- Takes the sources from the inputs that some edges feed. -/
def detachAll (edges : List Edge) (nodes : List Node) : List Node :=
  edges.foldl (fun nodes e => changeNode e.consumer (·.detach e.address.input.toNat) nodes) nodes

/-- Removes a node and every edge at it; nothing changes without such a node. -/
def removeNode (g : Graph) (id : NodeId) : Graph :=
  if g.contains id then
    { g with
      nodes := detachAll (g.edges.outgoing id) (g.nodes.filter (·.id != id))
      edges := g.edges.removeNode id }
  else g

/-- Removes a node, and hands it over as it was. -/
def takeOut? (g : Graph) (id : NodeId) : Option (Node × Graph) :=
  (g.node? id).map fun n => (n, g.removeNode id)

/-- Adds a node; one with the same identity is removed first. -/
def addNode (g : Graph) (n : Node) : Graph :=
  let g := g.removeNode n.id
  { g with nodes := insertByPriority n g.nodes }

/-- The lowest identity that no node has.  One of the first `n + 1` identities is free when
there are `n` nodes. -/
def freeId? (g : Graph) : Option NodeId :=
  ((List.range (g.nodes.length + 1)).map fun i => ⟨UInt32.ofNat i⟩).find? fun id => !g.contains id

/-- The identity for a new node that the context wants to have the given one. -/
def settleId (g : Graph) (id : NodeId) : NodeId :=
  if g.contains id then g.freeId?.getD id else id

/-- Makes a node of a type and adds it. -/
def createNode (g : Graph) (t : NodeType) : NodeId × Graph :=
  let (n, context) := Node.create t g.context
  let id := g.settleId n.id
  (id, { g with context }.addNode { n with id })

/-! ## Connecting -/

inductive Side where
  | input
  | output
deriving DecidableEq, Repr

def Side.text : Side → String
  | input => "input"
  | output => "output"

inductive ConnectionError where
  | noNode (node : NodeId)
  | noPort (node : NodeId) (side : Side) (index : Nat)
  | noPortNamed (node : NodeId) (name : String)
  | selfLoop
deriving DecidableEq, Repr

def ConnectionError.message : ConnectionError → String
  | .noNode node => "Node not found: " ++ node.text
  | .noPort node side index => s!"Node {node.text} has no {side.text} port {index}"
  | .noPortNamed node name => s!"Node {node.text} has no port named '{name}'"
  | .selfLoop => "Self-loop not allowed"

/-- An index of a port as a byte. -/
def slot? (index : Nat) : Option UInt8 := if index < 256 then some (UInt8.ofNat index) else none

/-- Gives the value, or fails. -/
def orFail {α : Type} (e : ConnectionError) : Option α → Except ConnectionError α
  | some a => .ok a
  | none => .error e

/-- Takes note of an edge in the table and at its consumer's input; `before` tells whether the
input had a source, `name` is the input's and `info` the producer's. -/
def wire (g : Graph) (e : Edge) (before : Bool) (name : String) (info : ProducerInfo) : Graph :=
  let attach (n : Node) : Node :=
    let n := { n with ports := n.ports.modifyInput e.address.input.toNat (·.attach e.address) }
    let n := if before then n.disconnected name else n
    n.connected name info
  { g.modifyNode e.consumer attach with edges := g.edges.insert e }

/-- Feeds an input from an output; an edge that is there already is replaced. -/
def connect (g : Graph) (producer : NodeId) (output : Nat) (consumer : NodeId) (input : Nat) :
    Except ConnectionError (Edge × Graph) := do
  if producer = consumer then throw .selfLoop
  let source ← orFail (.noNode producer) (g.node? producer)
  let outputPort ← orFail (.noPort producer .output output) source.ports.outputs[output]?
  let target ← orFail (.noNode consumer) (g.node? consumer)
  let inputSlot ← orFail (.noPort consumer .input input) (slot? input)
  let outputSlot ← orFail (.noPort producer .output output) (slot? output)
  let inputPort ← orFail (.noPort consumer .input input) target.ports.inputs[input]?
  let e : Edge := ⟨consumer, producer, outputSlot, inputSlot⟩
  return (e, g.wire e inputPort.isConnected inputPort.name ⟨source.name, outputPort.name⟩)

/-- Feeds an input from an output, both given by name. -/
def connectNamed (g : Graph) (producer : NodeId) (output : String) (consumer : NodeId)
    (input : String) : Except ConnectionError (Edge × Graph) := do
  let source ← orFail (.noNode producer) (g.node? producer)
  let o ← orFail (.noPortNamed producer output) (source.ports.outputIndex? output)
  let target ← orFail (.noNode consumer) (g.node? consumer)
  let i ← orFail (.noPortNamed consumer input) (target.ports.inputIndex? input)
  g.connect producer o consumer i

/-- Removes the edge that feeds an input, and tells which one it was. -/
def disconnect (g : Graph) (consumer : NodeId) (input : Nat) : Option (Edge × Graph) := do
  let slot ← slot? input
  let n ← g.node? consumer
  let address ← n.ports.inputs[input]?.bind InputPort.source
  some (⟨consumer, address⟩,
    { g.modifyNode consumer (·.detach input) with edges := g.edges.remove (consumer, slot) })

/-! ## The whole graph -/

/-- Removes all nodes and edges, and starts identities, names and the clock anew. -/
def clear (g : Graph) : Graph :=
  { g with nodes := [], edges := EdgeTable.empty, context := g.context.reset }

/-- What a user is shown, in the order of the frame. -/
def views (g : Graph) : List View := g.nodes.map Node.view

end Graph

end Patchbay
