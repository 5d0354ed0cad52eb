import Patchbay.Graph.Basic
import Patchbay.Text.JsonTree
/-!
Summaries of a graph.

A summary lists the nodes in the order of the frame, each with its ports and
its view, and the edges by the names of the ports they join.  It is shown as
a JSON document that ends a line.
-/

namespace Patchbay

open Text

structure NodeSummary where
  id : NodeId
  name : String
  type : NodeType
  priority : Priority
  inputs : List String
  outputs : List (String × Kind)
  view : View

structure EdgeSummary where
  producer : NodeId
  output : String
  consumer : NodeId
  input : String
deriving DecidableEq

structure Summary where
  name : String
  nodes : List NodeSummary
  edges : List EdgeSummary

/-! ## Making a summary -/

variable [Formula.Engine]

def Node.summary (n : Node) : NodeSummary where
  id := n.id
  name := n.name
  type := n.type
  priority := n.priority
  inputs := n.ports.inputNames
  outputs := n.ports.outputs.map fun o => (o.name, o.cell.kind)
  view := n.view

namespace Graph

/-- The name of an output; without such a port it is the index. -/
def outputName (g : Graph) (id : NodeId) (index : UInt8) : String :=
  match (g.node? id).bind fun n => n.ports.outputs[index.toNat]? with
  | some o => o.name
  | none => toString index.toNat

/-- The name of an input; without such a port it is the index. -/
def inputName (g : Graph) (id : NodeId) (index : UInt8) : String :=
  match (g.node? id).bind fun n => n.ports.inputs[index.toNat]? with
  | some p => p.name
  | none => toString index.toNat

def edgeSummary (g : Graph) (e : Edge) : EdgeSummary where
  producer := e.producer
  output := g.outputName e.producer e.address.output
  consumer := e.consumer
  input := g.inputName e.consumer e.address.input

def summary (g : Graph) : Summary where
  name := g.name
  nodes := g.nodes.map Node.summary
  edges := g.edges.edges.map g.edgeSummary

end Graph

/-! ## Text -/

def NodeId.tree (id : NodeId) : JsonTree := .number id.val.toNat

def Row.tree (r : Row) : JsonTree := .object [("label", .text r.label), ("value", .text r.value)]

def View.tree (v : View) : JsonTree :=
  .object [("id", v.id.tree), ("title", .text v.title), ("rows", .list (v.rows.map Row.tree)),
    ("error", (v.error.map JsonTree.text).getD .null)]

def NodeSummary.tree (n : NodeSummary) : JsonTree :=
  .object [("id", n.id.tree), ("name", .text n.name), ("node_type", .text n.type.label),
    ("priority", .text n.priority.label), ("inputs", .list (n.inputs.map JsonTree.text)),
    ("outputs", .list (n.outputs.map fun (name, kind) => .list [.text name, .text kind.label])),
    ("view", n.view.tree)]

def EdgeSummary.tree (e : EdgeSummary) : JsonTree :=
  .object [("producer", e.producer.tree), ("output", .text e.output), ("consumer", e.consumer.tree),
    ("input", .text e.input)]

def Summary.tree (s : Summary) : JsonTree :=
  .object [("name", .text s.name), ("nodes", .list (s.nodes.map NodeSummary.tree)),
    ("edges", .list (s.edges.map EdgeSummary.tree))]

/-- The document, indented or compact. -/
def Summary.text (s : Summary) (indented : Bool) : String :=
  s.tree.render (if indented then .indented else .compact) 0 ++ "\n"

end Patchbay
