import Patchbay.Node.Basic
/-!
The turn of a node.

What other nodes supply is fixed while a node has its turn, so it is taken
down once, by input.  The turn then carries out the node's plan: it clears
the change flags, replaces the inputs, holds every gate against what is
supplied, lets the node finish, and posts the result.  A source that is lost
on the way is reported, and the node takes notice of each at the end.
-/

namespace Patchbay

/-- The cells that the inputs of a node read, by index. -/
abbrev Supply := List (Option Cell)

/-- What an input reads: nothing without a source, and nothing from an empty output. -/
def Supply.at? (supply : Supply) (d : Directory) (i : Nat) : Option Cell :=
  if d.inputs[i]?.any InputPort.isConnected then
    (supply[i]?.bind id).filter fun c => !c.value.isEmpty
  else none

/-- What the input of a given name reads. -/
def Supply.named? (supply : Supply) (d : Directory) (name : String) : Option Cell :=
  (d.inputIndex? name).bind (supply.at? d)

/-- The ports of a node in its turn, and the sources they have lost so far. -/
structure Turn where
  ports : Directory
  dropped : List Dropped

namespace Turn

/-- Replaces the inputs, if the plan says so. -/
def resize (names : Option (List String)) (t : Turn) : Turn :=
  match names with
  | none => t
  | some names =>
    let (ports, dropped) := t.ports.setInputs names
    ⟨ports, t.dropped ++ dropped⟩

/-- Takes the source from an input. -/
def detach (i : Nat) (t : Turn) : Turn :=
  let dropped := (t.ports.inputs[i]?.map Directory.droppedBy).getD []
  ⟨t.ports.modifyInput i InputPort.detach, t.dropped ++ dropped⟩

/-- Notes which kinds an input takes, and takes its source when another kind comes. -/
def hold (supply : Supply) (gate : Gate) (t : Turn) : Turn :=
  match t.ports.inputIndex? gate.input with
  | none => t
  | some i =>
    let supplied := (supply.at? t.ports i).map Cell.kind
    let noted : Turn :=
      { t with ports := t.ports.modifyInput i fun p => { p with accepted := gate.kinds } }
    if supplied.any fun k => !gate.kinds.contains k then noted.detach i else noted

/-- Holds gates one after the other. -/
def holdAll (supply : Supply) (gates : List Gate) (t : Turn) : Turn :=
  gates.foldl (fun t gate => t.hold supply gate) t

end Turn

/-- What a node finds on its inputs when its gates have been held. -/
def Readings.ofTurn (supply : Supply) (resized held : Turn) : Readings where
  cell := supply.named? held.ports
  refused name := (held.dropped.drop resized.dropped.length).any (·.name == name)

variable [Formula.Engine]

/-- The node after its turn, and the sources it has lost. -/
def Node.takeTurn (now : Moment) (supply : Supply) (n : Node) : Node × List Dropped :=
  let plan := n.behavior.plan now n.id
  let resized := Turn.resize plan.inputs ⟨n.ports.clearDirty, []⟩
  let held := resized.holdAll supply plan.gates
  let (behavior, posts) := plan.finish (Readings.ofTurn supply resized held)
  let ports := posts.foldl Directory.post held.ports
  let finished := { n with behavior, ports }
  (held.dropped.foldl (fun n d => n.disconnected d.name) finished, held.dropped)

end Patchbay
