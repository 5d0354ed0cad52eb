import Patchbay.Node.Basic
import Patchbay.Edge.Table
/-!
Blocks: one node of a scene as bytes.

A block holds the identity, the name and the class of a node, the names of
its inputs, the paddings, the edges that start at the node, its outputs with
their kinds and payloads, the fields of its type, and its place on the
screen.  Reading fills a new node of a known type field by field, so after a
failure the node still has what was read before.
-/

namespace Patchbay

open Bytes

variable [Formula.Engine]

namespace Block

/-! ## Writing -/

def nodeIdWire : Wire NodeId := Wire.u32.viaMap NodeId.val NodeId.mk

def vec2Bytes (v : Vec2) : List UInt8 := Value.vec2Wire.put v

/-- The far end of an edge: its output, the input it feeds, and the consumer. -/
def edgeBytes (e : Edge) : List UInt8 :=
  Wire.u8.put e.address.output ++ Wire.u8.put e.address.input ++ nodeIdWire.put e.consumer

/-- An output: the size of the payload, whether it is a fixed array or a list, the kind, and
the payload. -/
def outputBytes (o : OutputPort) : List UInt8 :=
  let payload := o.cell.value.toBytes
  Wire.u64.put (UInt64.ofNat payload.length) ++ Wire.flag.put o.cell.value.isArray ++
    Wire.flag.put o.cell.kind.isList ++ Wire.u8.put o.cell.kind.tag ++ payload

def inputNamesBytes (names : List String) : List UInt8 :=
  Wire.u32.put (UInt32.ofNat names.length) ++ names.flatMap Wire.text.put

def edgesBytes (edges : List Edge) : List UInt8 :=
  Wire.u64.put (UInt64.ofNat edges.length) ++ edges.flatMap edgeBytes

/-- The block of a node from which the given edges start. -/
def write (n : Node) (outgoing : List Edge) : List UInt8 :=
  nodeIdWire.put n.id ++ Wire.text.put n.name ++ Wire.u8.put n.priority.tag ++
    inputNamesBytes n.ports.inputNames ++ Wire.single.put n.ports.inputPadding ++
    Wire.single.put n.ports.outputPadding ++ edgesBytes outgoing ++
    n.ports.outputs.flatMap outputBytes ++ n.behavior.put ++ vec2Bytes n.geometry.position ++
    vec2Bytes n.geometry.size

/-! ## Reading -/

/-- Reads parts of a block into a node. -/
abbrev Filler := EStateM SceneError (Buffer × Node)

namespace Filler

/-- Reads a part and leaves the node alone. -/
def read {α : Type} (r : BlockReader α) : Filler α := fun (b, n) =>
  match r b with
  | .ok a b => .ok a (b, n)
  | .error e b => .error e (b, n)

/-- Changes the node. -/
def change (f : Node → Node) : Filler Unit := fun (b, n) => .ok () (b, f n)

def node : Filler Node := fun s => .ok s.2 s

end Filler

open BlockReader

def readName : BlockReader String := field Wire.text

def readNames : BlockReader (List String) := do
  many readName (← field Wire.u32).toNat

def readEdge (producer : NodeId) : BlockReader Edge := do
  let output ← field Wire.u8
  let input ← field Wire.u8
  let consumer ← field nodeIdWire
  return ⟨consumer, producer, output, input⟩

def readEdges (producer : NodeId) : BlockReader (List Edge) := do
  many (readEdge producer) (← field Wire.u64).toNat

/-- The kind with the given tag, whose flags have to agree. -/
def kindOf (index : Nat) (node : NodeId) (isArray isList : Bool) (tag : UInt8) :
    Except SceneError Kind :=
  match Kind.ofTag? tag with
  | none => .error (.value (.unknownTag tag))
  | some k =>
    if k.isList = isList ∧ (k == .floatArray) = isArray then .ok k
    else .error (.shape (.inconsistentFlags index node k))

/-- Reads the value of an output. -/
def readOutput (index : Nat) (node : NodeId) : BlockReader Value := do
  let size ← field Wire.u64
  let isArray ← field Wire.flag
  let isList ← field Wire.flag
  let kind ← BlockReader.ofExcept (kindOf index node isArray isList (← field Wire.u8))
  let bytes ← lift (Buffer.take size.toNat)
  BlockReader.ofExcept ((Value.ofBytes kind bytes).mapError .value)

def setPaddings (input output : Single) (n : Node) : Node :=
  { n with ports := { n.ports with inputPadding := input, outputPadding := output } }

/-- Reads the outputs from number `index` on, as many as given. -/
def readOutputs (index : Nat) : Nat → Filler Unit
  | 0 => return ()
  | count + 1 => do
    let v ← Filler.read (readOutput index (← Filler.node).id)
    Filler.change fun n => { n with ports := n.ports.modifyCell index (·.set v) }
    readOutputs (index + 1) count

/-- Reads the identity, the name, the class and the inputs. -/
def readHead : Filler Unit := do
  let id ← Filler.read (field nodeIdWire)
  Filler.change fun n => { n with id }
  let name ← Filler.read readName
  Filler.change (·.renamed name)
  let priority ← Filler.read (choice "priority" Priority.ofTag?)
  Filler.change fun n => { n with priority }
  let names ← Filler.read readNames
  Filler.change fun n => { n with ports := (n.ports.setInputs names).1 }
  let input ← Filler.read (field Wire.single)
  let output ← Filler.read (field Wire.single)
  Filler.change (setPaddings input output)

/-- Reads the place on the screen. -/
def readGeometry : Filler Unit := do
  let position ← Filler.read (field Value.vec2Wire)
  Filler.change fun n => { n with geometry := { n.geometry with position } }
  let size ← Filler.read (field Value.vec2Wire)
  Filler.change fun n => { n with geometry := { n.geometry with size } }

/-- Reads a block into a new node; gives the edges that start at it. -/
def read : Filler (List Edge) := do
  readHead
  let edges ← Filler.read (readEdges (← Filler.node).id)
  readOutputs 0 (← Filler.node).ports.outputs.length
  let behavior ← Filler.read (Behavior.get (← Filler.node).type)
  Filler.change fun n => { n with behavior }
  readGeometry
  return edges

end Block

end Patchbay
