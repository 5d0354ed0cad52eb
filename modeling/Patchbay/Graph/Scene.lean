import Patchbay.Graph.Basic
import Patchbay.Scene.Block
/-!
Saved scenes.

A scene is the number of nodes, the next identity, the type of each node,
and a block for each.  Edges stand in the block of their producer and are
connected when all nodes are there; an edge that no longer fits is left out.
A scene that cannot be read leaves the graph empty.
-/

namespace Patchbay.Graph

open Bytes BlockReader

/-! ## Saving -/

variable [Formula.Engine]

/-- The scene of a graph. -/
def save (g : Graph) : List UInt8 :=
  Wire.u64.put (UInt64.ofNat g.nodes.length) ++ Wire.u32.put g.context.nextId ++
    g.nodes.map (·.type.tag) ++
    g.nodes.flatMap fun n => Wire.block.put (Block.write n (g.edges.outgoing n.id))

/-! ## Loading -/

/-- The number of nodes and the next identity.  A byte for each node has to follow. -/
def readCounts : BlockReader (Nat × UInt32) := do
  let count ← field Wire.u64
  let nextId ← field Wire.u32
  let remaining : Nat ← fun b => .ok b.remaining b
  if remaining < count.toNat then throw (.buffer (.tooShort count.toNat remaining))
  return (count.toNat, nextId)

/-- The type with a tag. -/
def typeOf (tag : UInt8) : Except SceneError NodeType :=
  match NodeType.ofTag? tag with
  | some t => .ok t
  | none => .error (.unknownNodeType tag)

def readType : BlockReader NodeType := do
  BlockReader.ofExcept (typeOf (← field Wire.u8))

/-- The node in a block, which has to be used up, and the edges that start at it. -/
def nodeOfBlock (fresh : Node) (bytes : List UInt8) : Except SceneError (Node × List Edge) :=
  match Block.read (Buffer.ofBytes bytes, fresh) with
  | .error e _ => .error e
  | .ok edges (b, n) =>
    if b.isExhausted then .ok (n, edges)
    else .error (.shape (.unreadBytes b.remaining n.id))

/-- What has been read of a scene: the nodes in reverse, their edges, and the context that has
given out names. -/
structure Loaded where
  nodes : List Node
  edges : List Edge
  context : Context

/-- Reads the block of a node of the given type. -/
def readNode (t : NodeType) (done : Loaded) : BlockReader Loaded := do
  let bytes ← lift Buffer.getBlock
  let (fresh, context) := Node.create t done.context
  let (n, edges) ← BlockReader.ofExcept (nodeOfBlock fresh bytes)
  if done.nodes.any (·.id == n.id) then throw (.shape (.duplicateNode n.id))
  return ⟨n :: done.nodes, done.edges ++ edges, context⟩

def readNodes (done : Loaded) : List NodeType → BlockReader Loaded
  | [] => return done
  | t :: types => do readNodes (← readNode t done) types

/-- The next identity after `id`; behind the last there is none. -/
def idAfter (id : NodeId) : UInt32 := UInt32.ofNat (min (id.val.toNat + 1) 0xffffffff)

/-- Reads all nodes; the next identity is behind that of every node. -/
def readScene (context : Context) : BlockReader Loaded := do
  let (count, nextId) ← readCounts
  let types ← many readType count
  let loaded ← readNodes ⟨[], [], context⟩ types
  let nodes := loaded.nodes.reverse
  let next := nodes.foldl (fun m n => max m (idAfter n.id)) nextId
  return { loaded with nodes, context := { loaded.context with nextId := next } }

/-- Connects a saved edge, if it fits. -/
def reconnect (g : Graph) (e : Edge) : Graph :=
  match g.connect e.producer e.address.output.toNat e.consumer e.address.input.toNat with
  | .ok (_, g) => g
  | .error _ => g

/-- The graph with what has been read of a scene. -/
def fill (g : Graph) (s : Loaded) : Graph :=
  let g := s.nodes.foldl addNode { g with context := s.context }
  s.edges.foldl reconnect g

/-- Replaces the contents of the graph by a scene.  After a failure the graph is empty. -/
def load (g : Graph) (bytes : List UInt8) : Except SceneError Unit × Graph :=
  let cleared := g.clear
  match readScene cleared.context (Buffer.ofBytes bytes) with
  | .ok s _ => (.ok (), cleared.fill s)
  | .error e _ => (.error e, cleared)

end Patchbay.Graph
