import Patchbay.Frame.Plan
import Patchbay.Node.Error
import Patchbay.Scene.Reading
/-!
A mesh from a file.

A new path starts a load at the node's next turn and takes the mesh of the
old path back.  While a load is under way the node asks for its result once
a turn; the mesh, or the error, ends the load.  A load that cannot be started
is an error at once.
-/

namespace Patchbay

open Bytes

inductive MeshStatus where
  | noFile
  | loading (load : Load)
  | ready
  | invalid
deriving DecidableEq, Inhabited, Repr

namespace MeshStatus

def label : MeshStatus → String
  | noFile => "no file"
  | loading _ => "loading"
  | ready => "ready"
  | invalid => "invalid"

def load? : MeshStatus → Option Load
  | loading load => some load
  | _ => none

end MeshStatus

/-- A node that publishes the mesh in a file. -/
structure MeshSource where
  path : String
  pendingPath : Option String
  status : MeshStatus
  /-- How many loads the node has started. -/
  started : Nat
  error : Option NodeError
deriving DecidableEq

namespace MeshSource

def initial : MeshSource := ⟨"", none, .noFile, 0, none⟩

instance : Inhabited MeshSource := ⟨initial⟩

/-- The path with an edit that waits. -/
def currentPath (m : MeshSource) : String := m.pendingPath.getD m.path

def setPath (m : MeshSource) (path : String) : MeshSource := { m with pendingPath := some path }

/-! ## The turn -/

/-- Starts the load of the path, if that can be done. -/
def loading (now : Moment) (id : NodeId) (m : MeshSource) : MeshSource :=
  let load : Load := ⟨m.path, resolveAsset now.assetsRoot m.path, m.started⟩
  match now.refusal? id load with
  | some e => { m with status := .invalid, error := some (.resource e) }
  | none => { m with status := .loading load, started := m.started + 1 }

/-- Takes over a new path, and starts its load unless it is empty. -/
def redirected (now : Moment) (id : NodeId) (m : MeshSource) : MeshSource × List Post :=
  match m.pendingPath with
  | none => (m, [])
  | some path =>
    let m := { m with path, pendingPath := none, status := .noFile, error := none }
    (if path.isEmpty then m else m.loading now id, [.publish 0 .empty])

/-- Ends a load with its result. -/
def settled (m : MeshSource) : Except LoadError MeshData → MeshSource × List Post
  | .ok mesh => ({ m with status := .ready }, [.publish 0 (.mesh mesh)])
  | .error e => ({ m with status := .invalid, error := some (.resource e) }, [.publish 0 .empty])

/-- Asks for the result of a load that is under way. -/
def polled (poll : Load → LoadPoll (Except LoadError MeshData)) (m : MeshSource) :
    MeshSource × List Post :=
  match m.status with
  | .loading load =>
    match poll load with
    | .pending => (m, [])
    | .ready result => m.settled result
    | .failed e => m.settled (.error e)
  | _ => (m, [])

def plan (now : Moment) (id : NodeId) (m : MeshSource) : Plan MeshSource :=
  let (m, withdrawn) := m.redirected now id
  let (m, posts) := m.polled (now.poll id)
  .simply m (withdrawn ++ posts)

/-! ## View and fields -/

def rows (m : MeshSource) (d : Directory) : List Row :=
  [⟨"file", m.currentPath⟩, ⟨"status", m.status.label⟩] ++
    match d.firstValue? with
    | some (.mesh mesh) => [⟨"vertices", toString mesh.vertexCount⟩]
    | _ => []

def put (m : MeshSource) : List UInt8 := Wire.text.put m.currentPath

def get : BlockReader MeshSource := do
  return { initial with pendingPath := some (← BlockReader.field Wire.text) }

end MeshSource

end Patchbay
