import Patchbay.Graph.Frame
import Patchbay.Player.Host
import Patchbay.Player.Settings
/-!
Running a graph.

A run gives the graph a number of frames of one length.  The views are
printed after every so many frames and after the last one.  A load that a
frame has started is finished when the next frame begins.
-/

namespace Patchbay.Run

variable [Formula.Engine] {m : Type → Type} [Monad m]

/-- The results of the loads that are under way. -/
def results (host : Host m) (g : Graph) : m (List (Load × Except LoadError MeshData)) :=
  g.loads.mapM fun (_, load) => do
    return (load, MeshData.ofFile load.file (← host.readFile load.file))

/-- How loads stand when those in the list have their results. -/
def pollOf (results : List (Load × Except LoadError MeshData)) : Graph.Poll := fun _ load =>
  match results.find? (·.1 == load) with
  | some (_, result) => .ready result
  | none => .pending

/-- One frame. -/
def frame (host : Host m) (nanos : Nat) (g : Graph) : m Graph := do
  return g.step (pollOf (← results host g)) nanos

/-- The views of a graph after a frame. -/
def frameText (number : Nat) (g : Graph) : String :=
  s!"== frame {number} ==\n" ++ String.join (g.views.map View.text)

/-- Whether the views are printed after a frame that is not the last. -/
def isPrinted (s : Settings) (number : Nat) : Bool :=
  s.printEvery != 0 && number % s.printEvery == 0 && number != s.frames

/-- The frames behind number `done`, as many as given. -/
def frames (host : Host m) (s : Settings) (done : Nat) : Nat → Graph → m Graph
  | 0, g => return g
  | left + 1, g => do
    let g ← frame host s.frameNanos g
    if isPrinted s (done + 1) then host.print (frameText (done + 1) g)
    frames host s (done + 1) left g

/-- The graph with its assets where the settings say. -/
def placeAssets (s : Settings) (g : Graph) : Graph :=
  match s.assetsDir with
  | some root => { g with context := { g.context with assetsRoot := some root } }
  | none => g

/-- Runs all frames and prints the views at the end. -/
def run (host : Host m) (s : Settings) (g : Graph) : m Graph := do
  let g ← frames host s 0 s.frames (placeAssets s g)
  host.print (frameText s.frames g)
  return g

end Patchbay.Run
