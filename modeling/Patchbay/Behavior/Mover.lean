import Patchbay.Frame.Plan
import Patchbay.Node.Error
import Patchbay.Scene.Reading
import Patchbay.Spline.Closed
/-!
A position that moves along a path.

The path is a line along an axis or along a direction, or a closed spline
through a list of points.  A direction stays in use after its source has
gone silent, and a spline is kept until its points change; both are dropped
when their input loses its source.
-/

namespace Patchbay

open Bytes

inductive PathMode where
  | alongX
  | alongY
  | alongZ
  | alongVector
  | closedSpline
deriving DecidableEq, Inhabited, Repr

namespace PathMode

def all : List PathMode := [alongX, alongY, alongZ, alongVector, closedSpline]

def tag : PathMode → UInt8
  | alongX => 0
  | alongY => 1
  | alongZ => 2
  | alongVector => 3
  | closedSpline => 4

def ofTag? (t : UInt8) : Option PathMode := all[t.toNat]?

theorem ofTag?_tag (m : PathMode) : ofTag? m.tag = some m := by cases m <;> decide

def label : PathMode → String
  | alongX => "x"
  | alongY => "y"
  | alongZ => "z"
  | alongVector => "vector"
  | closedSpline => "spline"

def parameterInput : String := "t"

def directionInput : String := "forward"

def pointsInput : String := "points"

/-- The inputs, each with the kind it takes. -/
def gates : PathMode → List Gate
  | alongX | alongY | alongZ => [⟨parameterInput, .single .float⟩]
  | alongVector => [⟨parameterInput, .single .float⟩, ⟨directionInput, .single .vector3⟩]
  | closedSpline => [⟨parameterInput, .single .float⟩, ⟨pointsInput, .single .vector3List⟩]

def inputNames (m : PathMode) : List String := m.gates.map Gate.input

end PathMode

/-- A node that publishes a position on a path. -/
structure Mover where
  mode : PathMode
  pendingMode : Option PathMode
  start : Vec3
  forward : Vec3
  spline : Option ClosedSpline
  error : Option NodeError

namespace Mover

/-- Along the third axis. -/
def defaultForward : Vec3 := ⟨.zero, .zero, .one⟩

def initial : Mover := ⟨.alongX, none, Vec3.zero, defaultForward, none, none⟩

instance : Inhabited Mover := ⟨initial⟩

/-- The mode with an edit that waits. -/
def currentMode (m : Mover) : PathMode := m.pendingMode.getD m.mode

def setMode (m : Mover) (mode : PathMode) : Mover := { m with pendingMode := some mode }

def setStart (m : Mover) (v : Vec3) : Mover := { m with start := v }

/-! ## The turn -/

/-- Takes over a new mode; what belonged to another one is dropped. -/
def switched (m : Mover) : Mover :=
  let mode := m.currentMode
  if mode = m.mode then { m with pendingMode := none }
  else { m with mode, pendingMode := none, spline := none, forward := defaultForward }

/-- The direction after a look at its input: one that is long enough replaces it. -/
def turned (m : Mover) (r : Readings) : Mover :=
  match r.vector3? PathMode.directionInput with
  | some v => if Single.epsilon.below v.length then { m with forward := v.normalized } else m
  | none => m

/-- The spline after a look at the cell its input reads: one is made when there is none yet
or the points were written since their producer's last turn. -/
def refitted (m : Mover) (c : Cell) : Mover :=
  if m.spline.isNone || c.dirty then
    { m with spline := c.value.vector3List?.bind ClosedSpline.through }
  else m

def missingPoints (m : Mover) : Mover × List Post :=
  ({ m with error := some (.missingInput PathMode.pointsInput) }, [])

/-- Publishes the position. -/
def placed (m : Mover) (p : Vec3) : Mover × List Post :=
  ({ m with error := none }, [.publish 0 (.vector3 p)])

/-- The turn on a spline; without points the position stays. -/
def finishSpline (m : Mover) (t : Single) (r : Readings) : Mover × List Post :=
  match r.cell PathMode.pointsInput with
  | none => m.missingPoints
  | some c =>
    let m := m.refitted c
    match m.spline with
    | some s => m.placed (s.position t)
    | none => m.missingPoints

def finish (m : Mover) (r : Readings) : Mover × List Post :=
  let t := (r.float? PathMode.parameterInput).getD .zero
  match m.mode with
  | .alongX => m.placed (m.start + ⟨t, .zero, .zero⟩)
  | .alongY => m.placed (m.start + ⟨.zero, t, .zero⟩)
  | .alongZ => m.placed (m.start + ⟨.zero, .zero, t⟩)
  | .alongVector =>
    let m := m.turned r
    m.placed (m.start + m.forward.scale t)
  | .closedSpline => m.finishSpline t r

def plan (m : Mover) : Plan Mover :=
  let next := m.switched
  { inputs := if next.mode = m.mode then none else some next.mode.inputNames
    gates := next.mode.gates
    finish := next.finish }

/-! ## Wiring, view and fields -/

def connected (m : Mover) (input : String) : Mover :=
  if input = PathMode.pointsInput then { m with spline := none } else m

def disconnected (m : Mover) (input : String) : Mover :=
  if input = PathMode.pointsInput then { m with spline := none }
  else if input = PathMode.directionInput then { m with forward := defaultForward }
  else m

def rows (m : Mover) (d : Directory) : List Row :=
  ⟨"mode", m.mode.label⟩ ::
    (if m.mode = .closedSpline then [] else [⟨"start", m.start.text⟩]) ++
    d.outputs.map fun o => ⟨o.name, o.cell.value.text⟩

def put (m : Mover) : List UInt8 :=
  Wire.u8.put m.mode.tag ++ (Wire.optional Wire.u8).put (m.pendingMode.map PathMode.tag) ++
    Value.vec3Wire.put m.start

def get : BlockReader Mover := do
  let mode ← BlockReader.choice "path mode" PathMode.ofTag?
  let pendingMode ← BlockReader.optionalChoice "path mode" PathMode.ofTag?
  let start ← BlockReader.field Value.vec3Wire
  return { initial with mode, pendingMode, start }

end Mover

end Patchbay
