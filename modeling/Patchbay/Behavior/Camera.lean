import Patchbay.Frame.Plan
import Patchbay.Scene.Reading
/-!
A camera.

The first input is the position; the second is the point looked at or the
direction of view, as the mode says.  A direction too short to have a unit
vector is replaced by the default one.
-/

namespace Patchbay

open Bytes

inductive CameraMode where
  | orbit
  | free
deriving DecidableEq, Inhabited, Repr

namespace CameraMode

def all : List CameraMode := [orbit, free]

def tag : CameraMode → UInt8
  | orbit => 0
  | free => 1

def ofTag? (t : UInt8) : Option CameraMode := all[t.toNat]?

theorem ofTag?_tag (m : CameraMode) : ofTag? m.tag = some m := by cases m <;> decide

def label : CameraMode → String
  | orbit => "orbit"
  | free => "free"

def positionInput : String := "position"

/-- The input for what the camera faces. -/
def facingInput : CameraMode → String
  | orbit => "lookAt"
  | free => "forward"

def inputNames (m : CameraMode) : List String := [positionInput, m.facingInput]

end CameraMode

/-- A node that publishes a position and a unit direction of view. -/
structure Camera where
  mode : CameraMode
  pendingMode : Option CameraMode
  position : Vec3
  forward : Vec3
deriving DecidableEq

namespace Camera

/-- Against the third axis. -/
def defaultForward : Vec3 := ⟨.zero, .zero, ⟨0xbf800000⟩⟩

def initial : Camera := ⟨.orbit, none, ⟨.zero, .zero, Single.ofNat 5⟩, defaultForward⟩

instance : Inhabited Camera := ⟨initial⟩

/-- The mode with an edit that waits. -/
def currentMode (c : Camera) : CameraMode := c.pendingMode.getD c.mode

def setMode (c : Camera) (m : CameraMode) : Camera := { c with pendingMode := some m }

def setPosition (c : Camera) (v : Vec3) : Camera := { c with position := v }

def setForward (c : Camera) (v : Vec3) : Camera := { c with forward := v }

/-- The unit vector of a direction, or the default when it is too short. -/
def unitOrDefault (v : Vec3) : Vec3 :=
  if Single.epsilon.below v.length then v.normalized else defaultForward

/-- Takes over a new mode. -/
def switched (c : Camera) : Camera := { c with mode := c.currentMode, pendingMode := none }

/-- The direction of view, of any length. -/
def direction (c : Camera) (position : Vec3) (facing : Option Vec3) : Vec3 :=
  match c.mode, facing with
  | .orbit, some target => target - position
  | .free, some direction => direction
  | _, none => c.forward

def finish (c : Camera) (r : Readings) : Camera × List Post :=
  let position := (r.vector3? CameraMode.positionInput).getD c.position
  let forward := c.direction position (r.vector3? c.mode.facingInput)
  (c, [.publish 0 (.vector3 position), .publish 1 (.vector3 (unitOrDefault forward))])

def plan (c : Camera) : Plan Camera :=
  let next := c.switched
  { inputs := if next.mode = c.mode then none else some next.mode.inputNames
    gates := next.mode.inputNames.map fun name => ⟨name, .single .vector3⟩
    finish := next.finish }

def rows (c : Camera) (d : Directory) : List Row :=
  ⟨"mode", c.mode.label⟩ :: d.outputs.map fun o => ⟨o.name, o.cell.value.text⟩

def put (c : Camera) : List UInt8 :=
  Wire.u8.put c.mode.tag ++ (Wire.optional Wire.u8).put (c.pendingMode.map CameraMode.tag) ++
    Value.vec3Wire.put c.position ++ Value.vec3Wire.put c.forward

def get : BlockReader Camera := do
  let mode ← BlockReader.choice "camera mode" CameraMode.ofTag?
  let pendingMode ← BlockReader.optionalChoice "camera mode" CameraMode.ofTag?
  let position ← BlockReader.field Value.vec3Wire
  let forward ← BlockReader.field Value.vec3Wire
  return ⟨mode, pendingMode, position, forward⟩

end Camera

end Patchbay
