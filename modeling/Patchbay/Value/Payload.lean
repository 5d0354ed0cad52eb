import Patchbay.Value.Basic
import Patchbay.Bytes.Wire
/-!
Values as bytes.

A payload carries no tag: its kind is known from elsewhere.  Scalars and
vectors are their words, arrays, meshes and lists the words of their
elements one after the other, and the render parameters a row of fields in
wire format.  What follows the last field of render parameters is ignored;
every other payload must fit exactly.
-/

namespace Patchbay.Value

open Bytes

/-! ## Writing -/

def vec2Wire : Wire Vec2 :=
  (Wire.pair Wire.single Wire.single).viaMap (fun v => (v.x, v.y)) fun (x, y) => ⟨x, y⟩

def vec3Wire : Wire Vec3 :=
  (Wire.pair Wire.single (Wire.pair Wire.single Wire.single)).viaMap
    (fun v => (v.x, v.y, v.z)) fun (x, y, z) => ⟨x, y, z⟩

def vec4Wire : Wire Vec4 :=
  (Wire.pair Wire.single (Wire.pair Wire.single (Wire.pair Wire.single Wire.single))).viaMap
    (fun v => (v.x, v.y, v.z, v.w)) fun (x, y, z, w) => ⟨x, y, z, w⟩

def renderWire : Wire RenderData :=
  (Wire.pair Wire.u32 <| Wire.pair (Wire.list vec3Wire) <| Wire.pair (Wire.list vec4Wire) <|
    Wire.pair Wire.u32 <| Wire.pair Wire.single <| Wire.pair Wire.single vec3Wire).viaMap
    (fun r => (r.instances, r.positions, r.colors, r.meshVertices, r.fogMin, r.fogMax, r.fogColor))
    fun (instances, positions, colors, meshVertices, fogMin, fogMax, fogColor) =>
      ⟨instances, positions, colors, meshVertices, fogMin, fogMax, fogColor⟩

def toBytes : Value → List UInt8
  | .empty => []
  | .float x => Wire.single.put x
  | .int x => Wire.i32.put x
  | .uint x => Wire.u32.put x
  | .vector2 v => vec2Wire.put v
  | .vector3 v => vec3Wire.put v
  | .vector4 v => vec4Wire.put v
  | .floatArray xs => xs.flatMap Wire.single.put
  | .mesh m => m.floats.flatMap Wire.single.put
  | .render r => renderWire.put r
  | .floatList xs => xs.flatMap Wire.single.put
  | .intList xs => xs.flatMap Wire.i32.put
  | .uintList xs => xs.flatMap Wire.u32.put
  | .vector2List vs => vs.flatMap vec2Wire.put
  | .vector3List vs => vs.flatMap vec3Wire.put
  | .vector4List vs => vs.flatMap vec4Wire.put

/-- The bytes of a list. -/
def listBytes? (v : Value) : Option (List UInt8) :=
  if v.kind.isList then some v.toBytes else none

/-! ## Reading -/

/-- One element that takes up the whole payload. -/
def readOne {α : Type} (k : Kind) (width : Nat) (w : Wire α) (bytes : List UInt8) :
    Except ValueError α :=
  if bytes.length = width then
    match w.get bytes with
    | .ok (a, _) => .ok a
    | .error _ => .error (.payloadSize k bytes.length)
  else .error (.payloadSize k bytes.length)

/-- As many elements as the payload holds, when it holds a whole number of them. -/
def readRow {α : Type} (k : Kind) (width : Nat) (w : Wire α) (bytes : List UInt8) :
    Except ValueError (List α) :=
  if bytes.length % width = 0 then
    match w.getMany [] (bytes.length / width) bytes with
    | .ok (as, _) => .ok as
    | .error _ => .error (.payloadSize k bytes.length)
  else .error (.payloadSize k bytes.length)

def readRender (bytes : List UInt8) : Except ValueError RenderData :=
  match renderWire.get bytes with
  | .ok (r, _) => .ok r
  | .error e => .error (.badRender (e.describe "io error: unexpected end of file"))

/-- The payload of the given kind. -/
def ofBytes (k : Kind) (bytes : List UInt8) : Except ValueError Value :=
  match k with
  | .empty => if bytes.isEmpty then .ok .empty else .error (.payloadSize k bytes.length)
  | .float => (readOne k 4 Wire.single bytes).map .float
  | .int => (readOne k 4 Wire.i32 bytes).map .int
  | .uint => (readOne k 4 Wire.u32 bytes).map .uint
  | .vector2 => (readOne k 8 vec2Wire bytes).map .vector2
  | .vector3 => (readOne k 12 vec3Wire bytes).map .vector3
  | .vector4 => (readOne k 16 vec4Wire bytes).map .vector4
  | .floatArray => (readRow k 4 Wire.single bytes).map .floatArray
  | .mesh => (readRow k 4 Wire.single bytes).map fun xs => .mesh ⟨xs⟩
  | .render => (readRender bytes).map .render
  | .floatList => (readRow k 4 Wire.single bytes).map .floatList
  | .intList => (readRow k 4 Wire.i32 bytes).map .intList
  | .uintList => (readRow k 4 Wire.u32 bytes).map .uintList
  | .vector2List => (readRow k 8 vec2Wire bytes).map .vector2List
  | .vector3List => (readRow k 12 vec3Wire bytes).map .vector3List
  | .vector4List => (readRow k 16 vec4Wire bytes).map .vector4List

end Patchbay.Value

namespace Patchbay.Cell

/-- Writes the payload of the given kind that the bytes denote. -/
def setBytes (c : Cell) (k : Kind) (bytes : List UInt8) : Except ValueError Cell :=
  (Value.ofBytes k bytes).map c.set

end Patchbay.Cell
