import Patchbay.Value.Kind
import Patchbay.Value.Vector
/-!
Values on ports.

A `Value` is a payload of one of the sixteen kinds.  `same` is equality of
payloads as numbers, which is not equality of values: a payload with a NaN
is not the same as itself, and zeros of both signs are.  A `Cell` is a value
with the flag that tells whether it changed in the current frame.
-/

namespace Patchbay

/-- The vertices of a mesh, each as three floats of position and three of normal. -/
structure MeshData where
  floats : List Single
deriving DecidableEq, Inhabited, Repr

def MeshData.floatsPerVertex : Nat := 6

/-- The number of complete vertices. -/
def MeshData.vertexCount (m : MeshData) : Nat := m.floats.length / MeshData.floatsPerVertex

/-- What the renderer is told in one frame. -/
structure RenderData where
  instances : UInt32
  positions : List Vec3
  colors : List Vec4
  meshVertices : UInt32
  fogMin : Single
  fogMax : Single
  fogColor : Vec3
deriving DecidableEq, Inhabited, Repr

inductive Value where
  | empty
  | float (x : Single)
  | int (x : Int32)
  | uint (x : UInt32)
  | vector2 (v : Vec2)
  | vector3 (v : Vec3)
  | vector4 (v : Vec4)
  | floatArray (xs : List Single)
  | mesh (m : MeshData)
  | render (r : RenderData)
  | floatList (xs : List Single)
  | intList (xs : List Int32)
  | uintList (xs : List UInt32)
  | vector2List (vs : List Vec2)
  | vector3List (vs : List Vec3)
  | vector4List (vs : List Vec4)
deriving DecidableEq, Inhabited

/-! ## Equality of payloads as numbers -/

/-- Lists of one length that agree place by place. -/
def sameAll {α : Type} (same : α → α → Bool) : List α → List α → Bool
  | [], [] => true
  | a :: as, b :: bs => same a b && sameAll same as bs
  | _, _ => false

def RenderData.same (a b : RenderData) : Bool :=
  a.instances == b.instances && sameAll Vec3.same a.positions b.positions &&
    sameAll Vec4.same a.colors b.colors && a.meshVertices == b.meshVertices &&
    a.fogMin.same b.fogMin && a.fogMax.same b.fogMax && a.fogColor.same b.fogColor

namespace Value

def same : Value → Value → Bool
  | .empty, .empty => true
  | .float x, .float y => x.same y
  | .int x, .int y => x == y
  | .uint x, .uint y => x == y
  | .vector2 x, .vector2 y => x.same y
  | .vector3 x, .vector3 y => x.same y
  | .vector4 x, .vector4 y => x.same y
  | .floatArray x, .floatArray y => sameAll Single.same x y
  | .mesh x, .mesh y => sameAll Single.same x.floats y.floats
  | .render x, .render y => x.same y
  | .floatList x, .floatList y => sameAll Single.same x y
  | .intList x, .intList y => x == y
  | .uintList x, .uintList y => x == y
  | .vector2List x, .vector2List y => sameAll Vec2.same x y
  | .vector3List x, .vector3List y => sameAll Vec3.same x y
  | .vector4List x, .vector4List y => sameAll Vec4.same x y
  | _, _ => false

/-! ## Kind, length, parts -/

def kind : Value → Kind
  | .empty => .empty
  | .float _ => .float
  | .int _ => .int
  | .uint _ => .uint
  | .vector2 _ => .vector2
  | .vector3 _ => .vector3
  | .vector4 _ => .vector4
  | .floatArray _ => .floatArray
  | .mesh _ => .mesh
  | .render _ => .render
  | .floatList _ => .floatList
  | .intList _ => .intList
  | .uintList _ => .uintList
  | .vector2List _ => .vector2List
  | .vector3List _ => .vector3List
  | .vector4List _ => .vector4List

def isEmpty (v : Value) : Bool := v.kind == .empty

def isArray (v : Value) : Bool := v.kind == .floatArray

/-- The number of elements of a list. -/
def listLength? : Value → Option Nat
  | .floatList xs => some xs.length
  | .intList xs => some xs.length
  | .uintList xs => some xs.length
  | .vector2List vs => some vs.length
  | .vector3List vs => some vs.length
  | .vector4List vs => some vs.length
  | _ => none

def float? : Value → Option Single
  | .float x => some x
  | _ => none

def uint? : Value → Option UInt32
  | .uint x => some x
  | _ => none

def vector3? : Value → Option Vec3
  | .vector3 v => some v
  | _ => none

def vector3List? : Value → Option (List Vec3)
  | .vector3List vs => some vs
  | _ => none

def vector4List? : Value → Option (List Vec4)
  | .vector4List vs => some vs
  | _ => none

def mesh? : Value → Option MeshData
  | .mesh m => some m
  | _ => none

/-! ## Text -/

/-- The most elements of a list that its text shows. -/
def shownElements : Nat := 4

/-- The first elements in brackets, and the number of all when some are left out. -/
def listText {α : Type} (text : α → String) (xs : List α) : String :=
  let shown := String.intercalate ", " ((xs.take shownElements).map text)
  let rest := if shownElements < xs.length then s!", ... ({xs.length} items)" else ""
  "[" ++ shown ++ rest ++ "]"

/-- A signed number in decimal. -/
def intText (x : Int32) : String := toString x.toInt

def text : Value → String
  | .empty => "-"
  | .float x => Decimal.fixed 3 x
  | .int x => intText x
  | .uint x => toString x.toNat
  | .vector2 v => v.text
  | .vector3 v => v.text
  | .vector4 v => v.text
  | .floatArray xs => listText Decimal.shortest xs
  | .mesh m => s!"mesh ({m.vertexCount} vertices)"
  | .render r => s!"render ({r.instances.toNat} instances, {r.meshVertices.toNat} mesh vertices)"
  | .floatList xs => listText Decimal.shortest xs
  | .intList xs => listText intText xs
  | .uintList xs => listText (fun x => toString x.toNat) xs
  | .vector2List vs => listText Vec2.text vs
  | .vector3List vs => listText Vec3.text vs
  | .vector4List vs => listText Vec4.text vs

end Value

/-! ## Errors -/

/-- Why a value cannot be had in the form asked for. -/
inductive ValueError where
  | typeMismatch (expected found : Kind)
  | arrayAccess
  | notAnArray (found : Kind)
  | payloadSize (kind : Kind) (length : Nat)
  | unknownTag (tag : UInt8)
  | badRender (detail : String)
deriving DecidableEq, Repr

/-- A byte as two hexadecimal digits. -/
def hexByte (b : UInt8) : String :=
  String.ofList [Nat.digitChar (b.toNat / 16), Nat.digitChar (b.toNat % 16)]

def ValueError.message : ValueError → String
  | .typeMismatch expected found => s!"Type mismatch: expected {expected.name}, found {found.name}"
  | .arrayAccess => "Value stores a fixed array; use the array accessor"
  | .notAnArray found => s!"Value of kind {found.name} is not a fixed array"
  | .payloadSize kind length => s!"Payload of {length} bytes does not fit kind {kind.name}"
  | .unknownTag tag => "Unknown kind tag: 0x" ++ hexByte tag
  | .badRender detail => "Structured payload codec error: " ++ detail

/-! ## Cells -/

/-- A value, and whether it was written since the flag was last cleared. -/
structure Cell where
  value : Value
  dirty : Bool
deriving DecidableEq, Inhabited

namespace Cell

/-- A cell that nothing has been written to. -/
def blank : Cell := ⟨.empty, false⟩

def kind (c : Cell) : Kind := c.value.kind

/-- Writes a value. -/
def set (_ : Cell) (v : Value) : Cell := ⟨v, true⟩

def clearDirty (c : Cell) : Cell := ⟨c.value, false⟩

def markDirty (c : Cell) : Cell := ⟨c.value, true⟩

/-- Writes a value unless the cell already holds the same payload. -/
def publish (c : Cell) (v : Value) : Cell := if c.value.same v then c else c.set v

/-- The payload, when it is of the kind asked for and no fixed array. -/
def get (c : Cell) (k : Kind) : Except ValueError Value :=
  if c.value.isArray then .error .arrayAccess
  else if c.kind = k then .ok c.value
  else .error (.typeMismatch k c.kind)

/-- The elements of a fixed array. -/
def getArray (c : Cell) : Except ValueError (List Single) :=
  match c.value with
  | .floatArray xs => .ok xs
  | v => .error (.notAnArray v.kind)

/-- Puts another payload of the same kind in place, without touching the flag. -/
def edit (c : Cell) (v : Value) : Except ValueError Cell :=
  (c.get v.kind).map fun _ => ⟨v, c.dirty⟩

/-- Changes the elements of a fixed array in place, without touching the flag. -/
def editArray (c : Cell) (f : List Single → List Single) : Except ValueError Cell :=
  c.getArray.map fun xs => ⟨.floatArray (f xs), c.dirty⟩

end Cell

end Patchbay
