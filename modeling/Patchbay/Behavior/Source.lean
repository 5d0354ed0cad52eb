import Patchbay.Frame.Plan
import Patchbay.Scene.Reading
import Patchbay.Number.Double
/-!
Nodes without inputs.

A constant, a row of four floats, a colour and an offset publish what they
were last set to; an edit waits until the node's next turn.  The clock
publishes the time.
-/

namespace Patchbay

open Bytes

/-! ## Constants -/

/-- The kinds of a constant. -/
inductive Scalar where
  | float
  | int
  | uint
deriving DecidableEq, Inhabited, Repr

namespace Scalar

def all : List Scalar := [float, int, uint]

def tag : Scalar → UInt8
  | float => 0
  | int => 1
  | uint => 2

def ofTag? (t : UInt8) : Option Scalar := all[t.toNat]?

theorem ofTag?_tag (s : Scalar) : ofTag? s.tag = some s := by cases s <;> decide

def label : Scalar → String
  | float => "float"
  | int => "int"
  | uint => "uint"

/-- The scalar with the given word. -/
def ofBits (s : Scalar) (bits : UInt32) : Value :=
  match s with
  | float => .float ⟨bits⟩
  | int => .int bits.toInt32
  | uint => .uint bits

/-- The word of one. -/
def oneBits : Scalar → UInt32
  | float => Single.one.bits
  | int => 1
  | uint => 1

/-- The kind and the word of a scalar. -/
def split? : Value → Option (Scalar × UInt32)
  | .float x => some (float, x.bits)
  | .int x => some (int, x.toUInt32)
  | .uint x => some (uint, x)
  | _ => none

end Scalar

/-- A scalar; the word of an edit is kept until it is published. -/
structure Constant where
  scalar : Scalar
  pending : Option UInt32
deriving DecidableEq, Inhabited

namespace Constant

def initial : Constant := ⟨.float, none⟩

def initialPosts : List Post := [.write 0 (Scalar.float.ofBits Scalar.float.oneBits)]

/-- Switches the kind; another kind starts at one. -/
def setScalar (c : Constant) (s : Scalar) : Constant :=
  if s = c.scalar then c else ⟨s, some s.oneBits⟩

/-- Takes a scalar of any kind; there is no constant of other kinds. -/
def setValue? (v : Value) : Option Constant :=
  (Scalar.split? v).map fun (s, bits) => ⟨s, some bits⟩

def plan (c : Constant) : Plan Constant :=
  match c.pending with
  | none => .simply c []
  | some bits => .simply { c with pending := none } [.publish 0 (c.scalar.ofBits bits)]

def rows (c : Constant) (d : Directory) : List Row :=
  ⟨"type", c.scalar.label⟩ :: (d.firstValue?.map fun v => ⟨"value", v.text⟩).toList

def put (c : Constant) : List UInt8 :=
  Wire.u8.put c.scalar.tag ++ (Wire.optional Wire.u32).put c.pending

def get : BlockReader Constant := do
  let scalar ← BlockReader.choice "scalar type" Scalar.ofTag?
  let pending ← BlockReader.field (Wire.optional Wire.u32)
  return ⟨scalar, pending⟩

end Constant

/-! ## Rows of four floats -/

/-- Four floats as a fixed array. -/
structure Quadruple where
  pending : Option Vec4
deriving DecidableEq, Inhabited

namespace Quadruple

def initial : Quadruple := ⟨none⟩

/-- Four floats as a value. -/
def array (v : Vec4) : Value := .floatArray v.components

def initialPosts : List Post := [.write 0 (array ⟨.zero, .zero, .zero, .zero⟩)]

def set (v : Vec4) : Quadruple := ⟨some v⟩

/-- An edit counts as a change even when it brings the floats that are there. -/
def plan (q : Quadruple) : Plan Quadruple :=
  .simply initial (q.pending.map fun v => Post.write 0 (array v)).toList

def rows (d : Directory) : List Row :=
  match d.firstValue? with
  | some (.floatArray xs) =>
    (["x", "y", "z", "w"].zip xs).map fun (label, x) => ⟨label, Decimal.fixed 3 x⟩
  | _ => []

def put (q : Quadruple) : List UInt8 := (Wire.optional Value.vec4Wire).put q.pending

def get : BlockReader Quadruple := do
  return ⟨← BlockReader.field (Wire.optional Value.vec4Wire)⟩

end Quadruple

/-! ## Colours -/

structure Tint where
  pending : Option Vec4
deriving DecidableEq, Inhabited

namespace Tint

def initial : Tint := ⟨none⟩

def initialPosts : List Post := [.write 0 (.vector4 Vec4.white)]

def set (v : Vec4) : Tint := ⟨some v⟩

def plan (t : Tint) : Plan Tint :=
  .simply initial (t.pending.map fun v => Post.publish 0 (.vector4 v)).toList

def rows (d : Directory) : List Row :=
  (d.firstValue?.map fun v => ⟨"rgba", v.text⟩).toList

def put (t : Tint) : List UInt8 := (Wire.optional Value.vec4Wire).put t.pending

def get : BlockReader Tint := do
  return ⟨← BlockReader.field (Wire.optional Value.vec4Wire)⟩

end Tint

/-! ## Offsets -/

/-- The offset of the world's positions in each step. -/
structure Offset where
  delta : Vec3
  pending : Option Vec3
deriving DecidableEq, Inhabited

namespace Offset

/-- One tenth, to the nearest float. -/
def tenth : Single := ⟨0x3dcccccd⟩

def initial : Offset := ⟨⟨tenth, tenth, tenth⟩, none⟩

def initialPosts : List Post := [.write 0 (.vector3 initial.delta)]

def set (o : Offset) (v : Vec3) : Offset := { o with pending := some v }

/-- The offset with an edit that waits. -/
def current (o : Offset) : Vec3 := o.pending.getD o.delta

def plan (o : Offset) : Plan Offset :=
  .simply ⟨o.current, none⟩ (o.pending.map fun v => Post.publish 0 (.vector3 v)).toList

def rows (o : Offset) : List Row := [⟨"delta", o.delta.text⟩]

def put (o : Offset) : List UInt8 :=
  Value.vec3Wire.put o.delta ++ (Wire.optional Value.vec3Wire).put o.pending

def get : BlockReader Offset := do
  let delta ← BlockReader.field Value.vec3Wire
  let pending ← BlockReader.field (Wire.optional Value.vec3Wire)
  return ⟨delta, pending⟩

end Offset

/-! ## The time -/

namespace Seconds

def perSecond : Nat := 1000000000

/-- A number of nanoseconds in seconds: the whole ones and the fraction, each rounded. -/
def ofNanos (n : Nat) : Float :=
  Double.ofNat (n / perSecond) + Double.ofNat (n % perSecond) / Double.ofNat perSecond

/-- Seconds, rounded up to hundredths. -/
def hundredths (n : Nat) : Single := Double.toSingle ((ofNanos n * 100.0).ceil / 100.0)

def posts (elapsed : Nat) : List Post := [.publish 0 (.float (hundredths elapsed))]

def rows (d : Directory) : List Row :=
  match d.firstValue? with
  | some (.float x) => [⟨"time", Decimal.fixed 2 x ++ " s"⟩]
  | _ => []

end Seconds

end Patchbay
