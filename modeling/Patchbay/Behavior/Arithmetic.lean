import Patchbay.Frame.Plan
import Patchbay.Node.Error
import Patchbay.Scene.Reading
/-!
Arithmetic on two values.

Two numbers of one kind, and a float with a vector, are combined; a float
meets every component of a vector.  Integers wrap around, and a division of
integers fails without a divisor and where the quotient leaves the kind.
-/

namespace Patchbay

open Bytes

inductive Operation where
  | add
  | sub
  | mul
  | div
deriving DecidableEq, Inhabited, Repr

namespace Operation

def all : List Operation := [add, sub, mul, div]

def tag : Operation → UInt8
  | add => 0
  | sub => 1
  | mul => 2
  | div => 3

def ofTag? (t : UInt8) : Option Operation := all[t.toNat]?

theorem ofTag?_tag (o : Operation) : ofTag? o.tag = some o := by cases o <;> decide

def label : Operation → String
  | add => "A+B"
  | sub => "A-B"
  | mul => "A*B"
  | div => "A/B"

/-! ## Numbers -/

def onSingle : Operation → Single → Single → Single
  | add, x, y => x + y
  | sub, x, y => x - y
  | mul, x, y => x * y
  | div, x, y => x / y

/-- The quotient without its fraction, where there is one that fits. -/
def divideInt (x y : Int32) : Except NodeError Int32 :=
  if y = 0 ∨ (x = Int32.minValue ∧ y = -1) then .error .divisionByZero else .ok (x / y)

def onInt : Operation → Int32 → Int32 → Except NodeError Int32
  | add, x, y => .ok (x + y)
  | sub, x, y => .ok (x - y)
  | mul, x, y => .ok (x * y)
  | div, x, y => divideInt x y

def divideUInt (x y : UInt32) : Except NodeError UInt32 :=
  if y = 0 then .error .divisionByZero else .ok (x / y)

def onUInt : Operation → UInt32 → UInt32 → Except NodeError UInt32
  | add, x, y => .ok (x + y)
  | sub, x, y => .ok (x - y)
  | mul, x, y => .ok (x * y)
  | div, x, y => divideUInt x y

/-! ## Values -/

def apply (o : Operation) : Value → Value → Except NodeError Value
  | .float x, .float y => .ok (.float (o.onSingle x y))
  | .int x, .int y => (o.onInt x y).map .int
  | .uint x, .uint y => (o.onUInt x y).map .uint
  | .vector2 v, .vector2 w => .ok (.vector2 (v.zipWith o.onSingle w))
  | .vector3 v, .vector3 w => .ok (.vector3 (v.zipWith o.onSingle w))
  | .vector4 v, .vector4 w => .ok (.vector4 (v.zipWith o.onSingle w))
  | .float s, .vector2 v => .ok (.vector2 (v.map (o.onSingle s)))
  | .float s, .vector3 v => .ok (.vector3 (v.map (o.onSingle s)))
  | .float s, .vector4 v => .ok (.vector4 (v.map (o.onSingle s)))
  | .vector2 v, .float s => .ok (.vector2 (v.map (o.onSingle · s)))
  | .vector3 v, .float s => .ok (.vector3 (v.map (o.onSingle · s)))
  | .vector4 v, .float s => .ok (.vector4 (v.map (o.onSingle · s)))
  | a, b => .error (.typeMismatch "B" (KindSet.single a.kind) b.kind)

/-- The result for operands that may be missing: a lone operand is the result. -/
def combine (o : Operation) : Option Value → Option Value → Except NodeError Value
  | some a, some b => o.apply a b
  | some a, none => .ok a
  | none, some b => .ok b
  | none, none => .error (.missingInput "A")

end Operation

/-- A node that combines its inputs `A` and `B`. -/
structure Arithmetic where
  operation : Operation
  error : Option NodeError
deriving DecidableEq

namespace Arithmetic

def initial : Arithmetic := ⟨.add, none⟩

instance : Inhabited Arithmetic := ⟨initial⟩

def gates : List Gate := [⟨"A", .numeric⟩, ⟨"B", .numeric⟩]

def finish (a : Arithmetic) (r : Readings) : Arithmetic × List Post :=
  match a.operation.combine (r.value? "A") (r.value? "B") with
  | .ok v => ({ a with error := none }, [.publish 0 v])
  | .error e => ({ a with error := some e }, [])

def plan (a : Arithmetic) : Plan Arithmetic := ⟨none, gates, a.finish⟩

def rows (a : Arithmetic) (d : Directory) : List Row :=
  ⟨"mode", a.operation.label⟩ :: (d.firstValue?.map fun v => ⟨"result", v.text⟩).toList

def put (a : Arithmetic) : List UInt8 := Wire.u8.put a.operation.tag

def get : BlockReader Arithmetic := do
  return { initial with operation := ← BlockReader.choice "math mode" Operation.ofTag? }

end Arithmetic

end Patchbay
