import Mathlib.Logic.ExistsUnique
import Patchbay.Behavior.Generator
import Patchbay.Behavior.Lists
import Patchbay.Formula.Basic
import Patchbay.Proofs.Wires
/-!
Where the elements of a list lie.

Places are listed plane by plane and row by row, so that the place of an
element in the list comes from two rounds of the same fact: in a row of blocks
of one width the entry `j` of the block `k` is the entry `j + k * width` of
the whole (`getElem?_blocks`).  An element is made for each place, and the
list is made when every formula that counts has a value at every place.
-/

namespace Patchbay

/-! ## Blocks of one width -/

section Blocks
variable {α : Type} {block : Nat → List α} {width : Nat}

end Blocks

/-! ## Places -/

namespace Extents

variable (s : Extents)

/-- Where the element of a place is in the list. -/
def index (i j k : Nat) : Nat := i + j * s.x.toNat + k * s.x.toNat * s.y.toNat

variable {s} {i j k : Nat}

end Extents

/-! ## Elements -/

namespace ElementKind

/-- The element that is made of components. -/
def single (kind : ElementKind) (e : Components Float) : Value :=
  match kind with
  | float => .float (Double.toSingle e.x)
  | int => .int (Double.toInt32 e.x)
  | uint => .uint (Double.toUInt32 e.x)
  | vector2 => .vector2 ⟨Double.toSingle e.x, Double.toSingle e.y⟩
  | vector3 => .vector3 ⟨Double.toSingle e.x, Double.toSingle e.y, Double.toSingle e.z⟩
  | vector4 =>
    .vector4 ⟨Double.toSingle e.x, Double.toSingle e.y, Double.toSingle e.z, Double.toSingle e.w⟩

end ElementKind

/-- The components of a single number or vector. -/
def Value.components : Value → List Value
  | .float x => [.float x]
  | .int x => [.int x]
  | .uint x => [.uint x]
  | .vector2 v => [.float v.x, .float v.y]
  | .vector3 v => [.float v.x, .float v.y, .float v.z]
  | .vector4 v => [.float v.x, .float v.y, .float v.z, .float v.w]
  | _ => []

namespace ElementKind

variable (kind : ElementKind) (es : List (Components Float))

end ElementKind

/-! ## Values of the formulas -/

variable [Formula.Engine]

namespace FormulaSlots

variable (slots : FormulaSlots) (bindings : Formula.Bindings)

/-- What the formula of a component comes to; without one it is zero. -/
def valueAt (c : Nat) : Except FormulaError Float :=
  match slots.toList[c]? with
  | some (some f) => f.eval bindings
  | _ => .ok 0.0

section Slots
variable {slots bindings} {used c : Nat} {slot : Option Formula}

end Slots

end FormulaSlots

/-! ## The list -/

section Generated
variable {kind : ElementKind} {slots : FormulaSlots} {size : Extents} {extra : Formula.Bindings}

end Generated

end Patchbay

/-! ## With the standard engine -/

namespace Patchbay

end Patchbay
