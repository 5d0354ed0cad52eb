import Patchbay.Number.Binary
/-!
32-bit floats, held as words.

A `Single` is its word, so propositional equality is equality of bits: two
NaNs with different payloads are different, and so are the two zeros.
Equality of numbers is `Single.same`, which no NaN satisfies and which
identifies the zeros.  Arithmetic is that of the 32-bit format, rounded to
nearest.
-/

namespace Patchbay

open Number

/-- A 32-bit float, by its word. -/
structure Single where
  bits : UInt32
deriving DecidableEq, Inhabited, Repr

namespace Single

def ofFloat32 (x : Float32) : Single := ⟨x.toBits⟩

def toFloat32 (x : Single) : Float32 := Float32.ofBits x.bits

def zero : Single := ⟨0⟩

def one : Single := ⟨0x3f800000⟩

/-- The gap between one and the next larger float. -/
def epsilon : Single := ⟨0x34000000⟩

/-! ## Classes of words -/

/-- The word without its sign. -/
def magnitude (x : Single) : UInt32 := x.bits &&& 0x7fffffff

def isNaN (x : Single) : Bool := 0x7f800000 < x.magnitude

def isZero (x : Single) : Bool := x.magnitude == 0

/-- Equality of numbers: false of every NaN, true of the two zeros. -/
def same (x y : Single) : Bool := (x.bits == y.bits && !x.isNaN) || (x.isZero && y.isZero)

def decode (x : Single) : Parts := Format.binary32.decode x.bits.toNat

/-- The float nearest to the given parts. -/
def ofParts (p : Parts) : Single := ⟨UInt32.ofNat (Format.binary32.encode p)⟩

/-! ## Arithmetic -/

instance : Add Single := ⟨fun x y => ofFloat32 (x.toFloat32 + y.toFloat32)⟩
instance : Sub Single := ⟨fun x y => ofFloat32 (x.toFloat32 - y.toFloat32)⟩
instance : Mul Single := ⟨fun x y => ofFloat32 (x.toFloat32 * y.toFloat32)⟩
instance : Div Single := ⟨fun x y => ofFloat32 (x.toFloat32 / y.toFloat32)⟩

def sqrt (x : Single) : Single := ofFloat32 x.toFloat32.sqrt

/-- The order of numbers; a NaN is below nothing and above nothing. -/
def below (x y : Single) : Bool := x.toFloat32 < y.toFloat32

/-- The larger of two numbers; a NaN gives way to the other operand. -/
def larger (x y : Single) : Single :=
  if x.isNaN then y else if x.below y then y else x

/-- The float nearest to a natural. -/
def ofNat (n : Nat) : Single := ofParts (.finite false n 0)

theorem same_self {x : Single} (h : x.isNaN = false) : x.same x = true := by
  simp [same, h]

end Single

end Patchbay
