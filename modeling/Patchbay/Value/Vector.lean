import Patchbay.Decimal.Written
/-!
Vectors of two, three and four floats.

Each width is a type of its own.  An operation on two vectors works
component by component (`zipWith`), one with a number works on every
component (`map`), and the dot product adds the products to zero from the
first component on.
-/

namespace Patchbay

structure Vec2 where
  x : Single
  y : Single
deriving DecidableEq, Inhabited, Repr

structure Vec3 where
  x : Single
  y : Single
  z : Single
deriving DecidableEq, Inhabited, Repr

/-- Four floats, or a colour as red, green, blue and alpha. -/
structure Vec4 where
  x : Single
  y : Single
  z : Single
  w : Single
deriving DecidableEq, Inhabited, Repr

/-- The components in brackets, three places each. -/
def vectorText (components : List Single) : String :=
  "(" ++ String.intercalate ", " (components.map (Decimal.fixed 3)) ++ ")"

/-! ## Two components -/

namespace Vec2

def zipWith (f : Single → Single → Single) (a b : Vec2) : Vec2 := ⟨f a.x b.x, f a.y b.y⟩

def map (f : Single → Single) (a : Vec2) : Vec2 := ⟨f a.x, f a.y⟩

def components (a : Vec2) : List Single := [a.x, a.y]

def dot (a b : Vec2) : Single := Single.zero + a.x * b.x + a.y * b.y

def length (a : Vec2) : Single := (a.dot a).sqrt

/-- The unit vector in the same direction; a vector without a length stays as it is. -/
def normalized (a : Vec2) : Vec2 :=
  if Single.zero.below a.length then a.map (· / a.length) else a

def same (a b : Vec2) : Bool := a.x.same b.x && a.y.same b.y

def text (a : Vec2) : String := vectorText a.components

end Vec2

/-! ## Three components -/

namespace Vec3

def zero : Vec3 := ⟨.zero, .zero, .zero⟩

def zipWith (f : Single → Single → Single) (a b : Vec3) : Vec3 :=
  ⟨f a.x b.x, f a.y b.y, f a.z b.z⟩

def map (f : Single → Single) (a : Vec3) : Vec3 := ⟨f a.x, f a.y, f a.z⟩

def components (a : Vec3) : List Single := [a.x, a.y, a.z]

def dot (a b : Vec3) : Single := Single.zero + a.x * b.x + a.y * b.y + a.z * b.z

def length (a : Vec3) : Single := (a.dot a).sqrt

/-- The unit vector in the same direction; a vector without a length stays as it is. -/
def normalized (a : Vec3) : Vec3 :=
  if Single.zero.below a.length then a.map (· / a.length) else a

def same (a b : Vec3) : Bool := a.x.same b.x && a.y.same b.y && a.z.same b.z

def text (a : Vec3) : String := vectorText a.components

instance : Add Vec3 := ⟨zipWith (· + ·)⟩
instance : Sub Vec3 := ⟨zipWith (· - ·)⟩

def scale (a : Vec3) (s : Single) : Vec3 := a.map (· * s)

end Vec3

/-! ## Four components -/

namespace Vec4

/-- Opaque white. -/
def white : Vec4 := ⟨.one, .one, .one, .one⟩

def zipWith (f : Single → Single → Single) (a b : Vec4) : Vec4 :=
  ⟨f a.x b.x, f a.y b.y, f a.z b.z, f a.w b.w⟩

def map (f : Single → Single) (a : Vec4) : Vec4 := ⟨f a.x, f a.y, f a.z, f a.w⟩

def components (a : Vec4) : List Single := [a.x, a.y, a.z, a.w]

def dot (a b : Vec4) : Single :=
  Single.zero + a.x * b.x + a.y * b.y + a.z * b.z + a.w * b.w

def length (a : Vec4) : Single := (a.dot a).sqrt

/-- The unit vector in the same direction; a vector without a length stays as it is. -/
def normalized (a : Vec4) : Vec4 :=
  if Single.zero.below a.length then a.map (· / a.length) else a

def same (a b : Vec4) : Bool := a.x.same b.x && a.y.same b.y && a.z.same b.z && a.w.same b.w

def text (a : Vec4) : String := vectorText a.components

end Vec4

end Patchbay
