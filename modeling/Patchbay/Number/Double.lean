import Patchbay.Number.Single
/-!
64-bit floats: conversions from and to the other number types.

Formulas and splines compute with 64-bit floats, and ports carry 32-bit
ones.  Widening is exact, narrowing rounds to nearest, and a conversion to
integers drops the fraction and stops at the ends of the integer type.
-/

namespace Patchbay.Double

open Number

def decode (x : Float) : Parts := Format.binary64.decode x.toBits.toNat

/-- The float nearest to the given parts. -/
def ofParts (p : Parts) : Float := Float.ofBits (UInt64.ofNat (Format.binary64.encode p))

/-- Widens a 32-bit float; every one has an equal 64-bit float. -/
def ofSingle (x : Single) : Float := ofParts x.decode

/-- Narrows to the nearest 32-bit float. -/
def toSingle (x : Float) : Single := Single.ofParts (decode x)

/-- The float nearest to a natural. -/
def ofNat (n : Nat) : Float := ofParts (.finite false n 0)

/-- The float nearest to an integer. -/
def ofInt (i : Int) : Float := ofParts (.finite (i < 0) i.natAbs 0)

/-- The magnitude `m * 2 ^ q` without its fraction. -/
def truncateMagnitude (m : Nat) : Int → Nat
  | .ofNat k => m * twoPow k
  | .negSucc k => m / twoPow (k + 1)

/-- Drops the fraction and clamps to `lo .. hi`; a NaN becomes zero. -/
def clampInt (lo hi : Int) (x : Float) : Int :=
  match decode x with
  | .nan => 0
  | .infinite negative => if negative then lo else hi
  | .finite negative m q =>
    let t : Int := truncateMagnitude m q
    max lo (min hi (if negative then -t else t))

def toInt32 (x : Float) : Int32 := Int32.ofInt (clampInt (-2147483648) 2147483647 x)

def toUInt32 (x : Float) : UInt32 := UInt32.ofNat (clampInt 0 4294967295 x).toNat

/-! ## Whole and broken parts -/

/-- The number without its fraction; the sign stays, also on a zero. -/
def truncate (x : Float) : Float :=
  match decode x with
  | .finite negative m q => ofParts (.finite negative (truncateMagnitude m q) 0)
  | _ => x

/-- The remainder of a division that truncates, with the sign of the dividend; exact. -/
def remainder (x y : Float) : Float :=
  match decode x, decode y with
  | .finite negative m q, .finite _ n r =>
    if n = 0 then ofParts .nan
    else
      let e := min q r
      ofParts (.finite negative (m * twoPow (q - e).toNat % (n * twoPow (r - e).toNat)) e)
  | .finite .., .infinite _ => x
  | _, _ => ofParts .nan

/-- The remainder modulo one, never negative. -/
def lapFraction (x : Float) : Float :=
  let r := remainder x 1.0
  if r < 0.0 then r + 1.0 else r

end Patchbay.Double
