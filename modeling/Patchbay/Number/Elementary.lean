import Patchbay.Number.Double
/-!
Elementary functions of 64-bit floats that the core library lacks.

The length of a right triangle's long side is the exact root rounded once.
The logarithm of one plus a number splits off a power of two and sums a
polynomial in `s = f / (2 + f)`; the inverse hyperbolic functions are
written through it, in forms that lose no digits near zero.
-/

namespace Patchbay.Double

open Number

/-! ## Square roots of naturals -/

/-- Newton's steps towards the integer root of `n`, from above. -/
def rootStep (n : Nat) : Nat → Nat → Nat
  | 0, guess => guess
  | fuel + 1, guess =>
    let next := (guess + n / guess) / 2
    if next < guess then rootStep n fuel next else guess

/-- The largest natural whose square is at most `n`. -/
def integerRoot (n : Nat) : Nat :=
  if n = 0 then 0 else rootStep n (n.log2 + 2) (twoPow (n.log2 / 2 + 1))

/-- The float nearest to the root of `n * 4 ^ q`.  The root is taken to more digits than
the format has, and one more digit tells whether anything is left. -/
def rootOf (n : Nat) (q : Int) : Float :=
  let wide := n * twoPow 128
  let root := integerRoot wide
  let sticky := if root * root = wide then 0 else 1
  ofParts (.finite false (2 * root + sticky) (q - 65))

/-- The root of the sum of two squares. -/
def hypotenuse (x y : Float) : Float :=
  match decode x, decode y with
  | .infinite _, _ => ofParts (.infinite false)
  | _, .infinite _ => ofParts (.infinite false)
  | .finite _ m q, .finite _ n r =>
    let e := min q r
    let a := m * twoPow (q - e).toNat
    let b := n * twoPow (r - e).toNat
    rootOf (a * a + b * b) e
  | _, _ => ofParts .nan

/-! ## The logarithm of one plus a number -/

def ln2High : Float := Float.ofBits 0x3fe62e42fee00000

def ln2Low : Float := Float.ofBits 0x3dea39ef35793c76

/-- A number close to one as `2 ^ k * (1 + f)`, with the error `c` of its own rounding. -/
structure Reduced where
  k : Float
  f : Float
  c : Float

/-- The word with its exponent field replaced. -/
def withExponent (word exponent : UInt64) : Float :=
  let fraction : UInt64 := word &&& (0x000fffffffffffff : UInt64)
  Float.ofBits (fraction ||| (exponent <<< (52 : UInt64)))

/-- Brings `u = 1 + x` near to one by a power of two. -/
def reduce (x u : Float) : Reduced :=
  let word := u.toBits
  let exponent : UInt64 := (word >>> (52 : UInt64)) &&& (0x7ff : UInt64)
  let k := (exponent.toNat : Int) - 1023
  let c := if x ≥ 9007199254740992.0 then 0.0
    else (if k > 0 then 1.0 - (u - x) else x - (u - 1.0)) / u
  let high : UInt64 := (word >>> (32 : UInt64)) &&& (0xfffff : UInt64)
  if high < 0x6a09e then ⟨ofInt k, withExponent word 1023 - 1.0, c⟩
  else ⟨ofInt (k + 1), withExponent word 1022 - 1.0, c⟩

/-- The polynomial in `z = s * s` that remains of the series. -/
def logSeries (z : Float) : Float :=
  let z2 := z * z
  let z4 := z2 * z2
  let z6 := z4 * z2
  let r1 := z * 6.666666666666735130e-01
  let r2 := 3.999999999940941908e-01 + z * 2.857142874366239149e-01
  let r3 := 2.222219843214978396e-01 + z * 1.818357216161805012e-01
  let r4 := 1.531383769920937332e-01 + z * 1.479819860511658591e-01
  r1 + z2 * r2 + z4 * r3 + z6 * r4

/-- `k * ln 2 + ln (1 + f) + c`. -/
def logReduced (r : Reduced) : Float :=
  let half := 0.5 * r.f * r.f
  let s := r.f / (2.0 + r.f)
  let series := s * (half + logSeries (s * s))
  if r.k == 0.0 then r.f - (half - series)
  else r.k * ln2High - ((half - (series + (r.k * ln2Low + r.c))) - r.f)

/-- The natural logarithm of `1 + x`. -/
def logOnePlus (x : Float) : Float :=
  if x.isNaN then x
  else if x < -1.0 then ofParts .nan
  else if x == -1.0 then ofParts (.infinite true)
  else if x.isInf then x
  else if x.abs < Float.ofBits 0x3c90000000000000 then x
  else if x.abs < Float.ofBits 0x3e20000000000000 then x - x * x * 0.5
  else if Float.ofBits 0xbfd2bec400000000 < x && x < Float.ofBits 0x3fda827a00000000 then
    logReduced ⟨0.0, x, 0.0⟩
  else logReduced (reduce x (1.0 + x))

/-! ## Inverse hyperbolic functions -/

/-- The magnitude of `x` with the sign of `y`. -/
def withSign (x y : Float) : Float :=
  let magnitude : UInt64 := x.toBits &&& (0x7fffffffffffffff : UInt64)
  let sign : UInt64 := y.toBits &&& (0x8000000000000000 : UInt64)
  Float.ofBits (magnitude ||| sign)

def inverseSinh (x : Float) : Float :=
  let a := x.abs
  let i := 1.0 / a
  withSign (logOnePlus (a + a / (hypotenuse 1.0 i + i))) x

def inverseCosh (x : Float) : Float :=
  if x < 1.0 then ofParts .nan else (x + (x - 1.0).sqrt * (x + 1.0).sqrt).log

def inverseTanh (x : Float) : Float := 0.5 * logOnePlus (2.0 * x / (1.0 - x))

end Patchbay.Double
