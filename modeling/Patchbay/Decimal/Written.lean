import Patchbay.Number.Single
/-!
Decimal text of a float.

Two forms are written.  `fixed` gives a set number of places, the exact
value rounded to the nearest such decimal and an exact half going to the
even neighbour.  `shortest` gives the fewest digits that read back as the
same float, always positionally, with no point after a whole number.
-/

namespace Patchbay.Decimal

open Number

/-- The digits of `n`, with zeros in front up to the given width. -/
def padded (width n : Nat) : String :=
  let digits := toString n
  "".pushn '0' (width - digits.length) ++ digits

def signText (negative : Bool) : String := if negative then "-" else ""

def nanText : String := "NaN"

def infiniteText (negative : Bool) : String := signText negative ++ "inf"

/-! ## A set number of places -/

/-- `m * 2 ^ q` counted in units of `10 ^ -places`, to the nearest, a half to the even one. -/
def fixedUnits (places m : Nat) (q : Int) : Nat :=
  let (num, den) := scaleTwo m 1 q
  roundDivEven (num * tenPow places) den

/-- The text of a number of units of `10 ^ -places`. -/
def unitsText (places units : Nat) : String :=
  if places = 0 then toString units
  else toString (units / tenPow places) ++ "." ++ padded places (units % tenPow places)

/-- A float with the given number of places; the sign of a zero is kept. -/
def fixed (places : Nat) (x : Single) : String :=
  match x.decode with
  | .nan => nanText
  | .infinite negative => infiniteText negative
  | .finite negative m q => signText negative ++ unitsText places (fixedUnits places m q)

/-! ## The fewest digits -/

/-- The number of decimal digits of `n`; zero has one. -/
def digitCount (n : Nat) : Nat := (Nat.toDigits 10 n).length

/-- The exponent `e` with `10 ^ e ≤ num / den < 10 ^ (e + 1)`, for positive `num` and `den`. -/
def decimalOrder (num den : Nat) : Int :=
  if den ≤ num then digitCount (num / den) - 1
  else -(digitCount ((den - 1) / num) : Int)

/-- The ratio `num / den` times `10 ^ e`. -/
def scaleTen (num den : Nat) (e : Int) : Nat × Nat :=
  match e with
  | .ofNat k => (num * tenPow k, den)
  | .negSucc k => (num, den * tenPow (k + 1))

/-- The reals that round to one float, over a common denominator; the ends belong to it
when `closed` holds. -/
structure Interval where
  low : Nat
  value : Nat
  high : Nat
  den : Nat
  closed : Bool

/-- The reals that round to `m * 2 ^ q`.  Below the least significand of a binade the
floats lie twice as close. -/
def Interval.around (fmt : Format) (m : Nat) (q : Int) : Interval :=
  let step := if m = twoPow fmt.fraction ∧ fmt.leastExponent < q then 1 else 2
  let (scale, den) := scaleTwo 1 1 (q - 2)
  ⟨(4 * m - step) * scale, 4 * m * scale, (4 * m + 2) * scale, den, m % 2 == 0⟩

/-- Whether `d * 10 ^ e` lies in the interval. -/
def Interval.holds (i : Interval) (d : Nat) (e : Int) : Bool :=
  let (num, den) := scaleTen d 1 e
  let here := num * i.den
  if i.closed then i.low * den ≤ here && here ≤ i.high * den
  else i.low * den < here && here < i.high * den

/-- The point of the grid of `10 ^ e` that reads back, when one of the value's two
neighbours does; of two the nearer, and the upper of two equally near. -/
def Interval.gridPoint? (i : Interval) (e : Int) : Option Nat :=
  let (num, den) := scaleTen i.value i.den (-e)
  let d := num / den
  match i.holds d e, i.holds (d + 1) e with
  | true, true => some (if 2 * (num % den) < den then d else d + 1)
  | true, false => some d
  | false, true => some (d + 1)
  | false, false => none

/-- The first grid with a point that reads back, from `10 ^ e` downwards, as the digits
and the exponent of the last one. -/
def Interval.coarsest (i : Interval) : Nat → Int → Nat × Int
  | 0, e => (i.value / i.den, e)
  | fuel + 1, e =>
    match i.gridPoint? e with
    | some d => (d, e)
    | none => i.coarsest fuel (e - 1)

/-- The digits `d` with their last one at `10 ^ e`, positionally. -/
def positional (d : Nat) (e : Int) : String :=
  match e with
  | .ofNat k => if d = 0 then "0" else toString d ++ "".pushn '0' k
  | .negSucc k =>
    toString (d / tenPow (k + 1)) ++ "." ++ padded (k + 1) (d % tenPow (k + 1))

/-- The fewest digits that read back as `m * 2 ^ q`.  The search starts one grid above the
leading digit, where a value just below a power of ten is met by that power. -/
def shortestDigits (fmt : Format) (m : Nat) (q : Int) : Nat × Int :=
  let i := Interval.around fmt m q
  i.coarsest 20 (decimalOrder i.value i.den + 1)

/-- A float in the fewest digits that read back. -/
def shortest (x : Single) : String :=
  match x.decode with
  | .nan => nanText
  | .infinite negative => infiniteText negative
  | .finite negative m q =>
    let (d, e) := if m = 0 then (0, 0) else shortestDigits .binary32 m q
    signText negative ++ positional d e

end Patchbay.Decimal
