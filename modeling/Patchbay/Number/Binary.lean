import Patchbay.Number.Power
/-!
Binary interchange formats, as words.

A float word is taken apart into a sign and a magnitude `m * 2 ^ q`
(`Format.decode`), and a ratio of naturals is brought back to the nearest
word (`Format.nearest`), an exact half going to the even word.  Every
conversion of the library between two widths, and between floats and
decimal text, passes through these two functions, so each of them is exact
arithmetic on naturals followed by at most one rounding.
-/

namespace Patchbay.Number

/-- A binary format: the number of stored fraction bits and the exponent bias. -/
structure Format where
  fraction : Nat
  bias : Nat
deriving DecidableEq

namespace Format

def binary32 : Format := ⟨23, 127⟩

def binary64 : Format := ⟨52, 1023⟩

/-- The exponent field that infinities and NaNs carry. -/
def topExponent (fmt : Format) : Nat := 2 * fmt.bias + 1

/-- The word of positive infinity. -/
def infinity (fmt : Format) : Nat := fmt.topExponent * twoPow fmt.fraction

/-- The weight of the sign bit. -/
def signWeight (fmt : Format) : Nat := (fmt.topExponent + 1) * twoPow fmt.fraction

/-- The exponent of the last place of the smallest numbers. -/
def leastExponent (fmt : Format) : Int := 1 - (fmt.bias : Int) - fmt.fraction

end Format

/-- What a float word stands for; a finite one is `m * 2 ^ q`. -/
inductive Parts where
  | nan
  | infinite (negative : Bool)
  | finite (negative : Bool) (m : Nat) (q : Int)
deriving DecidableEq, Repr

/-- `num / den` rounded to the nearest natural, a half to the even one. -/
def roundDivEven (num den : Nat) : Nat :=
  let quotient := num / den
  let twice := 2 * (num % den)
  if twice > den || (twice == den && quotient % 2 == 1) then quotient + 1 else quotient

/-- The ratio `num / den` times `2 ^ q`, as a new pair of numerator and denominator. -/
def scaleTwo (num den : Nat) (q : Int) : Nat × Nat :=
  match q with
  | .ofNat k => (num * twoPow k, den)
  | .negSucc k => (num, den * twoPow (k + 1))

/-- The exponent `e` with `2 ^ e ≤ num / den < 2 ^ (e + 1)`, for positive `num` and `den`. -/
def binaryOrder (num den : Nat) : Int :=
  let guess : Int := (num.log2 : Int) - den.log2
  let (n, d) := scaleTwo num den (-guess)
  if n < d then guess - 1 else guess

namespace Format

/-- Takes a word apart. -/
def decode (fmt : Format) (word : Nat) : Parts :=
  let negative := word / fmt.signWeight % 2 == 1
  let exponent := word / twoPow fmt.fraction % (fmt.topExponent + 1)
  let stored := word % twoPow fmt.fraction
  if exponent = fmt.topExponent then
    if stored = 0 then .infinite negative else .nan
  else if exponent = 0 then .finite negative stored fmt.leastExponent
  else .finite negative (twoPow fmt.fraction + stored) (fmt.leastExponent + exponent - 1)

/-- The word nearest to the magnitude `num / den`; what is too large becomes infinity.
In both ranges of exponents the word is the significand plus a whole number of binades,
so a significand that rounds up to the next power of two carries by itself. -/
def nearestMagnitude (fmt : Format) (num den : Nat) : Nat :=
  if num = 0 then 0
  else
    let q := max (binaryOrder num den - fmt.fraction) fmt.leastExponent
    let (n, d) := scaleTwo num den (-q)
    let word := (q - fmt.leastExponent).toNat * twoPow fmt.fraction + roundDivEven n d
    if word ≥ fmt.infinity then fmt.infinity else word

/-- The word nearest to `num / den` with the given sign. -/
def nearest (fmt : Format) (negative : Bool) (num den : Nat) : Nat :=
  (if negative then fmt.signWeight else 0) + fmt.nearestMagnitude num den

/-- The one NaN word that arithmetic gives. -/
def quietNaN (fmt : Format) : Nat := fmt.infinity + twoPow (fmt.fraction - 1)

/-- Puts parts together again, rounding a finite value to the format. -/
def encode (fmt : Format) : Parts → Nat
  | .nan => fmt.quietNaN
  | .infinite negative => (if negative then fmt.signWeight else 0) + fmt.infinity
  | .finite negative m q =>
    let (num, den) := scaleTwo m 1 q
    fmt.nearest negative num den

end Format

end Patchbay.Number
