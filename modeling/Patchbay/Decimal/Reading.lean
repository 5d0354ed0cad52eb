import Patchbay.Number.Single
import Patchbay.Decimal.Digit
/-!
Numbers read from decimal text.

A float is a sign, digits with at most one point and at least one digit,
and an exponent; or the words for infinity and NaN in any case.  It denotes
the float nearest to the exact decimal.  An integer is a sign and digits,
read from the left, so the first digit that leaves the range or is no digit
decides which error is reported.
-/

namespace Patchbay.Decimal

open Number

/-! ## Floats -/

inductive FloatError where
  | empty
  | invalid
deriving DecidableEq, Repr

def FloatError.message : FloatError → String
  | .empty => "cannot parse float from empty string"
  | .invalid => "invalid float literal"

/-- A sign at the front, and the rest. -/
def takeSign : List Char → Bool × List Char
  | '-' :: cs => (true, cs)
  | '+' :: cs => (false, cs)
  | cs => (false, cs)

/-- The exponent part, which may be missing: the exponent, when nothing follows it. -/
def readExponent? : List Char → Option Int
  | [] => some 0
  | e :: cs =>
    if e = 'e' ∨ e = 'E' then
      let (negative, cs) := takeSign cs
      let (ds, rest) := spanDigits cs
      if ds.isEmpty || !rest.isEmpty then none
      else some (if negative then -(digitsValue ds : Int) else digitsValue ds)
    else none

/-- The point and the digits behind it, when there are any. -/
def takeFraction : List Char → List Char × List Char
  | '.' :: cs => spanDigits cs
  | cs => ([], cs)

/-- An unsigned decimal: `digits * 10 ^ exponent`. -/
def readDecimal? (cs : List Char) : Option (Nat × Int) :=
  let (whole, cs) := spanDigits cs
  let (fraction, cs) := takeFraction cs
  if whole.isEmpty && fraction.isEmpty then none
  else (readExponent? cs).map fun e => (digitsValue (whole ++ fraction), e - fraction.length)

/-- The word nearest to `digits * 10 ^ e`.  Exponents far outside the format give zero or
infinity without the power being formed. -/
def nearestDecimal (fmt : Format) (negative : Bool) (digits : Nat) (e : Int) : Nat :=
  let size : Int := (Nat.toDigits 10 digits).length
  if digits = 0 ∨ e + size < -400 then fmt.nearest negative 0 1
  else if 400 < e + size then fmt.encode (.infinite negative)
  else match e with
    | .ofNat k => fmt.nearest negative (digits * tenPow k) 1
    | .negSucc k => fmt.nearest negative digits (tenPow (k + 1))

def lowerAscii (cs : List Char) : List Char := cs.map Char.toLower

/-- The words for infinity and NaN, in any case.  Both of them keep the sign. -/
def readSpecial? (fmt : Format) (negative : Bool) (cs : List Char) : Option Nat :=
  let sign := if negative then fmt.signWeight else 0
  let name := String.ofList (lowerAscii cs)
  if name = "inf" ∨ name = "infinity" then some (sign + fmt.infinity)
  else if name = "nan" then some (sign + fmt.quietNaN)
  else none

/-- The 32-bit float that a text denotes. -/
def readSingle (text : String) : Except FloatError Single :=
  if text.isEmpty then .error .empty
  else
    let (negative, cs) := takeSign text.toList
    match readDecimal? cs with
    | some (digits, e) => .ok ⟨UInt32.ofNat (nearestDecimal .binary32 negative digits e)⟩
    | none =>
      match readSpecial? .binary32 negative cs with
      | some word => .ok ⟨UInt32.ofNat word⟩
      | none => .error .invalid

/-! ## Integers -/

inductive IntError where
  | empty
  | invalidDigit
  | tooLarge
  | tooSmall
deriving DecidableEq, Repr

def IntError.message : IntError → String
  | .empty => "cannot parse integer from empty string"
  | .invalidDigit => "invalid digit found in string"
  | .tooLarge => "number too large to fit in target type"
  | .tooSmall => "number too small to fit in target type"

/-- Adds digits to a magnitude that may not exceed the limit. -/
def readMagnitude (limit : Nat) (overflow : IntError) : Nat → List Char → Except IntError Nat
  | n, [] => .ok n
  | n, c :: cs =>
    if isDigit c then
      let next := 10 * n + digitValue c
      if limit < next then .error overflow else readMagnitude limit overflow next cs
    else .error .invalidDigit

/-- The integer between `lo` and `hi` that a text denotes. -/
def readInt (lo hi : Int) (text : String) : Except IntError Int :=
  match text.toList with
  | [] => .error .empty
  | ['+'] | ['-'] => .error .invalidDigit
  | '-' :: cs => (readMagnitude lo.natAbs .tooSmall 0 cs).map fun n => -(n : Int)
  | '+' :: cs => (readMagnitude hi.toNat .tooLarge 0 cs).map fun n => (n : Int)
  | cs => (readMagnitude hi.toNat .tooLarge 0 cs).map fun n => (n : Int)

/-- A 64-bit signed integer. -/
def readInt64 (text : String) : Except IntError Int :=
  readInt (-9223372036854775808) 9223372036854775807 text

/-- A 64-bit unsigned integer; a minus sign is no digit. -/
def readNat64 (text : String) : Except IntError Nat :=
  match text.toList with
  | [] => .error .empty
  | ['+'] => .error .invalidDigit
  | '+' :: cs => readMagnitude 18446744073709551615 .tooLarge 0 cs
  | cs => readMagnitude 18446744073709551615 .tooLarge 0 cs

end Patchbay.Decimal
