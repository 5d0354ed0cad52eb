/-!
Digits.

The digits of ten stand for themselves; a base above ten goes on with the
letters from A on, in either case.
-/

namespace Patchbay.Decimal

def isDigit (c : Char) : Bool := '0' ≤ c && c ≤ '9'

def digitValue (c : Char) : Nat := c.toNat - '0'.toNat

/-- The natural that a row of digits denotes. -/
def digitsValue (ds : List Char) : Nat := ds.foldl (fun n c => 10 * n + digitValue c) 0

/-- The digits at the front, and the rest. -/
def spanDigits (cs : List Char) : List Char × List Char := cs.span isDigit

/-! ## Other bases -/

/-- Whether a character is a digit of a base up to sixteen. -/
def isDigitOf (base : Nat) (c : Char) : Bool :=
  if base ≤ 10 then isDigit c && digitValue c < base
  else isDigit c || ('a' ≤ c && c ≤ 'f') || ('A' ≤ c && c ≤ 'F')

def digitOf (c : Char) : Nat :=
  if isDigit c then digitValue c
  else if 'a' ≤ c then c.toNat - 'a'.toNat + 10
  else c.toNat - 'A'.toNat + 10

/-- The natural that a row of digits of a base denotes. -/
def digitsValueOf (base : Nat) (ds : List Char) : Nat :=
  ds.foldl (fun n c => base * n + digitOf c) 0

end Patchbay.Decimal
