import Patchbay.Decimal.Written
import Patchbay.Formula.Term
/-!
The operators of the standard engine.

Integers have 64 bits, and a result outside them is a fault.  Where an
integer meets a float, the integer is widened first, and a character is a
text of one.  Data of different types are never equal and never in order; the
logical operators on bits and truth values accept two of one kind.
-/

namespace Patchbay.Formula

open Number

/-- Why a term has no value. -/
inductive EvalFault where
  | unknownVariable (name : String)
  | unknownFunction (name : String)
  | unknownProperty (name : String)
  | overflow
  | divisionByZero
  | badPower
  | notBoolean
  | undefinedSign
  | tooLong
deriving DecidableEq, Repr

abbrev Result := Except EvalFault Datum

namespace Datum

/-- An integer result, when it fits. -/
def ofInt (n : Int) : Result := if fitsInt n then .ok (.int n) else .error .overflow

/-- A text as a result, when it is not too long. -/
def ofText (s : String) : Result :=
  if textLimit < s.utf8ByteSize then .error .tooLong else .ok (.text s)

/-- A comparison of two data in the given order; no other operator applies. -/
def onOrdered (o : Operator) (order : Ordering) : Result :=
  match o with
  | .eq => .ok (.bool order.isEq)
  | .ne => .ok (.bool order.isNe)
  | .lt => .ok (.bool order.isLT)
  | .le => .ok (.bool order.isLE)
  | .gt => .ok (.bool order.isGT)
  | .ge => .ok (.bool order.isGE)
  | _ => .error (.unknownFunction "")

/-! ## Integers -/

/-- A power of integers.  The fuel of the multiplication is the exponent's size, and a base
beyond one leaves the range long before a large exponent is used up. -/
def intPower (b e : Int) : Result :=
  if e < 0 then .error .badPower
  else if 4294967295 < e then .error .badPower
  else if b = 0 ∨ b = 1 then .ok (.int (if e = 0 then 1 else b))
  else if b = -1 then .ok (.int (if e % 2 = 0 then 1 else -1))
  else if 64 < e then .error .overflow
  else ofInt (Int.pow b e.toNat)

/-- Shifts to the left, dropping what leaves the word. -/
def shiftUp (n : Int) (by_ : Nat) : Int :=
  if 64 ≤ by_ then 0 else Int.bmod (n * twoPow by_) (2 * intLimit)

/-- Shifts to the right, keeping the sign. -/
def shiftDown (n : Int) (by_ : Nat) : Int :=
  if 64 ≤ by_ then (if n < 0 then -1 else 0) else n / twoPow by_

/-- A bitwise operation on 64-bit words. -/
def onWords (f : UInt64 → UInt64 → UInt64) (a b : Int) : Int :=
  (f (Int64.ofInt a).toUInt64 (Int64.ofInt b).toUInt64).toInt64.toInt

def onInts (o : Operator) (a b : Int) : Result :=
  match o with
  | .add => ofInt (a + b)
  | .sub => ofInt (a - b)
  | .mul => ofInt (a * b)
  | .div => if b = 0 then .error .divisionByZero else ofInt (Int.tdiv a b)
  | .rem =>
    if b = 0 then .error .divisionByZero
    else if fitsInt (Int.tdiv a b) then .ok (.int (Int.tmod a b))
    else .error .overflow
  | .pow => intPower a b
  | .shiftLeft => .ok (.int (if b < 0 then shiftDown a b.natAbs else shiftUp a b.natAbs))
  | .shiftRight => .ok (.int (if b < 0 then shiftUp a b.natAbs else shiftDown a b.natAbs))
  | .bitAnd => .ok (.int (onWords (· &&& ·) a b))
  | .bitOr => .ok (.int (onWords (· ||| ·) a b))
  | .bitXor => .ok (.int (onWords (· ^^^ ·) a b))
  | o => onOrdered o (compare a b)

/-! ## Floats and truth values -/

def onFloats (o : Operator) (a b : Float) : Result :=
  match o with
  | .add => .ok (.float (a + b))
  | .sub => .ok (.float (a - b))
  | .mul => .ok (.float (a * b))
  | .div => .ok (.float (a / b))
  | .rem => .ok (.float (Double.remainder a b))
  | .pow => .ok (.float (a.pow b))
  | .eq => .ok (.bool (a == b))
  | .ne => .ok (.bool (!(a == b)))
  | .lt => .ok (.bool (a < b))
  | .le => .ok (.bool (a ≤ b))
  | .gt => .ok (.bool (b < a))
  | .ge => .ok (.bool (b ≤ a))
  | _ => .error (.unknownFunction "")

def onBools (o : Operator) (a b : Bool) : Result :=
  match o with
  | .bitAnd => .ok (.bool (a && b))
  | .bitOr => .ok (.bool (a || b))
  | .bitXor => .ok (.bool (a != b))
  | o => onOrdered o (compare a b)

/-! ## Texts -/

/-- The text of a float: positional with a point where that is short enough, else with an
exponent. -/
def floatText (x : Float) : String :=
  match Double.decode x with
  | .nan => Decimal.nanText
  | .infinite negative => Decimal.infiniteText negative
  | .finite negative m q =>
    if m = 0 then "0.0"
    else
      let (digits, e) := Decimal.shortestDigits .binary64 m q
      let shown :=
        if 10000000000000.0 < x.abs || x.abs < 1.0000000116860974e-7 then
          let first := Decimal.digitCount digits - 1
          Decimal.positional digits (-(first : Int)) ++ "e" ++ toString (e + first)
        else if 0 ≤ e then Decimal.positional digits e ++ ".0"
        else Decimal.positional digits e
      Decimal.signText negative ++ shown

/-- The text that a datum becomes next to a text. -/
def display? : Datum → Option String
  | .int n => some (toString n)
  | .float x => some (floatText x)
  | .bool b => some (toString b)
  | .text s => some s
  | .char c => some c.toString
  | .unit => some ""
  | .collection _ => none

/-- Texts are put together and are in the order of their characters. -/
def onTexts (o : Operator) (a b : String) : Result :=
  match o with
  | .add => ofText (a ++ b)
  | o => onOrdered o (compare a b)

/-! ## All data -/

/-- Units are equal and in no order. -/
def onUnits : Operator → Result
  | .eq => .ok (.bool true)
  | .ne | .lt | .le | .gt | .ge => .ok (.bool false)
  | _ => .error (.unknownFunction "")

/-- Data of different types: unequal, and in no order.  Whatever is added to a text becomes a part
of it. -/
def onDifferent (o : Operator) (l r : Datum) : Result :=
  match o, l, r with
  | .eq, _, _ | .lt, _, _ | .le, _, _ | .gt, _, _ | .ge, _, _ => .ok (.bool false)
  | .ne, _, _ => .ok (.bool true)
  | .add, .text _, _ | .add, _, .text _ =>
    match l.display?, r.display? with
    | some a, some b => ofText (a ++ b)
    | _, _ => .error (.unknownFunction "")
  | _, _, _ => .error (.unknownFunction "")

/-- An operator that evaluates both operands.  Two arrays or two maps are not computed with. -/
def apply (o : Operator) : Datum → Datum → Result
  | .int a, .int b => onInts o a b
  | .float a, .float b => onFloats o a b
  | .int a, .float b => onFloats o (Double.ofInt a) b
  | .float a, .int b => onFloats o a (Double.ofInt b)
  | .bool a, .bool b => onBools o a b
  | .text a, .text b => onTexts o a b
  | .char a, .char b => onTexts o a.toString b.toString
  | .text a, .char b => onTexts o a b.toString
  | .char a, .text b => onTexts o a.toString b
  | .unit, .unit => onUnits o
  | .collection a, .collection b =>
    if a = b then .error (.unknownFunction "") else onDifferent o (.collection a) (.collection b)
  | l, r => onDifferent o l r

/-! ## Signs -/

def negate : Datum → Result
  | .int n => ofInt (-n)
  | .float x => .ok (.float (-x))
  | _ => .error (.unknownFunction "-")

def plus : Datum → Result
  | .int n => .ok (.int n)
  | .float x => .ok (.float x)
  | _ => .error (.unknownFunction "+")

def not : Datum → Result
  | .bool b => .ok (.bool !b)
  | _ => .error (.unknownFunction "!")

/-- A truth value, or a fault. -/
def asBool : Datum → Except EvalFault Bool
  | .bool b => .ok b
  | _ => .error .notBoolean

end Datum

end Patchbay.Formula
