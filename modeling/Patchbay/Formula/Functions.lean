import Patchbay.Formula.Arithmetic
import Patchbay.Number.Elementary
/-!
The functions of the standard engine.

A function is chosen by its name and the types of its arguments: most take
floats only, a few have a form for integers, and an integer is not widened
to fit.  Properties are functions of one argument written without
parentheses.
-/

namespace Patchbay.Formula.Functions

/-! ## Functions of one float -/

def logBase (x base : Float) : Float := x.log / base.log

def toRadians (x : Float) : Float := x * (Float.ofBits 0x400921fb54442d18 / 180.0)

def toDegrees (x : Float) : Float := x * (180.0 / Float.ofBits 0x400921fb54442d18)

/-- Functions from a float to a float. -/
def ofFloat? : String → Option (Float → Float)
  | "sin" => some Float.sin
  | "cos" => some Float.cos
  | "tan" => some Float.tan
  | "sinh" => some Float.sinh
  | "cosh" => some Float.cosh
  | "tanh" => some Float.tanh
  | "asin" => some Float.asin
  | "acos" => some Float.acos
  | "atan" => some Float.atan
  | "asinh" => some Double.inverseSinh
  | "acosh" => some Double.inverseCosh
  | "atanh" => some Double.inverseTanh
  | "to_radians" => some toRadians
  | "to_degrees" => some toDegrees
  | "sqrt" => some Float.sqrt
  | "exp" => some Float.exp
  | "ln" => some Float.log
  | "log" => some Float.log10
  | "floor" => some Float.floor
  | "ceiling" => some Float.ceil
  | "round" => some Float.round
  | "int" => some Double.truncate
  | "fraction" => some fun x => x - Double.truncate x
  | "abs" => some Float.abs
  | "to_float" => some id
  | _ => none

/-- Tests of a float. -/
def testFloat? : String → Option (Float → Bool)
  | "is_nan" => some Float.isNaN
  | "is_finite" => some Float.isFinite
  | "is_infinite" => some Float.isInf
  | "is_zero" => some (· == 0.0)
  | _ => none

/-- The sign of a float as an integer; a NaN has none. -/
def signOfFloat (x : Float) : Result :=
  if x == 0.0 then .ok (.int 0)
  else if x.isNaN then .error .undefinedSign
  else .ok (.int (if x < 0.0 then -1 else 1))

/-- A float without its fraction as an integer; a NaN is zero. -/
def intOfFloat (x : Float) : Result :=
  if 9223372036854775808.0 < x || x < -9223372036854775808.0 then .error .overflow
  else .ok (.int (Double.clampInt (-(intLimit : Int)) (intLimit - 1) x))

def onFloat (name : String) (x : Float) : Result :=
  match ofFloat? name, testFloat? name with
  | some f, _ => .ok (.float (f x))
  | none, some p => .ok (.bool (p x))
  | none, none =>
    if name = "sign" then signOfFloat x
    else if name = "to_int" then intOfFloat x
    else .error (.unknownFunction name)

/-! ## Functions of one integer -/

/-- The digits of an integer as a word. -/
def wordText (base : Nat) (n : Int) : String :=
  String.ofList (Nat.toDigits base (Int64.ofInt n).toUInt64.toNat)

def onInt (name : String) (n : Int) : Result :=
  match name with
  | "abs" => Datum.ofInt n.natAbs
  | "sign" => .ok (.int n.sign)
  | "is_zero" => .ok (.bool (n == 0))
  | "is_odd" => .ok (.bool (n % 2 != 0))
  | "is_even" => .ok (.bool (n % 2 == 0))
  | "to_int" => .ok (.int n)
  | "to_float" => .ok (.float (Double.ofInt n))
  | "to_hex" => .ok (.text (wordText 16 n))
  | "to_octal" => .ok (.text (wordText 8 n))
  | "to_binary" => .ok (.text (wordText 2 n))
  | _ => .error (.unknownFunction name)

/-! ## Functions of two numbers -/

def greater (x y : Float) : Float := if y ≤ x then x else y

def lesser (x y : Float) : Float := if x ≤ y then x else y

def onTwoFloats (name : String) (x y : Float) : Result :=
  match name with
  | "max" => .ok (.float (greater x y))
  | "min" => .ok (.float (lesser x y))
  | "atan" => .ok (.float (x.atan2 y))
  | "hypot" => .ok (.float (Double.hypotenuse x y))
  | "log" => .ok (.float (logBase x y))
  | _ => .error (.unknownFunction name)

def onTwoInts (name : String) (a b : Int) : Result :=
  match name with
  | "max" => .ok (.int (max a b))
  | "min" => .ok (.int (min a b))
  | _ => .error (.unknownFunction name)

/-- Only the larger and the smaller of two numbers may mix types. -/
def onMixed (name : String) (x y : Float) : Result :=
  if name = "max" ∨ name = "min" then onTwoFloats name x y else .error (.unknownFunction name)

/-! ## All functions -/

/-- A datum as a text, for its reader. -/
def described (name : String) (d : Datum) : Result :=
  match d.display? with
  | some s => Datum.ofText s
  | none => .error (.unknownFunction name)

/-- Calls a function on evaluated arguments. -/
def call (name : String) : List Datum → Result
  | [] =>
    if name = "E" then .ok (.float (Float.ofBits 0x4005bf0a8b145769))
    else if name = "PI" then .ok (.float (Float.ofBits 0x400921fb54442d18))
    else .error (.unknownFunction name)
  | [d] =>
    if name = "type_of" then .ok (.text d.typeName)
    else if name = "to_string" then described name d
    else if name = "print" ∨ name = "debug" then .ok .unit
    else
      match d with
      | .float x => onFloat name x
      | .int n => onInt name n
      | _ => .error (.unknownFunction name)
  | [.float x, .float y] => onTwoFloats name x y
  | [.int a, .int b] => onTwoInts name a b
  | [.int a, .float y] => onMixed name (Double.ofInt a) y
  | [.float x, .int b] => onMixed name x (Double.ofInt b)
  | _ => .error (.unknownFunction name)

/-- The functions that may be written as properties. -/
def propertyNames : List String :=
  ["floor", "ceiling", "round", "int", "fraction", "is_nan", "is_finite", "is_infinite", "is_zero",
    "is_odd", "is_even"]

def property (name : String) (d : Datum) : Result :=
  if propertyNames.contains name then call name [d] else .error (.unknownProperty name)

end Patchbay.Formula.Functions
