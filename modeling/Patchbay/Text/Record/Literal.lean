import Patchbay.Text.Record.Scanner
import Patchbay.Text.Utf8
import Patchbay.Decimal.Reading
/-!
Numbers and quoted texts of the record notation.

A number is an integer in base two, eight, ten or sixteen, perhaps with the
name of its type behind it, or a decimal.  Underscores may stand among the
digits.  A text stands in quotes, with escapes, or raw between quotes and a
row of hash signs of any length.
-/

namespace Patchbay.Text.Record

open Decimal

inductive Number where
  /-- An integer, with the name of its type where that is written. -/
  | integer (n : Int) (type : Option String)
  | decimal (text : String)
deriving DecidableEq, Repr

namespace Scanner

/-! ## Numbers -/

/-- The sign at the front: whether it is a minus. -/
def sign : Scanner Bool := fun cs => some (takeSign cs)

/-- The characters that digits of any base, and the gaps between them, are made of. -/
def isIntegerChar (c : Char) : Bool := isDigitOf 16 c || c == '_'

def isDecimalChar (c : Char) : Bool :=
  isDigit c || c == 'e' || c == 'E' || c == '.' || c == '+' || c == '-' || c == '_'

/-- The base that a mark at the front gives. -/
def base : Scanner Nat := do
  if ← accept "0b" then return 2
  else if ← accept "0o" then return 8
  else if ← accept "0x" then return 16
  else return 10

/-- The types of integers: the name, and the range. -/
def integerTypes : List (String × Int × Int) :=
  [("i8", -0x80, 0x7f), ("i16", -0x8000, 0x7fff), ("i32", -0x80000000, 0x7fffffff),
    ("i64", -0x8000000000000000, 0x7fffffffffffffff), ("u8", 0, 0xff), ("u16", 0, 0xffff),
    ("u32", 0, 0xffffffff), ("u64", 0, 0xffffffffffffffff)]

/-- The first of some words that stands next. -/
def acceptFirst : List String → Scanner (Option String)
  | [] => return none
  | w :: ws => do if ← acceptWord w then return some w else acceptFirst ws

/-- Whether an integer fits what is written about it.  Without a type a decimal integer may
have any size; other bases have sixty-four bits. -/
def fits (base : Nat) (n : Int) : Option String → Bool
  | some type =>
    integerTypes.any fun (name, lo, hi) => name == type && lo ≤ n && n ≤ hi
  | none => base == 10 || (-0x8000000000000000 ≤ n && n ≤ 0xffffffffffffffff)

/-- An integer behind its sign.  A type is understood behind the digits of base ten and two. -/
def integer (negative : Bool) : Scanner Number := do
  let base ← base
  let run ← takeWhile isIntegerChar
  let digits := run.filter (· != '_')
  guard (run.head?.any (· != '_') && digits.all (isDigitOf base))
  let magnitude : Int := digitsValueOf base digits
  let n := if negative then -magnitude else magnitude
  let type ← if base == 10 || base == 2 then acceptFirst (integerTypes.map (·.1)) else pure none
  guard (fits base n type)
  return .integer n type

/-- A decimal without its underscores.  They may follow a digit or the letter of the
exponent, and one another. -/
def closeGaps? (allowed : Bool) : List Char → Option (List Char)
  | [] => some []
  | c :: cs =>
    if c = '_' then if allowed then closeGaps? true cs else none
    else
      let after := c != '.' && (allowed || isDigit c || c == 'e' || c == 'E')
      (closeGaps? after cs).map (c :: ·)

/-- The words for what is no finite decimal. -/
def infinities : List String := ["inf", "inff32", "inff64", "NaN", "NaNf32", "NaNf64"]

/-- A decimal behind its sign. -/
def decimal (negative : Bool) : Scanner Number := do
  let signed (text : String) : String := if negative then "-" ++ text else text
  match ← acceptFirst infinities with
  | some word => return .decimal (signed word)
  | none =>
    let text ← closeGaps? false (← takeWhile isDecimalChar)
    guard (readDecimal? text).isSome
    let _ ← acceptFirst ["f32", "f64"]
    return .decimal (signed (String.ofList text))

/-- A decimal where its characters reach further than those of an integer do, and where no
integer can be read. -/
def number : Scanner Number := do
  let negative ← sign
  let cs ← get
  if (cs.takeWhile isIntegerChar).length < (cs.takeWhile isDecimalChar).length then
    decimal negative
  else
    match ← attempt? (integer negative) with
    | some n => return n
    | none => decimal negative

/-! ## Quoted texts -/

def hexDigit : Scanner Nat := do
  let c ← next
  guard (isDigitOf 16 c)
  return digitOf c

/-- The character that one to six hexadecimal digits in braces name. -/
def codePoint : Scanner Char := do
  expect "\x7b"
  let digits ← takeWhile (isDigitOf 16)
  expect "\x7d"
  let n := digitsValueOf 16 digits
  guard (!digits.isEmpty && digits.length ≤ 6 && n.isValidChar)
  return Char.ofNat n

/-- The bytes that an escape stands for, behind the backslash.  Code points are named in
texts only. -/
def escape (ofText : Bool) : Scanner (List UInt8) := do
  match ← next with
  | '\'' => return [39]
  | '"' => return [34]
  | '\\' => return [92]
  | 'n' => return [10]
  | 'r' => return [13]
  | 't' => return [9]
  | '0' => return [0]
  | 'x' =>
    let high ← hexDigit
    return [UInt8.ofNat (high * 16 + (← hexDigit))]
  | 'u' =>
    guard ofText
    return Utf8.encodeChar (← codePoint)
  | _ => failure

/-- The bytes up to the closing quote, which is taken too. -/
def quotedBytes (ofText : Bool) : Scanner (List UInt8) := do
  let parts ← repeated do
    match ← next with
    | '"' => return none
    | '\\' => return some (← escape ofText)
    | c => return some (Utf8.encodeChar c)
  return parts.flatten

/-- The text that bytes denote. -/
def decoded (bytes : List UInt8) : Scanner String := fun cs =>
  (Utf8.decode bytes).toOption.map (·, cs)

/-- The characters up to an ending, and the rest behind it. -/
def splitBefore (ending : List Char) : List Char → Option (List Char × List Char)
  | [] => none
  | c :: cs =>
    match dropFront? ending (c :: cs) with
    | some rest => some ([], rest)
    | none => (splitBefore ending cs).map fun (front, rest) => (c :: front, rest)

/-- A raw text: quotes between rows of as many hash signs, and no escapes. -/
def rawText : Scanner String := do
  let hashes ← takeWhile (· == '#')
  expect "\""
  let front ← splitBefore ('"' :: hashes)
  return String.ofList front

/-- A character between single quotes, the first of which has been taken. -/
def character : Scanner Char := do
  let text ← match ← next with
    | '\\' => escape true >>= decoded
    | c => pure (String.singleton c)
  expect "'"
  match text.toList with
  | [c] => return c
  | _ => failure

/-- A single byte between single quotes, the first of which has been taken. -/
def byte : Scanner UInt8 := do
  let bytes ← match ← next with
    | '\\' => escape false
    | c => pure (Utf8.encodeChar c)
  expect "'"
  match bytes with
  | [b] => return b
  | _ => failure

end Scanner

end Patchbay.Text.Record
