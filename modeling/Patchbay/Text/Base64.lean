/-!
Base64 text with the standard alphabet and required padding.

Three bytes become four symbols of six bits.  The last group may hold one
or two bytes, as two or three symbols filled up with padding.  Reading
accepts only what writing produces, and reports the place of the first
fault.
-/

namespace Patchbay.Text.Base64

def padding : UInt8 := 61

/-- The symbol, as a byte, of a value below sixty-four. -/
def symbol (n : Nat) : UInt8 :=
  let offset := if n < 26 then 65 + n
    else if n < 52 then 71 + n
    else if n < 62 then n - 4
    else if n = 62 then 43
    else 47
  UInt8.ofNat offset

/-- The value of a symbol. -/
def value? (b : UInt8) : Option Nat :=
  let n := b.toNat
  if 65 ≤ n ∧ n ≤ 90 then some (n - 65)
  else if 97 ≤ n ∧ n ≤ 122 then some (n - 71)
  else if 48 ≤ n ∧ n ≤ 57 then some (n + 4)
  else if n = 43 then some 62
  else if n = 47 then some 63
  else none

/-! ## Writing -/

def encodeBytes : List UInt8 → List UInt8
  | [] => []
  | [a] => [symbol (a.toNat / 4), symbol (a.toNat % 4 * 16), padding, padding]
  | [a, b] =>
    [symbol (a.toNat / 4), symbol (a.toNat % 4 * 16 + b.toNat / 16), symbol (b.toNat % 16 * 4),
      padding]
  | a :: b :: c :: rest =>
    symbol (a.toNat / 4) :: symbol (a.toNat % 4 * 16 + b.toNat / 16) ::
      symbol (b.toNat % 16 * 4 + c.toNat / 64) :: symbol (c.toNat % 64) :: encodeBytes rest

def encode (bytes : List UInt8) : String :=
  String.ofList ((encodeBytes bytes).map fun b => Char.ofNat b.toNat)

/-! ## Reading -/

inductive Fault where
  | badSymbol (byte : UInt8) (offset : Nat)
  | badLength (length : Nat)
  | badLastSymbol (byte : UInt8) (offset : Nat)
  | badPadding
deriving DecidableEq, Repr

def Fault.message : Fault → String
  | .badSymbol byte offset => s!"Invalid symbol {byte}, offset {offset}."
  | .badLength length => s!"Invalid input length: {length}"
  | .badLastSymbol byte offset => s!"Invalid last symbol {byte}, offset {offset}."
  | .badPadding => "Invalid padding"

/-- The value of the symbol at a place. -/
def valueAt (byte : UInt8) (offset : Nat) : Except Fault Nat :=
  match value? byte with
  | some n => .ok n
  | none => .error (.badSymbol byte offset)

/-- The three bytes of four values, as far as they are needed. -/
def groupBytes (a b c d : Nat) : List UInt8 :=
  [UInt8.ofNat (a * 4 + b / 16), UInt8.ofNat (b % 16 * 16 + c / 4), UInt8.ofNat (c % 4 * 64 + d)]

/-- The values of the last group and the number of padding symbols behind them.  Padding
may not come among its first two symbols, and only padding follows padding. -/
def readLast (start : Nat) : Nat → List Nat → Option Nat → List UInt8 →
    Except Fault (List Nat × Nat)
  | index, values, firstPad, [] =>
    .ok (values.reverse, match firstPad with | some p => index - p | none => 0)
  | index, values, firstPad, byte :: rest =>
    if byte = padding then
      if index < 2 then .error (.badSymbol byte (start + index))
      else readLast start (index + 1) values (some (firstPad.getD index)) rest
    else
      match firstPad with
      | some p => .error (.badSymbol padding (start + p))
      | none =>
        match valueAt byte (start + index) with
        | .ok n => readLast start (index + 1) (n :: values) none rest
        | .error e => .error e

/-- The byte of the last symbol that is no padding. -/
def lastSymbol (group : List UInt8) : UInt8 :=
  ((group.filter (· != padding)).getLast?).getD 0

/-- The bytes of the last group. -/
def decodeLast (start : Nat) (group : List UInt8) : Except Fault (List UInt8) := do
  let (values, pads) ← readLast start 0 [] none group
  match values with
  | [a, b, c, d] => .ok (groupBytes a b c d)
  | [a, b, c] =>
    if pads ≠ 1 then .error .badPadding
    else if c % 4 ≠ 0 then .error (.badLastSymbol (lastSymbol group) (start + 2))
    else .ok ((groupBytes a b c 0).take 2)
  | [a, b] =>
    if pads ≠ 2 then .error .badPadding
    else if b % 16 ≠ 0 then .error (.badLastSymbol (lastSymbol group) (start + 1))
    else .ok ((groupBytes a b 0 0).take 1)
  | _ => .error (.badLength (start + values.length))

/-- Reads groups of four from the given place on; what has been read stands reversed
in `done`.  The last group, complete or not, is read on its own. -/
def decodeGroups (start : Nat) (done : List UInt8) : List UInt8 → Except Fault (List UInt8)
  | a :: b :: c :: d :: e :: rest => do
    let w ← valueAt a start
    let x ← valueAt b (start + 1)
    let y ← valueAt c (start + 2)
    let z ← valueAt d (start + 3)
    decodeGroups (start + 4) ((groupBytes w x y z).reverse ++ done) (e :: rest)
  | [] => .ok done.reverse
  | group => (decodeLast start group).map fun bytes => done.reverse ++ bytes

/-- The bytes that symbols denote.  A single symbol too many that is no symbol at all is
reported before anything else. -/
def decodeBytes (symbols : List UInt8) : Except Fault (List UInt8) :=
  let last := symbols.getLast?.getD padding
  if symbols.length % 4 = 1 ∧ last ≠ padding ∧ (value? last).isNone then
    .error (.badSymbol last (symbols.length - 1))
  else decodeGroups 0 [] symbols

end Patchbay.Text.Base64
