import Patchbay.Number.Single
import Patchbay.Text.Utf8
/-!
The wire format of single values.

A `Wire` pairs the way a type is written with the way it is read.  Numbers
have a fixed width and come least significant byte first; a text and a list
start with their length in eight bytes; a flag and the tag of an optional
value are one byte, zero or one.  A reader returns what it read and the
bytes behind it, or the cause of its failure.
-/

namespace Patchbay.Bytes

/-- Why bytes cannot be read as a value. -/
inductive WireError where
  | ended
  | badFlag (byte : UInt8)
  | badTag (byte : UInt8)
  | badText (fault : Text.Utf8.Fault)
deriving DecidableEq, Repr

namespace WireError

/-- The wording, given what is said of bytes that end too early. -/
def describe (endedText : String) : WireError → String
  | ended => endedText
  | badFlag byte => s!"invalid u8 while decoding bool, expected 0 or 1, found {byte}"
  | badTag byte => s!"tag for enum is not valid, found {byte}"
  | badText fault => "string is not valid utf8: " ++ fault.message

end WireError

/-- A way of writing a type and of reading it. -/
structure Wire (α : Type) where
  put : α → List UInt8
  get : List UInt8 → Except WireError (α × List UInt8)

namespace Wire

/-! ## Words -/

/-- The `width` bytes of `n`, least significant first. -/
def littleEndian : Nat → Nat → List UInt8
  | 0, _ => []
  | width + 1, n => UInt8.ofNat (n % 256) :: littleEndian width (n / 256)

/-- The natural that bytes denote, least significant first. -/
def ofLittleEndian : List UInt8 → Nat
  | [] => 0
  | b :: bs => b.toNat + 256 * ofLittleEndian bs

/-- The first `n` bytes and the rest. -/
def takeBytes (n : Nat) (bs : List UInt8) : Except WireError (List UInt8 × List UInt8) :=
  let front := bs.take n
  if front.length = n then .ok (front, bs.drop n) else .error .ended

/-- A natural of fixed width. -/
def word (width : Nat) : Wire Nat where
  put := littleEndian width
  get bs := (takeBytes width bs).map fun (front, rest) => (ofLittleEndian front, rest)

/-- A wire for another type that is written in the same way. -/
def viaMap {α β : Type} (w : Wire α) (forth : β → α) (back : α → β) : Wire β where
  put b := w.put (forth b)
  get bs := (w.get bs).map fun (a, rest) => (back a, rest)

def u8 : Wire UInt8 := (word 1).viaMap UInt8.toNat UInt8.ofNat

def u32 : Wire UInt32 := (word 4).viaMap UInt32.toNat UInt32.ofNat

def u64 : Wire UInt64 := (word 8).viaMap UInt64.toNat UInt64.ofNat

def i32 : Wire Int32 := u32.viaMap Int32.toUInt32 UInt32.toInt32

def single : Wire Single := u32.viaMap Single.bits Single.mk

/-! ## Flags, texts, optional values -/

/-- The byte of a flag. -/
def flagByte (b : Bool) : UInt8 := if b then 1 else 0

def flag : Wire Bool where
  put b := [flagByte b]
  get
    | [] => .error .ended
    | byte :: rest =>
      if byte = 0 then .ok (false, rest)
      else if byte = 1 then .ok (true, rest)
      else .error (.badFlag byte)

/-- Bytes behind their number. -/
def block : Wire (List UInt8) where
  put bytes := (word 8).put bytes.length ++ bytes
  get bs := do
    let (n, rest) ← (word 8).get bs
    takeBytes n rest

def text : Wire String where
  put s := block.put (Text.Utf8.encode s)
  get bs := do
    let (bytes, rest) ← block.get bs
    match Text.Utf8.decode bytes with
    | .ok s => .ok (s, rest)
    | .error fault => .error (.badText fault)

def optional {α : Type} (w : Wire α) : Wire (Option α) where
  put
    | none => [0]
    | some a => 1 :: w.put a
  get
    | [] => .error .ended
    | byte :: rest =>
      if byte = 0 then .ok (none, rest)
      else if byte = 1 then (w.get rest).map fun (a, rest) => (some a, rest)
      else .error (.badTag byte)

/-! ## Several values -/

def pair {α β : Type} (v : Wire α) (w : Wire β) : Wire (α × β) where
  put p := v.put p.1 ++ w.put p.2
  get bs := do
    let (a, rest) ← v.get bs
    let (b, rest) ← w.get rest
    return ((a, b), rest)

/-- Reads `n` values; what has been read stands reversed in `done`. -/
def getMany {α : Type} (w : Wire α) (done : List α) :
    Nat → List UInt8 → Except WireError (List α × List UInt8)
  | 0, bs => .ok (done.reverse, bs)
  | n + 1, bs =>
    match w.get bs with
    | .ok (a, rest) => getMany w (a :: done) n rest
    | .error e => .error e

/-- Values behind their number. -/
def list {α : Type} (w : Wire α) : Wire (List α) where
  put as := (word 8).put as.length ++ as.flatMap w.put
  get bs := do
    let (n, rest) ← (word 8).get bs
    getMany w [] n rest

end Wire

end Patchbay.Bytes
