import Patchbay.Bytes.Wire
/-!
A byte queue with a read position.

Values are appended at the end and read from the position on; what has
been read stays in place.  A reader moves the position past the bytes it
used.  A block is read in two steps, its length and then its bytes, so a
block that is longer than the buffer leaves the position behind the length.
-/

namespace Patchbay.Bytes

/-- Why a buffer cannot be read. -/
inductive BufferError where
  | wire (cause : WireError)
  | tooShort (needed remaining : Nat)
deriving DecidableEq, Repr

def BufferError.message : BufferError → String
  | .wire cause => "Codec error: " ++ cause.describe "the size limit has been reached"
  | .tooShort needed remaining =>
    s!"Buffer ended early: needed {needed} bytes, {remaining} remaining"

/-- The bytes written so far and how many of them have been read. -/
structure Buffer where
  bytes : List UInt8
  position : Nat
  position_le : position ≤ bytes.length
deriving DecidableEq

namespace Buffer

/-- A buffer to be read from its start. -/
def ofBytes (bytes : List UInt8) : Buffer := ⟨bytes, 0, Nat.zero_le _⟩

def empty : Buffer := ofBytes []

instance : Inhabited Buffer := ⟨empty⟩

def size (b : Buffer) : Nat := b.bytes.length

def remaining (b : Buffer) : Nat := b.bytes.length - b.position

def isExhausted (b : Buffer) : Bool := b.remaining == 0

/-- The bytes that have not been read. -/
def unread (b : Buffer) : List UInt8 := b.bytes.drop b.position

/-! ## Writing -/

/-- Appends bytes as they are. -/
def putBytes (b : Buffer) (bytes : List UInt8) : Buffer :=
  ⟨b.bytes ++ bytes, b.position, by
    have := b.position_le
    simp only [List.length_append]
    omega⟩

/-- Appends a value. -/
def add {α : Type} (w : Wire α) (a : α) (b : Buffer) : Buffer := b.putBytes (w.put a)

/-- Appends bytes behind their number. -/
def addBlock (b : Buffer) (bytes : List UInt8) : Buffer := b.add Wire.block bytes

/-! ## Reading -/

/-- The buffer with only the given number of bytes left to read. -/
def leaving (b : Buffer) (rest : Nat) : Buffer :=
  ⟨b.bytes, b.bytes.length - rest, Nat.sub_le _ _⟩

/-- A reader: what it gives, and the buffer afterwards, also when it fails. -/
abbrev Reader := EStateM BufferError Buffer

/-- Reads a value; a failure leaves the buffer as it was. -/
def get {α : Type} (w : Wire α) : Reader α := fun b =>
  match w.get b.unread with
  | .ok (a, rest) => .ok a (b.leaving rest.length)
  | .error e => .error (.wire e) b

/-- Reads the given number of bytes. -/
def take (n : Nat) : Reader (List UInt8) := fun b =>
  if b.remaining < n then .error (.tooShort n b.remaining) b
  else .ok (b.unread.take n) (b.leaving (b.remaining - n))

/-- Reads a block: its length, then its bytes. -/
def getBlock : Reader (List UInt8) := do
  let n ← get Wire.u64
  take n.toNat

end Buffer

end Patchbay.Bytes
