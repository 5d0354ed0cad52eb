/-!
UTF-8, with the place and the length of the first fault.

`encode` writes each character in one to four bytes.  `decode` reads
nothing else: overlong forms, surrogates and numbers above the last code
point are faults.  A fault says where the good part ends and how many bytes
of the bad sequence have been looked at, or that the text stops inside a
sequence that is good so far.
-/

namespace Patchbay.Text.Utf8

/-! ## Writing -/

/-- The bytes of one character. -/
def encodeChar (c : Char) : List UInt8 :=
  let n := c.toNat
  if n < 0x80 then [UInt8.ofNat n]
  else if n < 0x800 then [UInt8.ofNat (0xc0 + n / 64), UInt8.ofNat (0x80 + n % 64)]
  else if n < 0x10000 then
    [UInt8.ofNat (0xe0 + n / 4096), UInt8.ofNat (0x80 + n / 64 % 64), UInt8.ofNat (0x80 + n % 64)]
  else
    [UInt8.ofNat (0xf0 + n / 262144), UInt8.ofNat (0x80 + n / 4096 % 64),
      UInt8.ofNat (0x80 + n / 64 % 64), UInt8.ofNat (0x80 + n % 64)]

def encode (s : String) : List UInt8 := s.toList.flatMap encodeChar

/-! ## Reading -/

/-- Where the good part ends, and how long the bad sequence is when it is not just cut off. -/
inductive Fault where
  | invalid (length index : Nat)
  | incomplete (index : Nat)
deriving DecidableEq, Repr

def Fault.message : Fault → String
  | .invalid length index => s!"invalid utf-8 sequence of {length} bytes from index {index}"
  | .incomplete index => s!"incomplete utf-8 byte sequence from index {index}"

/-- A fault of a single sequence, before its place is known. -/
inductive SequenceFault where
  | invalid (length : Nat)
  | incomplete
deriving DecidableEq, Repr

def SequenceFault.at (index : Nat) : SequenceFault → Fault
  | .invalid length => .invalid length index
  | .incomplete => .incomplete index

def isContinuation (b : UInt8) : Bool := 0x80 ≤ b && b ≤ 0xbf

/-- The bytes that may come second after the given first byte. -/
def isSecond (first second : UInt8) : Bool :=
  if first == 0xe0 then 0xa0 ≤ second && second ≤ 0xbf
  else if first == 0xed then 0x80 ≤ second && second ≤ 0x9f
  else if first == 0xf0 then 0x90 ≤ second && second ≤ 0xbf
  else if first == 0xf4 then 0x80 ≤ second && second ≤ 0x8f
  else isContinuation second

/-- The number of bytes that a first byte announces; zero when it cannot come first. -/
def announced (first : UInt8) : Nat :=
  if first < 0x80 then 1
  else if 0xc2 ≤ first && first ≤ 0xdf then 2
  else if 0xe0 ≤ first && first ≤ 0xef then 3
  else if 0xf0 ≤ first && first ≤ 0xf4 then 4
  else 0

/-- The six bits that a continuation byte carries. -/
def payload (b : UInt8) : Nat := b.toNat % 64

/-- The code point behind a first byte, with the number of bytes that follow it. -/
def readTail (first : UInt8) (rest : List UInt8) : Except SequenceFault (Nat × Nat) :=
  match announced first, rest with
  | 1, _ => .ok (first.toNat, 0)
  | 2, b :: _ =>
    if isSecond first b then .ok (first.toNat % 32 * 64 + payload b, 1) else .error (.invalid 1)
  | 3, b :: more =>
    if isSecond first b then
      match more with
      | [] => .error .incomplete
      | c :: _ =>
        if isContinuation c then
          .ok (first.toNat % 16 * 4096 + payload b * 64 + payload c, 2)
        else .error (.invalid 2)
    else .error (.invalid 1)
  | 4, b :: more =>
    if isSecond first b then
      match more with
      | [] => .error .incomplete
      | c :: more =>
        if isContinuation c then
          match more with
          | [] => .error .incomplete
          | d :: _ =>
            if isContinuation d then
              .ok (first.toNat % 8 * 262144 + payload b * 4096 + payload c * 64 + payload d, 3)
            else .error (.invalid 3)
        else .error (.invalid 2)
    else .error (.invalid 1)
  | 0, _ => .error (.invalid 1)
  | _, _ => .error .incomplete

/-- Reads characters from the given place on; what has been read stands reversed in `done`. -/
def decodeFrom (index : Nat) (done : List Char) : List UInt8 → Except Fault (List Char)
  | [] => .ok done.reverse
  | first :: rest =>
    match readTail first rest with
    | .ok (n, k) => decodeFrom (index + 1 + k) (Char.ofNat n :: done) (rest.drop k)
    | .error f => .error (f.at index)
termination_by bytes => bytes.length
decreasing_by exact Nat.lt_succ_of_le (List.length_drop ▸ Nat.sub_le ..)

/-- The text that the bytes denote. -/
def decode (bytes : List UInt8) : Except Fault String :=
  (decodeFrom 0 [] bytes).map String.ofList

end Patchbay.Text.Utf8
