/-!
Letters.

A word of a notation starts with a letter and goes on with letters, digits
and marks.  Beyond ASCII the letters are those of the alphabets of Europe
and the Near East and the large blocks of the scripts of Asia.
-/

namespace Patchbay.Text

/-- The letters beyond ASCII, as ranges of code points. -/
def letterRanges : List (Nat × Nat) :=
  [(0xaa, 0xaa), (0xb5, 0xb5), (0xba, 0xba), (0xc0, 0xd6), (0xd8, 0xf6), (0xf8, 0x2c1),
    (0x2c6, 0x2d1), (0x2e0, 0x2e4), (0x2ec, 0x2ec), (0x2ee, 0x2ee), (0x370, 0x374),
    (0x376, 0x377), (0x37b, 0x37d), (0x37f, 0x37f), (0x386, 0x386), (0x388, 0x38a),
    (0x38c, 0x38c), (0x38e, 0x3a1), (0x3a3, 0x3f5), (0x3f7, 0x481), (0x48a, 0x52f),
    (0x531, 0x556), (0x559, 0x559), (0x560, 0x588), (0x5d0, 0x5ea), (0x620, 0x64a),
    (0x904, 0x939), (0xe01, 0xe30), (0x1e00, 0x1f15), (0x3041, 0x3096), (0x30a1, 0x30fa),
    (0x3400, 0x4dbf), (0x4e00, 0x9fff), (0xac00, 0xd7a3), (0x20000, 0x2a6df)]

/-- The digits and marks beyond ASCII that may follow a letter. -/
def markRanges : List (Nat × Nat) :=
  [(0xb7, 0xb7), (0x300, 0x36f), (0x387, 0x387), (0x483, 0x487), (0x660, 0x669)]

def inRanges (ranges : List (Nat × Nat)) (c : Char) : Bool :=
  ranges.any fun (lo, hi) => lo ≤ c.toNat && c.toNat ≤ hi

def isLetter (c : Char) : Bool := c.isAlpha || inRanges letterRanges c

def startsWord (c : Char) : Bool := isLetter c || c == '_'

def continuesWord (c : Char) : Bool := startsWord c || c.isDigit || inRanges markRanges c

end Patchbay.Text
