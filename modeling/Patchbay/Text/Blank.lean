/-!
White space and lines.

The blank characters are those with the white-space property; trimming,
splitting into words and the test for a blank text all use that one class.
A line ends at a line feed, and one carriage return before it belongs to
the ending.
-/

namespace Patchbay.Text

/-- The characters with the white-space property. -/
def isBlank (c : Char) : Bool :=
  let n := c.toNat
  (0x09 ≤ n && n ≤ 0x0d) || n == 0x20 || n == 0x85 || n == 0xa0 || n == 0x1680 ||
    (0x2000 ≤ n && n ≤ 0x200a) || n == 0x2028 || n == 0x2029 || n == 0x202f || n == 0x205f ||
    n == 0x3000

def trimChars (cs : List Char) : List Char :=
  ((cs.dropWhile isBlank).reverse.dropWhile isBlank).reverse

/-- The text without blanks at both ends. -/
def trim (s : String) : String := String.ofList (trimChars s.toList)

/-- Whether nothing but blanks is there. -/
def isBlankText (s : String) : Bool := s.toList.all isBlank

/-- One step of cutting into words, the current one reversed. -/
def wordsStep (word : List Char) (words : List (List Char)) : List Char → List (List Char)
  | [] => (if word.isEmpty then words else word.reverse :: words).reverse
  | c :: cs =>
    if isBlank c then
      wordsStep [] (if word.isEmpty then words else word.reverse :: words) cs
    else wordsStep (c :: word) words cs

/-- The words between blanks, none of them empty. -/
def words (s : String) : List String := (wordsStep [] [] s.toList).map String.ofList

/-- The pieces between the characters that satisfy `p`; there is always at least one. -/
def splitStep (p : Char → Bool) (piece : List Char) (pieces : List (List Char)) :
    List Char → List (List Char)
  | [] => (piece.reverse :: pieces).reverse
  | c :: cs =>
    if p c then splitStep p [] (piece.reverse :: pieces) cs
    else splitStep p (c :: piece) pieces cs

/-- The pieces between occurrences of `sep`. -/
def splitAt (sep : Char) (s : String) : List String :=
  (splitStep (· == sep) [] [] s.toList).map String.ofList

def dropCarriageReturn (cs : List Char) : List Char :=
  match cs.reverse with
  | '\r' :: rest => rest.reverse
  | _ => cs

/-- The lines of a text; what follows the last line feed is a line unless it is empty.
Only a line that ends in a line feed loses its carriage return. -/
def lines (s : String) : List String :=
  let pieces := splitStep (· == '\n') [] [] s.toList
  let ended := pieces.dropLast.map dropCarriageReturn
  let last := pieces.getLast?.getD []
  (if last.isEmpty then ended else ended ++ [last]).map String.ofList

end Patchbay.Text
