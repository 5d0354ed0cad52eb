import Patchbay.Text.Letter
/-!
Scanning of the record notation.

A scanner takes characters from the front of a text or fails.  Between any
two parts of the notation blanks and comments may stand: a line comment ends
with its line, and block comments nest and have to be closed.  A word starts
with a letter or an underscore; behind the mark of a raw word points and
signs belong to it too.
-/

namespace Patchbay.Text.Record

/-- Takes characters from the front, or fails. -/
abbrev Scanner := StateT (List Char) Option

namespace Scanner

/-- The rest behind a text that stands at the front. -/
def dropFront? : List Char → List Char → Option (List Char)
  | [], cs => some cs
  | _ :: _, [] => none
  | t :: ts, c :: cs => if t = c then dropFront? ts cs else none

def peek? : Scanner (Option Char) := fun cs => some (cs.head?, cs)

def next : Scanner Char
  | [] => none
  | c :: cs => some (c, cs)

/-- Takes the text if it stands next. -/
def accept (text : String) : Scanner Bool := fun cs =>
  match dropFront? text.toList cs with
  | some rest => some (true, rest)
  | none => some (false, cs)

/-- Takes the text, which has to stand next. -/
def expect (text : String) : Scanner Unit := do guard (← accept text)

def takeWhile (p : Char → Bool) : Scanner (List Char) := fun cs => some (cs.span p)

/-- Whether a scanner would succeed with `true`; nothing is taken. -/
def ahead (s : Scanner Bool) : Scanner Bool := fun cs =>
  some ((s.run cs).any (·.1), cs)

/-- What an attempt gives, and nothing taken where it fails. -/
def attempt? {α : Type} (s : Scanner α) : Scanner (Option α) := fun cs =>
  match s cs with
  | some (a, rest) => some (some a, rest)
  | none => some (none, cs)

/-- At most `bound` rounds of a scanner, until one gives nothing. -/
def rounds {α : Type} (s : Scanner (Option α)) : Nat → Scanner (List α)
  | 0 => failure
  | bound + 1 => do
    match ← s with
    | none => return []
    | some a => return a :: (← rounds s bound)

/-- Rounds of a scanner until one gives nothing.  A round that gives something has taken a
character, so there are no more rounds than characters, and a last one. -/
def repeated {α : Type} (s : Scanner (Option α)) : Scanner (List α) := fun cs =>
  rounds s (cs.length + 1) cs

/-! ## Blanks and comments -/

def isBlank (c : Char) : Bool :=
  let n := c.toNat
  n == 0x20 || (0x09 ≤ n && n ≤ 0x0d) || n == 0x85 || n == 0x200e || n == 0x200f ||
    n == 0x2028 || n == 0x2029

/-- Where a skip between two parts stands: outside comments, in a line comment, or in a
block comment with some more around it. -/
inductive Skip where
  | blanks
  | line
  | block (outer : Nat)

/-- The text behind blanks and comments. -/
def skipFrom : Skip → List Char → Option (List Char)
  | .blanks, '/' :: '/' :: cs => skipFrom .line cs
  | .blanks, '/' :: '*' :: cs => skipFrom (.block 0) cs
  | .blanks, '/' :: _ => none
  | .blanks, c :: cs => if isBlank c then skipFrom .blanks cs else some (c :: cs)
  | .blanks, [] => some []
  | .line, '\n' :: cs => skipFrom .blanks cs
  | .line, _ :: cs => skipFrom .line cs
  | .line, [] => some []
  | .block outer, '/' :: '*' :: cs => skipFrom (.block (outer + 1)) cs
  | .block 0, '*' :: '/' :: cs => skipFrom .blanks cs
  | .block (outer + 1), '*' :: '/' :: cs => skipFrom (.block outer) cs
  | .block outer, _ :: cs => skipFrom (.block outer) cs
  | .block _, [] => none

def skipBlanks : Scanner Unit := fun cs => (skipFrom .blanks cs).map ((), ·)

/-! ## Words -/

/-- The characters of a raw word. -/
def isRaw (c : Char) : Bool := continuesWord c || c == '.' || c == '+' || c == '-'

/-- The openings of quoted texts that start with a letter. -/
def quoteOpenings : List String := ["b\"", "b'", "br#", "br\"", "r\"", "r#\"", "r##"]

def startsQuote (cs : List Char) : Bool :=
  quoteOpenings.any fun o => (dropFront? o.toList cs).isSome

/-- A word, when one stands next; the mark of a raw word is no part of it. -/
def word? : Scanner (Option String) := fun cs =>
  if startsQuote cs then some (none, cs)
  else
    match cs with
    | 'r' :: '#' :: rest =>
      let (word, after) := rest.span isRaw
      if word.isEmpty then some (none, cs) else some (some (String.ofList word), after)
    | c :: _ =>
      if startsWord c then
        let (word, after) := cs.span continuesWord
        some (some (String.ofList word), after)
      else some (none, cs)
    | [] => some (none, cs)

def word : Scanner String := do
  match ← word? with
  | some w => return w
  | none => failure

/-- Takes the text if it stands next as a whole word. -/
def acceptWord (text : String) : Scanner Bool := fun cs =>
  match dropFront? text.toList cs with
  | some rest => if rest.head?.any continuesWord then some (false, cs) else some (true, rest)
  | none => some (false, cs)

end Scanner

end Patchbay.Text.Record
