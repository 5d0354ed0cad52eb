/-!
JSON documents, and their two layouts.

Compact text has no blanks.  Indented text has one entry a line, two spaces
deeper than the bracket around it; an empty list or object stays on one
line.  In strings a quote, a backslash and the control characters are
escaped, and nothing else.
-/

namespace Patchbay.Text

inductive JsonTree where
  | null
  | number (n : Nat)
  | text (s : String)
  | list (items : List JsonTree)
  | object (fields : List (String × JsonTree))

namespace JsonTree

/-! ## Strings -/

def hexDigits (width n : Nat) : List Char :=
  let ds := Nat.toDigits 16 n
  List.replicate (width - ds.length) '0' ++ ds

/-- A character inside a string. -/
def escapeChar (c : Char) : List Char :=
  if c = '"' then ['\\', '"']
  else if c = '\\' then ['\\', '\\']
  else if c = '\x08' then ['\\', 'b']
  else if c = '\t' then ['\\', 't']
  else if c = '\n' then ['\\', 'n']
  else if c = '\x0c' then ['\\', 'f']
  else if c = '\r' then ['\\', 'r']
  else if c.toNat < 0x20 then '\\' :: 'u' :: hexDigits 4 c.toNat
  else [c]

def quote (s : String) : String := "\"" ++ String.ofList (s.toList.flatMap escapeChar) ++ "\""

/-! ## Layouts -/

/-- How the entries of a list or an object are set apart. -/
structure Layout where
  /-- What stands before an entry, and before the closing bracket, at the given depth. -/
  lineBreak : Nat → String
  colon : String

def Layout.compact : Layout := ⟨fun _ => "", ":"⟩

def Layout.indented : Layout :=
  ⟨fun depth => String.ofList ('\n' :: List.replicate (2 * depth) ' '), ": "⟩

/-- Entries between brackets. -/
def Layout.enclose (l : Layout) (depth : Nat) (opening closing : String) (entries : List String) :
    String :=
  if entries.isEmpty then opening ++ closing
  else
    let inner := String.intercalate "," (entries.map fun e => l.lineBreak (depth + 1) ++ e)
    opening ++ inner ++ l.lineBreak depth ++ closing

mutual

/-- The text of a document whose brackets stand at the given depth. -/
def render (l : Layout) (depth : Nat) : JsonTree → String
  | null => "null"
  | number n => toString n
  | text s => quote s
  | list items => l.enclose depth "[" "]" (renderItems l (depth + 1) items)
  | object fields => l.enclose depth "\x7b" "\x7d" (renderFields l (depth + 1) fields)

def renderItems (l : Layout) (depth : Nat) : List JsonTree → List String
  | [] => []
  | t :: rest => render l depth t :: renderItems l depth rest

def renderFields (l : Layout) (depth : Nat) : List (String × JsonTree) → List String
  | [] => []
  | (name, t) :: rest => (quote name ++ l.colon ++ render l depth t) :: renderFields l depth rest

end

end JsonTree

end Patchbay.Text
