import Patchbay.Text.Record.Literal
/-!
Documents in the record notation.

A document is a value, behind lines that switch on features of the
notation.  A value is a number, a text, a word, an option, or other values
in brackets; a record gives its fields by name and may bear a name itself.
Brackets nest to a fixed depth.
-/

namespace Patchbay.Text.Record

inductive Tree where
  | number (n : Number)
  | text (s : String)
  | character (c : Char)
  | byte (b : UInt8)
  | bytes (bs : List UInt8)
  /-- A word on its own. -/
  | word (s : String)
  /-- An option that holds a value. -/
  | some (value : Tree)
  | list (items : List Tree)
  | map (entries : List (Tree × Tree))
  | tuple (name : Option String) (items : List Tree)
  | record (name : Option String) (fields : List (String × Tree))

/-- The features that a document can switch on. -/
inductive Feature where
  | unwrapNewtypes
  | implicitSome
  | unwrapVariants
  | explicitNames
deriving DecidableEq, Repr

structure Document where
  features : List Feature
  tree : Tree

def Feature.ofName? : String → Option Feature
  | "unwrap_newtypes" => some .unwrapNewtypes
  | "implicit_some" => some .implicitSome
  | "unwrap_variant_newtypes" => some .unwrapVariants
  | "explicit_struct_names" => some .explicitNames
  | _ => none

namespace Scanner

/-- Items with commas between them up to a closing bracket, which is taken too.  A comma may
follow the last one. -/
def items {α : Type} (item : Scanner α) (close : String) : Scanner (List α) :=
  repeated do
    skipBlanks
    if ← accept close then return none
    let a ← item
    skipBlanks
    unless ← accept "," do guard (← ahead (accept close))
    return some a

/-! ## Values -/

/-- A key and a value with a colon between them. -/
def entry {α β : Type} (key : Scanner α) (value : Scanner β) : Scanner (α × β) := do
  let k ← key
  skipBlanks
  expect ":"
  skipBlanks
  return (k, ← value)

/-- The words that are whole values. -/
def constants : List String := ["true", "false", "None"] ++ infinities

/-- Whether a name and a colon stand next. -/
def namesField : Scanner Bool := ahead do
  skipBlanks
  let _ ← word
  skipBlanks
  accept ":"

/-- Whatever parentheses hold, the opening one taken. -/
def enclosed (value : Scanner Tree) (name : Option String) : Scanner Tree := do
  if ← namesField then return .record name (← items (entry word value) ")")
  else return .tuple name (← items value ")")

/-- What follows a word. -/
def afterWord (value : Scanner Tree) (w : String) : Scanner Tree := do
  if constants.contains w then return .word w
  skipBlanks
  if w == "Some" then
    expect "("
    match ← items value ")" with
    | [v] => return .some v
    | _ => failure
  else if ← accept "(" then enclosed value (some w)
  else return .word w

/-- A value that does not start with a word, from its first character on. -/
def unnamed (value : Scanner Tree) : Scanner Tree := do
  if ← accept "(" then enclosed value none
  else if ← accept "[" then return .list (← items value "]")
  else if ← accept "\x7b" then return .map (← items (entry value value) "\x7d")
  else if ← accept "\"" then return .text (← quotedBytes true >>= decoded)
  else if ← accept "r" then return .text (← rawText)
  else if ← accept "'" then return .character (← character)
  else if ← accept "b'" then return .byte (← byte)
  else if ← accept "b\"" then return .bytes (← quotedBytes false)
  else if ← accept "br" then return .bytes (Utf8.encode (← rawText))
  else return .number (← number)

/-- A value whose brackets nest at most so deep. -/
def value : Nat → Scanner Tree
  | 0 => failure
  | depth + 1 => do
    match ← word? with
    | some w => afterWord (value depth) w
    | none => unnamed (value depth)

/-! ## Documents -/

def feature : Scanner Feature := do
  match Feature.ofName? (← word) with
  | some f => return f
  | none => failure

/-- A line that switches on features, when one stands next. -/
def featureLine? : Scanner (Option (List Feature)) := do
  skipBlanks
  unless ← ahead (accept "#") do return none
  for part in ["#", "!", "[", "enable", "("] do
    expect part
    skipBlanks
  let features ← items feature ")"
  guard (!features.isEmpty)
  skipBlanks
  expect "]"
  return some features

/-- How deep the brackets of a document nest. -/
def maxDepth : Nat := 65

def document : Scanner Document := do
  let features ← repeated featureLine?
  let tree ← value maxDepth
  skipBlanks
  guard (← get).isEmpty
  return ⟨features.flatten, tree⟩

end Scanner

/-- The document that a text is. -/
def Document.read? (text : String) : Option Document :=
  (Scanner.document.run text.toList).map (·.1)

/-! ## Writing -/

/-- A character inside a quoted text. -/
def escapeChar (c : Char) : List Char :=
  if c = '"' then ['\\', '"']
  else if c = '\\' then ['\\', '\\']
  else if c = '\n' then ['\\', 'n']
  else if c = '\r' then ['\\', 'r']
  else if c = '\t' then ['\\', 't']
  else if c = '\x00' then ['\\', '0']
  else [c]

def quote (s : String) : String := "\"" ++ String.ofList (s.toList.flatMap escapeChar) ++ "\""

end Patchbay.Text.Record
