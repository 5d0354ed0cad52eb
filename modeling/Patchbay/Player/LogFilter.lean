import Patchbay.Text.Letter
import Patchbay.Text.Blank
import Patchbay.Decimal.Reading
/-!
Filters for what is logged.

A filter is a row of directives between commas.  A directive names a target,
a span with at most one field, and a level, each of which may be missing:
`target[span{field}]=level`.  Without an equals sign and a span, any
text is a level or else a target.
-/

namespace Patchbay.LogFilter

open Text

/-- The names of the levels. -/
def levelNames : List String := ["off", "error", "warn", "info", "debug", "trace"]

/-- Whether a text names a level, in any case, or numbers one. -/
def isLevel (text : String) : Bool :=
  levelNames.contains (String.ofList (Decimal.lowerAscii text.toList)) ||
    (Decimal.readNat64 text).toOption.any (· < levelNames.length)

/-- Whether a target or level can start with the character. -/
def startsTarget (c : Char) : Bool :=
  isLetter c || c.isDigit || c == '-' || c == ':' || c == '_'

/-- What follows a target or a span: nothing, or an equals sign and perhaps a level. -/
def isLevelPart : List Char → Bool
  | [] => true
  | '=' :: level => level.isEmpty || isLevel (String.ofList level)
  | _ => false

/-- A span, its opening bracket taken, and what follows it. -/
def isSpanPart (cs : List Char) : Bool :=
  match cs.dropWhile fun c => c != ']' && c != '\x7b' with
  | ']' :: rest => isLevelPart rest
  | _ :: rest =>
    let (field, after) := rest.span (· != '\x7d')
    match after with
    | _ :: ']' :: rest => !field.isEmpty && isLevelPart rest
    | _ => false
  | [] => false

/-- Whether a text that is not empty is a directive.  Blanks around it belong to a target, so
none of them may stand beside a level. -/
def isDirective (text : String) : Bool :=
  match trimChars text.toList with
  | [] => false
  | c :: cs =>
    if c = '[' then isSpanPart cs
    else
      startsTarget c &&
        match cs.dropWhile fun c => c != '=' && c != '[' with
        | [] => true
        | '[' :: rest => isSpanPart rest
        | rest => isLevelPart rest && trim text == text

/-- Whether a text is a filter. -/
def isValid (text : String) : Bool :=
  ((splitAt ',' text).filter (!·.isEmpty)).all isDirective

end Patchbay.LogFilter
