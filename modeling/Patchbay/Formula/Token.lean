import Patchbay.Text.Blank
import Patchbay.Decimal.Reading
import Patchbay.Number.Double
/-!
The tokens of the standard engine and their scanner.

A token is the longest that fits at its place; blanks and comments between
tokens are skipped.  A minus sign directly before a digit belongs to the
number wherever an operand is expected.  Words and symbols that the
language keeps for itself, and characters it does not know, are faults.
-/

namespace Patchbay.Formula

/-- Why a source is no formula. -/
inductive SourceFault where
  | strayChar (c : Char)
  | reserved (word : String)
  | badNumber (text : String)
  | badLiteral
  | unexpectedToken
  | unexpectedEnd
  | tooDeep
  | notBoolean
deriving DecidableEq, Repr

/-- The operators that stand between two operands. -/
inductive Operator where
  | add | sub | mul | div | rem | pow
  | shiftLeft | shiftRight
  | bitAnd | bitOr | bitXor
  | and | or
  | eq | ne | lt | le | gt | ge
  | orElse
deriving DecidableEq, Repr

inductive Token where
  | int (n : Int)
  | float (x : Float)
  | text (s : String)
  | char (c : Char)
  | bool (b : Bool)
  | name (s : String)
  | callable (s : String)
  | ifWord
  | elseWord
  | op (o : Operator)
  | bang
  | leftParen | rightParen
  | leftBracket | rightBracket
  | leftBrace | rightBrace
  | mapStart
  | comma | colon | period | semicolon
  | other

/-- Whether an operand is expected after the token, so that a sign is part of it. -/
def Token.expectsOperand : Token → Bool
  | .op _ | .bang | .leftParen | .leftBracket | .leftBrace | .mapStart
  | .comma | .colon | .semicolon | .ifWord => true
  | _ => false

/-! ## Words -/

def isWordStart (c : Char) : Bool := c.isAlpha || c == '_'

def isWordChar (c : Char) : Bool := c.isAlphanum || c == '_'

/-- Words that no formula may use as names. -/
def reservedWords : List String :=
  ["let", "const", "switch", "do", "while", "until", "loop", "for", "in", "fn", "private",
    "import", "export", "as", "global", "continue", "break", "return", "throw", "try", "catch",
    "var", "static", "shared", "begin", "end", "unless", "then", "goto", "exit", "match", "case",
    "default", "void", "null", "nil", "spawn", "thread", "go", "sync", "async", "await", "yield",
    "public", "protected", "super", "new", "use", "module", "package", "with", "is", "each", "this"]

/-- Names that stand for nothing by themselves but can be called. -/
def callableWords : List String :=
  ["print", "debug", "type_of", "eval", "call", "curry", "is_shared", "is_def_fn", "is_def_var", "Fn"]

/-- A name has a letter before its first digit. -/
def isProperName (cs : List Char) : Bool :=
  match cs.dropWhile (· == '_') with
  | c :: _ => c.isAlpha
  | [] => false

def wordToken (cs : List Char) : Except SourceFault Token :=
  let s := String.ofList cs
  if s = "true" then .ok (.bool true)
  else if s = "false" then .ok (.bool false)
  else if s = "if" then .ok .ifWord
  else if s = "else" then .ok .elseWord
  else if callableWords.contains s then .ok (.callable s)
  else if reservedWords.contains s || !isProperName cs then .error (.reserved s)
  else .ok (.name s)

/-! ## Numbers -/

/-- Digits of a base at the front, separators among them left out, and the rest. -/
def spanDigitsOf (base : Nat) (cs : List Char) : List Char × List Char :=
  let (front, rest) := cs.span fun c => Decimal.isDigitOf base c || c == '_'
  (front.filter (· != '_'), rest)

/-- The fraction behind whole digits: the point belongs to the number when a digit follows,
or something that cannot start a name. -/
def spanFraction (cs : List Char) : List Char × List Char :=
  match cs with
  | '.' :: rest =>
    match rest with
    | c :: _ =>
      if Decimal.isDigit c then
        let (ds, rest) := spanDigitsOf 10 rest
        ('.' :: ds, rest)
      else if c == '_' || c == '.' || isWordStart c then ([], cs)
      else (['.', '0'], rest)
    | [] => ([], cs)
  | _ => ([], cs)

/-- The exponent of a number, when a digit or a sign follows the letter. -/
def spanExponent (cs : List Char) : List Char × List Char :=
  match cs with
  | 'e' :: c :: rest =>
    if c == '+' || c == '-' then
      let (ds, rest) := spanDigitsOf 10 rest
      ('e' :: c :: ds, rest)
    else if Decimal.isDigit c then
      let (ds, rest) := spanDigitsOf 10 (c :: rest)
      ('e' :: ds, rest)
    else ([], cs)
  | _ => ([], cs)

def intLimit : Nat := 9223372036854775808

/-- Whether a signed whole number fits in 64 bits. -/
def fitsInt (n : Int) : Bool := -(intLimit : Int) ≤ n && n < intLimit

/-- A number in decimal: an integer when it has that form and fits, else a float. -/
def decimalToken (negative : Bool) (whole fraction exponent : List Char) :
    Except SourceFault Token :=
  let magnitude := Decimal.digitsValue whole
  let n : Int := if negative then -(magnitude : Int) else magnitude
  if fraction.isEmpty && exponent.isEmpty && fitsInt n then .ok (.int n)
  else
    match Decimal.readDecimal? (whole ++ fraction ++ exponent) with
    | some (digits, e) =>
      .ok (.float (Float.ofBits (UInt64.ofNat
        (Decimal.nearestDecimal .binary64 negative digits e))))
    | none => .error (.badNumber (String.ofList (whole ++ fraction ++ exponent)))

/-- A number in another base, as a 64-bit word read as a signed one. -/
def baseToken (negative : Bool) (base : Nat) (digits : List Char) : Except SourceFault Token :=
  let n := Decimal.digitsValueOf base digits
  if digits.isEmpty || 2 * intLimit ≤ n then .error (.badNumber (String.ofList digits))
  else
    let signed : Int := Int.bmod n (2 * intLimit)
    .ok (.int (if negative then -signed else signed))

/-- The base that a letter behind a leading zero selects. -/
def baseOf? (c : Char) : Option Nat :=
  if c == 'x' || c == 'X' then some 16
  else if c == 'o' || c == 'O' then some 8
  else if c == 'b' || c == 'B' then some 2
  else none

/-- The number at the front and the rest. -/
def scanNumber (negative : Bool) (cs : List Char) : Except SourceFault (Token × List Char) :=
  let plain := do
    let (whole, rest) := spanDigitsOf 10 cs
    let (fraction, rest) := spanFraction rest
    let (exponent, rest) := spanExponent rest
    let token ← decimalToken negative whole fraction exponent
    return (token, rest)
  match cs with
  | '0' :: c :: rest =>
    match baseOf? c with
    | some base => do
      let (digits, rest) := spanDigitsOf base rest
      let token ← baseToken negative base digits
      return (token, rest)
    | none => plain
  | _ => plain

/-! ## Texts and comments -/

/-- The character that a letter behind a backslash stands for. -/
def escaped? : Char → Option Char
  | 't' => some '\t'
  | 'n' => some '\n'
  | 'r' => some '\r'
  | '\\' => some '\\'
  | '"' => some '"'
  | '\'' => some '\''
  | _ => none

/-- The characters of a quoted literal behind those already read, and the rest.  A line feed ends
nothing and is refused, as is a backslash before anything that needs none. -/
def scanQuoted (quote : Char) (done : List Char) :
    List Char → Except SourceFault (List Char × List Char)
  | [] => .error .badLiteral
  | '\\' :: c :: rest =>
    match escaped? c with
    | some c => scanQuoted quote (c :: done) rest
    | none => .error .badLiteral
  | c :: rest =>
    if c == quote then .ok (done.reverse, rest)
    else if c == '\n' then .error .badLiteral
    else scanQuoted quote (c :: done) rest

/-- The longest text there may be. -/
def textLimit : Nat := 256

/-- What follows a block comment; comments nest. -/
def skipComment : Nat → List Char → List Char
  | _, [] => []
  | depth, '/' :: '*' :: rest => skipComment (depth + 1) rest
  | depth, '*' :: '/' :: rest => if depth ≤ 1 then rest else skipComment (depth - 1) rest
  | depth, _ :: rest => skipComment depth rest

/-! ## Symbols -/

/-- Symbols of two and three characters that the language keeps for itself. -/
def reservedSymbols : List String :=
  ["===", "!==", "**=", "<<=", ">>=", "...", "..=", "->", "<-", "=>", ":=", "::", "++", "--", "(*",
    "*)", "<|", "|>", "+=", "-=", "*=", "/=", "%=", "&=", "|=", "^=", "..", "?.", "?["]

/-- Whether the source starts with a reserved symbol. -/
def reservedSymbol? (cs : List Char) : Option String :=
  reservedSymbols.find? fun s => s.toList.isPrefixOf cs

/-- Tokens of two characters. -/
def pairToken? : Char → Char → Option Token
  | '*', '*' => some (.op .pow)
  | '<', '<' => some (.op .shiftLeft)
  | '>', '>' => some (.op .shiftRight)
  | '&', '&' => some (.op .and)
  | '|', '|' => some (.op .or)
  | '=', '=' => some (.op .eq)
  | '!', '=' => some (.op .ne)
  | '<', '=' => some (.op .le)
  | '>', '=' => some (.op .ge)
  | '?', '?' => some (.op .orElse)
  | '#', '\x7b' => some .mapStart
  | _, _ => none

/-- Tokens of one character. -/
def singleToken? : Char → Option Token
  | '+' => some (.op .add)
  | '-' => some (.op .sub)
  | '*' => some (.op .mul)
  | '/' => some (.op .div)
  | '%' => some (.op .rem)
  | '&' => some (.op .bitAnd)
  | '|' => some (.op .bitOr)
  | '^' => some (.op .bitXor)
  | '<' => some (.op .lt)
  | '>' => some (.op .gt)
  | '!' => some .bang
  | '(' => some .leftParen
  | ')' => some .rightParen
  | '[' => some .leftBracket
  | ']' => some .rightBracket
  | '\x7b' => some .leftBrace
  | '\x7d' => some .rightBrace
  | ',' => some .comma
  | ':' => some .colon
  | '.' => some .period
  | ';' => some .semicolon
  | '=' => some .other
  | _ => none

/-- The symbol at the front and the rest. -/
def scanSymbol (c : Char) (rest : List Char) : Except SourceFault (Token × List Char) :=
  match reservedSymbol? (c :: rest) with
  | some s => .error (.reserved s)
  | none =>
    match rest with
    | d :: more =>
      match pairToken? c d, singleToken? c with
      | some t, _ => .ok (t, more)
      | none, some t => .ok (t, rest)
      | none, none => .error (.strayChar c)
    | [] =>
      match singleToken? c with
      | some t => .ok (t, [])
      | none => .error (.strayChar c)

/-- The token that starts with `c`. -/
def scanToken (operand : Bool) (c : Char) (rest : List Char) :
    Except SourceFault (Token × List Char) :=
  if Decimal.isDigit c then scanNumber false (c :: rest)
  else if c == '-' && operand && (rest.head?.any Decimal.isDigit) then scanNumber true rest
  else if isWordStart c then do
    let (word, rest) := (c :: rest).span isWordChar
    let token ← wordToken word
    return (token, rest)
  else if c == '"' || c == '\x60' then do
    let (cs, rest) ← scanQuoted c [] rest
    if textLimit < cs.length then .error .badLiteral else return (.text (String.ofList cs), rest)
  else if c == '\'' then do
    match ← scanQuoted c [] rest with
    | ([c], rest) => return (.char c, rest)
    | _ => .error .badLiteral
  else scanSymbol c rest

/-- Scans the whole source; `operand` tells whether an operand is expected at the front, and
the fuel bounds the number of characters left. -/
def scanFrom : Nat → Bool → List Char → Except SourceFault (List Token)
  | 0, _, _ => .ok []
  | _, _, [] => .ok []
  | fuel + 1, operand, c :: rest =>
    if Text.isBlank c then scanFrom fuel operand rest
    else
      match c, rest with
      | '/', '/' :: more => scanFrom fuel operand (more.dropWhile (· != '\n'))
      | '/', '*' :: more => scanFrom fuel operand (skipComment 1 more)
      | _, _ => do
        let (token, rest) ← scanToken operand c rest
        let tokens ← scanFrom fuel token.expectsOperand rest
        return token :: tokens

/-- The tokens of a source. -/
def scan (source : String) : Except SourceFault (List Token) :=
  let cs := source.toList
  scanFrom cs.length true cs

end Patchbay.Formula
