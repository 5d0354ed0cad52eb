import Patchbay.Formula.Term
/-!
The grammar of the standard engine.

Binary operators bind by their strength, equal ones to the left except the
power; calls, methods and properties bind tighter than signs, and signs
tighter than every binary operator.  Each parenthesis, call, sign, list,
condition and each operator of a chain uses up one level of nesting, and a
formula that needs more levels than there are is refused.  So the parsers
are a family indexed by the levels left, each member built from the one
below it.
-/

namespace Patchbay.Formula

/-- A parser: a result and the tokens behind it. -/
abbrev Parser (α : Type) := List Token → Except SourceFault (α × List Token)

namespace Operator

/-- How strongly an operator binds. -/
def strength : Operator → Nat
  | or | bitOr | bitXor => 30
  | and | bitAnd => 60
  | eq | ne => 90
  | lt | le | gt | ge => 130
  | orElse => 135
  | add | sub => 150
  | mul | div | rem => 180
  | pow => 190
  | shiftLeft | shiftRight => 210

/-- Whether equal operators group to the right. -/
def groupsRight : Operator → Bool
  | pow => true
  | _ => false

end Operator

/-- The parsers that may be used with a number of levels left. -/
structure Level where
  /-- A signed operand. -/
  operand : Parser Term
  /-- A whole expression. -/
  expression : Parser Term
  /-- The operators of at least the given strength behind a first operand. -/
  chain : Nat → Bool → Term → Parser Term

/-- Nothing may be parsed. -/
def Level.none : Level where
  operand := fun _ => .error .tooDeep
  expression := fun _ => .error .tooDeep
  chain := fun _ _ _ _ => .error .tooDeep

/-! ## Pieces -/

/-- Requires a certain token. -/
def require (wanted : Token → Bool) : List Token → Except SourceFault (List Token)
  | t :: rest => if wanted t then .ok rest else .error .unexpectedToken
  | [] => .error .unexpectedEnd

def isRightParen : Token → Bool
  | .rightParen => true
  | _ => false

def isRightBracket : Token → Bool
  | .rightBracket => true
  | _ => false

def isRightBrace : Token → Bool
  | .rightBrace => true
  | _ => false

def isLeftBrace : Token → Bool
  | .leftBrace => true
  | _ => false

def isComma : Token → Bool
  | .comma => true
  | _ => false

/-- Items between commas up to a closing token; a comma may stand before it.  The fuel
bounds the number of items. -/
def items {α : Type} (closes : Token → Bool) (item : Parser α) (done : List α) :
    Nat → Parser (List α)
  | 0, _ => .error .unexpectedToken
  | _, [] => .error .unexpectedEnd
  | fuel + 1, t :: rest =>
    if closes t then .ok (done.reverse, rest)
    else
      match item (t :: rest) with
      | .error e => .error e
      | .ok (a, rest) =>
        match rest with
        | [] => .error .unexpectedEnd
        | u :: more =>
          if closes u then .ok ((a :: done).reverse, more)
          else if isComma u then items closes item (a :: done) fuel more
          else .error .unexpectedToken

/-- A condition may not be a literal of another type. -/
def asCondition (t : Term) : Except SourceFault Term :=
  if t.isUnfitCondition then .error .notBoolean else .ok t

/-- The arguments of a call, behind its opening parenthesis. -/
def arguments (below : Level) : Parser (List Term) := fun tokens =>
  items isRightParen below.expression [] (tokens.length + 1) tokens

/-- One field of a map. -/
def mapField (below : Level) : Parser Term
  | .name _ :: .colon :: rest | .text _ :: .colon :: rest => below.expression rest
  | [] => .error .unexpectedEnd
  | _ => .error .unexpectedToken

/-- A block: one expression in braces. -/
def block (below : Level) : Parser Term := fun tokens => do
  let rest ← require isLeftBrace tokens
  let (body, rest) ← below.expression rest
  let rest ← require isRightBrace rest
  return (body, rest)

/-- What follows the word `if`: a condition, a block, and perhaps an alternative, which
may be another condition.  The fuel bounds the number of conditions. -/
def conditional (below : Level) : Nat → Parser Term
  | 0, _ => .error .tooDeep
  | fuel + 1, tokens => do
    let (condition, rest) ← below.expression tokens
    let condition ← asCondition condition
    let (yes, rest) ← block below rest
    match rest with
    | .elseWord :: .ifWord :: rest => do
      let (no, rest) ← conditional below fuel rest
      return (.choice condition yes no, rest)
    | .elseWord :: rest => do
      let (no, rest) ← block below rest
      return (.choice condition yes no, rest)
    | rest => return (.choice condition yes (.literal .unit), rest)

/-- An operand without sign and without what may follow it. -/
def root (below : Level) : Parser Term
  | .int n :: rest => .ok (.literal (.int n), rest)
  | .float x :: rest => .ok (.literal (.float x), rest)
  | .bool b :: rest => .ok (.literal (.bool b), rest)
  | .text s :: rest => .ok (.literal (.text s), rest)
  | .char c :: rest => .ok (.literal (.char c), rest)
  | .name f :: .leftParen :: rest => do
    let (args, rest) ← arguments below rest
    return (.call f args, rest)
  | .callable f :: .leftParen :: rest => do
    let (args, rest) ← arguments below rest
    return (.call f args, rest)
  | .callable f :: _ => .error (.reserved f)
  | .name s :: rest => .ok (.variable s, rest)
  | .leftParen :: .rightParen :: rest => .ok (.literal .unit, rest)
  | .leftParen :: rest => do
    let (t, rest) ← below.expression rest
    let rest ← require isRightParen rest
    return (t, rest)
  | .leftBracket :: rest => do
    let (ts, rest) ← items isRightBracket below.expression [] (rest.length + 1) rest
    return (.several .array ts, rest)
  | .mapStart :: rest => do
    let (ts, rest) ← items isRightBrace (mapField below) [] (rest.length + 1) rest
    return (.several .map ts, rest)
  | .ifWord :: rest => conditional below (rest.length + 1) rest
  | [] => .error .unexpectedEnd
  | _ => .error .unexpectedToken

/-- Methods and properties behind an operand.  A method's receiver is the first argument. -/
def postfixes (below : Level) : Nat → Term → Parser Term
  | 0, t, tokens => .ok (t, tokens)
  | fuel + 1, t, .period :: .name f :: .leftParen :: rest => do
    let (args, rest) ← arguments below rest
    postfixes below fuel (.call f (t :: args)) rest
  | fuel + 1, t, .period :: .callable f :: .leftParen :: rest => do
    let (args, rest) ← arguments below rest
    postfixes below fuel (.call f (t :: args)) rest
  | fuel + 1, t, .period :: .name p :: rest => postfixes below fuel (.property t p) rest
  | _, _, .period :: _ => .error .unexpectedToken
  | _, t, rest => .ok (t, rest)

/-- A minus sign before a number is part of it; the one integer without a counterpart
becomes a float. -/
def negated : Term → Term
  | .literal (.int n) =>
    if fitsInt (-n) then .literal (.int (-n)) else .literal (.float (-(Double.ofInt n)))
  | .literal (.float x) => .literal (.float (-x))
  | t => .negate t

/-- A plus sign before a number does nothing. -/
def unsigned : Term → Term
  | .literal (.int n) => .literal (.int n)
  | .literal (.float x) => .literal (.float x)
  | t => .plus t

def signedOperand (below : Level) : Parser Term
  | .op .sub :: rest => (below.operand rest).map fun (t, rest) => (negated t, rest)
  | .op .add :: rest => (below.operand rest).map fun (t, rest) => (unsigned t, rest)
  | .bang :: rest => (below.operand rest).map fun (t, rest) => (.not t, rest)
  | tokens => do
    let (t, rest) ← root below tokens
    postfixes below (rest.length + 1) t rest

/-- Whether the operator at the front belongs to a chain of the given strength: it binds
more strongly, or as strongly and equal ones may join. -/
def joins (strength : Nat) (equalJoins : Bool) (o : Operator) : Bool :=
  strength < o.strength || (o.strength == strength && equalJoins)

/-- The logical operators refuse operands that cannot be conditions. -/
def combine (o : Operator) (l r : Term) : Except SourceFault Term :=
  match o with
  | .and | .or => do
    let l ← asCondition l
    let r ← asCondition r
    return .binary o l r
  | _ => .ok (.binary o l r)

/-- One more operator behind `l`: its right operand takes in stronger operators, and equal
ones that group to the right; then the chain goes on. -/
def chainStep (operand : Parser Term) (below : Level) (strength : Nat) (equalJoins : Bool)
    (l : Term) : Parser Term
  | .op o :: rest =>
    if joins strength equalJoins o then do
      let (r, rest) ← operand rest
      let (r, rest) ←
        match rest with
        | .op next :: _ =>
          if joins o.strength (next.groupsRight) next then
            below.chain o.strength next.groupsRight r rest
          else .ok (r, rest)
        | _ => .ok (r, rest)
      let t ← combine o l r
      below.chain strength equalJoins t rest
    else .ok (l, .op o :: rest)
  | tokens => .ok (l, tokens)

/-- The parsers with one level more than `below` has. -/
def Level.above (below : Level) : Level :=
  let operand := signedOperand below
  { operand
    expression := fun tokens => do
      let (l, rest) ← below.operand tokens
      below.chain 0 true l rest
    chain := chainStep operand below }

/-- The parsers with the given number of levels left; without any, single operands remain. -/
def level : Nat → Level
  | 0 => Level.none.above
  | n + 1 => (level n).above

/-- The number of levels a formula may use. -/
def levelLimit : Nat := 64

/-- The term that a source denotes; nothing may follow it. -/
def parse (source : String) : Except SourceFault Term := do
  let tokens ← scan source
  let (t, rest) ← (level levelLimit).expression tokens
  if rest.isEmpty then return t else .error .unexpectedToken

end Patchbay.Formula
