import Patchbay.Formula.Engine
import Patchbay.Formula.Grammar
import Patchbay.Formula.Functions
/-!
The standard engine: simplification and evaluation.

What it reads is arithmetic: operators, signs, conditions, and calls of the
functions on numbers, with texts, characters and the unit beside them.  Of the
rest of the language, statements and what is done with arrays and maps, it
reads nothing, and it counts the nesting of a formula but not its steps.  A
term is simplified once it has been read: operators between literals are
carried out unless that is a fault, and a logical operator with a literal side
is replaced by what it comes to.
-/

namespace Patchbay.Formula

/-! ## Simplification -/

/-- An operator whose operands have been simplified.  A logical operator with a literal on
one side gives way to the other side or to the literal. -/
def foldBinary (o : Operator) (l r : Term) : Term :=
  match o, l, r with
  | .and, .literal (.bool true), r => r
  | .and, .literal (.bool false), _ => .literal (.bool false)
  | .and, l, .literal (.bool true) => l
  | .or, .literal (.bool false), r => r
  | .or, .literal (.bool true), _ => .literal (.bool true)
  | .or, l, .literal (.bool false) => l
  | o, .literal a, .literal b =>
    match Datum.apply o a b with
    | .ok d => .literal d
    | .error _ => .binary o (.literal a) (.literal b)
  | o, l, r => .binary o l r

/-- Simplifies a term from the leaves up. -/
def simplify : Term → Term
  | .literal d => .literal d
  | .variable s => .variable s
  | .negate t => .negate (simplify t)
  | .plus t => .plus (simplify t)
  | .not t => .not (simplify t)
  | .binary o l r => foldBinary o (simplify l) (simplify r)
  | .call f ts => .call f (simplifyAll ts)
  | .property t p => .property (simplify t) p
  | .choice c t e => .choice (simplify c) (simplify t) (simplify e)
  | .several k ts => .several k (simplifyAll ts)
where
  simplifyAll : List Term → List Term
    | [] => []
    | t :: ts => simplify t :: simplifyAll ts

/-! ## Evaluation -/

def Bindings.find? (b : Bindings) (name : String) : Option Float :=
  (b.reverse.find? (·.1 == name)).map (·.2)

/-- The value of a term. -/
def evaluate (b : Bindings) : Term → Result
  | .literal d => .ok d
  | .variable s =>
    match b.find? s with
    | some x => .ok (.float x)
    | none => .error (.unknownVariable s)
  | .negate t => evaluate b t >>= Datum.negate
  | .plus t => evaluate b t >>= Datum.plus
  | .not t => evaluate b t >>= Datum.not
  | .binary .and l r => do
    let x ← (evaluate b l) >>= Datum.asBool
    if x then (evaluate b r >>= Datum.asBool).map .bool else return .bool false
  | .binary .or l r => do
    let x ← (evaluate b l) >>= Datum.asBool
    if x then return .bool true else (evaluate b r >>= Datum.asBool).map .bool
  | .binary .orElse l r => do
    match ← evaluate b l with
    | .unit => evaluate b r
    | d => return d
  | .binary o l r => do
    let x ← evaluate b l
    let y ← evaluate b r
    Datum.apply o x y
  | .call f ts => do Functions.call f (← evaluateAll ts)
  | .property t p => do Functions.property p (← evaluate b t)
  | .choice c t e => do
    let x ← (evaluate b c) >>= Datum.asBool
    if x then evaluate b t else evaluate b e
  | .several k ts => do
    let _ ← evaluateAll ts
    return .collection k
where
  evaluateAll : List Term → Except EvalFault (List Datum)
    | [] => .ok []
    | t :: ts => do
      let d ← evaluate b t
      let ds ← evaluateAll ts
      return d :: ds

/-! ## The engine -/

def SourceFault.text : SourceFault → String
  | .strayChar c => s!"unexpected character {c}"
  | .reserved word => s!"{word} is reserved"
  | .badNumber text => s!"malformed number {text}"
  | .badLiteral => "malformed literal"
  | .unexpectedToken => "unexpected token"
  | .unexpectedEnd => "unexpected end"
  | .tooDeep => "too deeply nested"
  | .notBoolean => "a condition must be a truth value"

def EvalFault.text : EvalFault → String
  | .unknownVariable name => s!"no variable {name}"
  | .unknownFunction name => s!"no function {name} for these arguments"
  | .unknownProperty name => s!"no property {name}"
  | .overflow => "integer overflow"
  | .divisionByZero => "division by zero"
  | .badPower => "exponent out of range"
  | .notBoolean => "a condition must be a truth value"
  | .undefinedSign => "the sign of NaN is undefined"
  | .tooLong => "text too long"

/-- What a datum is to a node. -/
def Datum.outcome : Datum → Outcome
  | .int n => .int (Int64.ofInt n)
  | .float x => .float x
  | .bool b => .bool b
  | d => .other d.typeName

instance standard : Engine where
  Tree := Term
  parse source := ((parse source).map simplify).mapError SourceFault.text
  evaluate b t := ((evaluate b t).map Datum.outcome).mapError EvalFault.text

end Patchbay.Formula
