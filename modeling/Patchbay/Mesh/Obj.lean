import Patchbay.Value.Basic
import Patchbay.Decimal.Reading
import Patchbay.Text.Blank
/-!
Meshes in OBJ text.

A line is told by its first word: `v` adds a position, `vn` a normal and `f`
a face; every other line is skipped.  The corners of a face name entries of
the tables as they stand at that line, from one on, or backwards from the
last with a negative index, and a corner is resolved to its position and
normal when it is read.  A face of more than three corners is a fan around
its first one.  The first fault, in the order of the text, is reported with
the number of its line.
-/

namespace Patchbay.Obj

/-! ## Faults -/

/-- What is wrong with a line. -/
inductive LineFault where
  | missingComponent
  | badComponent (cause : Decimal.FloatError)
  | badIndex (token : String) (cause : Decimal.IntError)
  | outOfRange (index : Int)
  | tooFewCorners
deriving DecidableEq, Repr

def LineFault.message : LineFault → String
  | .missingComponent => "expected three components"
  | .badComponent cause => cause.message
  | .badIndex token cause => s!"bad index '{token}': " ++ cause.message
  | .outOfRange index => s!"index {index} out of range"
  | .tooFewCorners => "face needs at least three corners"

structure Fault where
  line : Nat
  cause : LineFault
deriving DecidableEq, Repr

def Fault.message (f : Fault) : String := s!"line {f.line}: " ++ f.cause.message

/-! ## Components and indices -/

/-- The float at the front of a row of words, and the words behind it. -/
def readComponent : List String → Except LineFault (Single × List String)
  | [] => .error .missingComponent
  | word :: rest =>
    match Decimal.readSingle word with
    | .ok x => .ok (x, rest)
    | .error cause => .error (.badComponent cause)

/-- Three floats; words behind them do not count. -/
def readVec3 (words : List String) : Except LineFault Vec3 := do
  let (x, words) ← readComponent words
  let (y, words) ← readComponent words
  let (z, _) ← readComponent words
  return ⟨x, y, z⟩

/-- The place that an index denotes in a table of `count` entries. -/
def place? (count : Nat) (index : Int) : Option (Fin count) :=
  let place := if 0 < index then index - 1 else count + index
  if h : index ≠ 0 ∧ 0 ≤ place ∧ place < count then some ⟨place.toNat, by omega⟩ else none

/-- The entry that an index denotes. -/
def resolve {α : Type} (table : Array α) (token : String) : Except LineFault α :=
  match Decimal.readInt64 token with
  | .error cause => .error (.badIndex token cause)
  | .ok index =>
    match place? table.size index with
    | some i => .ok table[i]
    | none => .error (.outOfRange index)

/-! ## Faces -/

/-- A corner of a face; without a normal of its own it takes that of its triangle. -/
structure Corner where
  position : Vec3
  normal : Option Vec3
deriving DecidableEq

/-- The positions and normals of the lines read so far. -/
structure Tables where
  positions : Array Vec3
  normals : Array Vec3

def Tables.empty : Tables := ⟨#[], #[]⟩

/-- The normal's index: the third field of a corner, unless it is empty. -/
def normalToken? (fields : List String) : Option String :=
  match fields with
  | _ :: _ :: token :: _ => if token.isEmpty then none else some token
  | _ => none

/-- A corner: fields between slashes, the position in the first and the normal in the third. -/
def readCorner (t : Tables) (token : String) : Except LineFault Corner := do
  let fields := Text.splitAt '/' token
  let position ← resolve t.positions (fields.headD "")
  match normalToken? fields with
  | none => return ⟨position, none⟩
  | some token => return ⟨position, some (← resolve t.normals token)⟩

abbrev Triangle := Corner × Corner × Corner

/-- The fan of triangles around the first corner. -/
def fan : List Corner → List Triangle
  | [] => []
  | hub :: rim => (rim.zip rim.tail).map fun (b, c) => (hub, b, c)

/-- The unit normal of a triangle; without an area it has length zero. -/
def flatNormal (a b c : Vec3) : Vec3 :=
  let u := b - a
  let v := c - a
  Vec3.normalized ⟨u.y * v.z - u.z * v.y, u.z * v.x - u.x * v.z, u.x * v.y - u.y * v.x⟩

/-- The vertices of a triangle, six floats each. -/
def Triangle.floats : Triangle → List Single
  | (a, b, c) =>
    let flat := flatNormal a.position b.position c.position
    [a, b, c].flatMap fun k => k.position.components ++ (k.normal.getD flat).components

def readFace (t : Tables) (words : List String) : Except LineFault (List Single) := do
  let corners ← words.mapM (readCorner t)
  if corners.length < 3 then .error .tooFewCorners
  else .ok ((fan corners).flatMap Triangle.floats)

/-! ## Texts -/

/-- One line: the tables after it, and the floats of the vertices it adds. -/
def readLine (t : Tables) (line : String) : Except LineFault (Tables × List Single) :=
  match Text.words line with
  | "v" :: rest => do return ({ t with positions := t.positions.push (← readVec3 rest) }, [])
  | "vn" :: rest => do return ({ t with normals := t.normals.push (← readVec3 rest) }, [])
  | "f" :: rest => do return (t, ← readFace t rest)
  | _ => .ok (t, [])

/-- The floats of all vertices of the lines from number `n` on. -/
def readLines (t : Tables) (n : Nat) : List String → Except Fault (List Single)
  | [] => .ok []
  | line :: rest =>
    match readLine t line with
    | .error cause => .error ⟨n, cause⟩
    | .ok (t, floats) =>
      match readLines t (n + 1) rest with
      | .error fault => .error fault
      | .ok more => .ok (floats ++ more)

/-- The mesh that a text describes. -/
def parse (text : String) : Except Fault MeshData :=
  (readLines Tables.empty 1 (Text.lines text)).map MeshData.mk

end Patchbay.Obj
