/-!
The kinds of values and sets of kinds.

There are sixteen kinds, each with a tag of one byte; the list kinds have
the tags from `listOffset` on, at that distance from the kind of their
elements.  A `KindSet` is its members in tag order, so equal sets are equal
lists.
-/

namespace Patchbay

inductive Kind where
  | empty
  | float
  | int
  | uint
  | vector2
  | vector3
  | vector4
  | floatArray
  | mesh
  | render
  | floatList
  | intList
  | uintList
  | vector2List
  | vector3List
  | vector4List
deriving DecidableEq, Inhabited, Repr

namespace Kind

/-- Every kind, by rising tag. -/
def all : List Kind :=
  [empty, float, int, uint, vector2, vector3, vector4, floatArray, mesh, render,
    floatList, intList, uintList, vector2List, vector3List, vector4List]

/-- The first tag of the list kinds. -/
def listOffset : UInt8 := 0x10

def tag : Kind → UInt8
  | empty => 0x00
  | float => 0x01
  | int => 0x02
  | uint => 0x03
  | vector2 => 0x04
  | vector3 => 0x05
  | vector4 => 0x06
  | floatArray => 0x07
  | mesh => 0x08
  | render => 0x09
  | floatList => 0x11
  | intList => 0x12
  | uintList => 0x13
  | vector2List => 0x14
  | vector3List => 0x15
  | vector4List => 0x16

def ofTag? (t : UInt8) : Option Kind := all.find? fun k => k.tag == t

theorem ofTag?_tag (k : Kind) : ofTag? k.tag = some k := by cases k <;> decide

def isList (k : Kind) : Bool := listOffset ≤ k.tag

/-- The kind of a list's elements; every other kind is its own. -/
def element (k : Kind) : Kind :=
  if k.isList then (ofTag? (k.tag - listOffset)).getD empty else k

/-- The kind of lists of this kind, for the kinds that have one. -/
def listOf? : Kind → Option Kind
  | float => some floatList
  | int => some intList
  | uint => some uintList
  | vector2 => some vector2List
  | vector3 => some vector3List
  | vector4 => some vector4List
  | _ => none

/-- The name shown to users. -/
def name : Kind → String
  | empty => "empty"
  | float => "float"
  | int => "int"
  | uint => "uint"
  | vector2 => "Vector2"
  | vector3 => "Vector3"
  | vector4 => "Vector4"
  | floatArray => "float[]"
  | mesh => "mesh data"
  | render => "render data"
  | floatList => "list<float>"
  | intList => "list<int>"
  | uintList => "list<uint>"
  | vector2List => "list<Vector2>"
  | vector3List => "list<Vector3>"
  | vector4List => "list<Vector4>"

/-- The name in scene summaries. -/
def label : Kind → String
  | empty => "Empty"
  | float => "Float"
  | int => "Int"
  | uint => "UInt"
  | vector2 => "Vector2"
  | vector3 => "Vector3"
  | vector4 => "Vector4"
  | floatArray => "FloatArray"
  | mesh => "Mesh"
  | render => "Render"
  | floatList => "FloatList"
  | intList => "IntList"
  | uintList => "UIntList"
  | vector2List => "Vector2List"
  | vector3List => "Vector3List"
  | vector4List => "Vector4List"

end Kind

/-! ## Sets of kinds -/

/-- A set of kinds: its members in tag order, each once. -/
structure KindSet where
  members : List Kind
  ordered : members = Kind.all.filter (members.contains ·)
deriving DecidableEq

namespace KindSet

def contains (s : KindSet) (k : Kind) : Bool := s.members.contains k

/-- The set of the kinds that satisfy a test. -/
def filterAll (p : Kind → Bool) : KindSet where
  members := Kind.all.filter p
  ordered := by
    apply List.filter_congr
    intro k hk
    simp only [List.contains_eq_mem, List.mem_filter, hk, true_and, Bool.decide_eq_true]

def ofList (ks : List Kind) : KindSet := filterAll (ks.contains ·)

def single (k : Kind) : KindSet := ofList [k]

def none : KindSet := ofList []

def union (s t : KindSet) : KindSet := filterAll fun k => s.contains k || t.contains k

def isEmpty (s : KindSet) : Bool := s.members.isEmpty

instance : Inhabited KindSet := ⟨none⟩

/-- Scalars and vectors. -/
def numeric : KindSet :=
  ofList [.float, .int, .uint, .vector2, .vector3, .vector4]

def lists : KindSet :=
  ofList [.floatList, .intList, .uintList, .vector2List, .vector3List, .vector4List]

/-- Every kind but the empty one and the lists. -/
def nonList : KindSet :=
  ofList [.float, .int, .uint, .vector2, .vector3, .vector4, .floatArray, .mesh, .render]

/-- The members' names, or a word for the empty set. -/
def text (s : KindSet) : String :=
  if s.isEmpty then "none" else String.intercalate " | " (s.members.map Kind.name)

end KindSet

end Patchbay
