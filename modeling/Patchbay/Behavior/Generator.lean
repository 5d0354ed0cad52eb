import Patchbay.Frame.Plan
import Patchbay.Node.Error
import Patchbay.Scene.Reading
import Patchbay.Number.Double
import Patchbay.Text.Blank
/-!
Lists made by formulas.

A list has up to three sizes, and each component of its elements a formula
over the place `i`, `j`, `k` of the element and over variables that the user
names.  Places are listed with `i` running fastest.  The list is made anew
when a size, a variable, the kind of its elements, its inputs or its
formulas have changed.
-/

namespace Patchbay

open Bytes

/-! ## Elements -/

/-- The kind of the elements. -/
inductive ElementKind where
  | float
  | int
  | uint
  | vector2
  | vector3
  | vector4
deriving DecidableEq, Inhabited, Repr

namespace ElementKind

def all : List ElementKind := [float, int, uint, vector2, vector3, vector4]

def tag : ElementKind → UInt8
  | float => 0
  | int => 1
  | uint => 2
  | vector2 => 3
  | vector3 => 4
  | vector4 => 5

def ofTag? (t : UInt8) : Option ElementKind := all[t.toNat]?

theorem ofTag?_tag (k : ElementKind) : ofTag? k.tag = some k := by cases k <;> decide

/-- The kind of a single element. -/
def kind : ElementKind → Kind
  | float => .float
  | int => .int
  | uint => .uint
  | vector2 => .vector2
  | vector3 => .vector3
  | vector4 => .vector4

/-- The kind of the list. -/
def listKind : ElementKind → Kind
  | float => .floatList
  | int => .intList
  | uint => .uintList
  | vector2 => .vector2List
  | vector3 => .vector3List
  | vector4 => .vector4List

/-- The number of components that are used. -/
def components : ElementKind → Nat
  | float | int | uint => 1
  | vector2 => 2
  | vector3 => 3
  | vector4 => 4

end ElementKind

/-- One thing for each component that an element may have. -/
structure Components (α : Type) where
  x : α
  y : α
  z : α
  w : α
deriving DecidableEq, Inhabited

namespace Components

variable {α β : Type}

def toList (c : Components α) : List α := [c.x, c.y, c.z, c.w]

def map (f : α → β) (c : Components α) : Components β := ⟨f c.x, f c.y, f c.z, f c.w⟩

/-- Replaces the one with the given number; there are four. -/
def set? (c : Components α) (i : Nat) (a : α) : Option (Components α) :=
  match i with
  | 0 => some { c with x := a }
  | 1 => some { c with y := a }
  | 2 => some { c with z := a }
  | 3 => some { c with w := a }
  | _ => none

end Components

/-- The list of the given elements; components beyond those of the kind do not count. -/
def ElementKind.collect (k : ElementKind) (es : List (Components Float)) : Value :=
  match k with
  | float => .floatList (es.map fun e => Double.toSingle e.x)
  | int => .intList (es.map fun e => Double.toInt32 e.x)
  | uint => .uintList (es.map fun e => Double.toUInt32 e.x)
  | vector2 => .vector2List (es.map fun e => ⟨Double.toSingle e.x, Double.toSingle e.y⟩)
  | vector3 =>
    .vector3List (es.map fun e => ⟨Double.toSingle e.x, Double.toSingle e.y, Double.toSingle e.z⟩)
  | vector4 =>
    .vector4List (es.map fun e =>
      ⟨Double.toSingle e.x, Double.toSingle e.y, Double.toSingle e.z, Double.toSingle e.w⟩)

/-! ## Places -/

/-- The extents of a list. -/
structure Extents where
  x : UInt32
  y : UInt32
  z : UInt32
deriving DecidableEq, Inhabited

namespace Extents

/-- The length of the list. -/
def count (s : Extents) : Nat := s.x.toNat * s.y.toNat * s.z.toNat

/-- The length as a word, which is what is held against the limit.  It is the length when that
has 64 bits. -/
def total (s : Extents) : UInt64 := s.x.toUInt64 * s.y.toUInt64 * s.z.toUInt64

/-- Every place, the first coordinate running fastest.  An extent of zero leaves none, however
large the others are. -/
def places (s : Extents) : List (Nat × Nat × Nat) :=
  if s.count = 0 then []
  else
    (List.range s.z.toNat).flatMap fun k =>
      (List.range s.y.toNat).flatMap fun j => (List.range s.x.toNat).map fun i => (i, j, k)

end Extents

variable [Formula.Engine]

/-- The formulas of the components; a component without one is zero. -/
abbrev FormulaSlots := Components (Option Formula)

/-- The components of the element under the given bindings, the first `used` of them. -/
def elementAt (slots : FormulaSlots) (used : Nat) (bindings : List (String × Float)) :
    Except FormulaError (Components Float) := do
  let component (i : Nat) (f : Option Formula) : Except FormulaError Float :=
    match f with
    | some f => if i < used then f.eval bindings else .ok 0.0
    | none => .ok 0.0
  return ⟨← component 0 slots.x, ← component 1 slots.y, ← component 2 slots.z,
    ← component 3 slots.w⟩

/-- The bindings at a place. -/
def placeBindings (extra : List (String × Float)) : Nat × Nat × Nat → List (String × Float)
  | (i, j, k) =>
    ("i", Double.ofNat i) :: ("j", Double.ofNat j) :: ("k", Double.ofNat k) :: extra

/-- The list of the given extents; more elements than the limit are refused. -/
def generateList (kind : ElementKind) (slots : FormulaSlots) (size : Extents)
    (extra : List (String × Float)) : Except NodeError Value :=
  if elementLimit < size.total.toNat then .error (.tooManyElements size.total)
  else
    match size.places.mapM fun p => elementAt slots kind.components (placeBindings extra p) with
    | .ok es => .ok (kind.collect es)
    | .error cause => .error (.formula cause)

/-! ## The node -/

/-- A node that makes a list.  `portsStale` and `formulasStale` tell that an edit waits. -/
structure Generator where
  element : ElementKind
  dimension : Rank
  extraNames : String
  sources : Components String
  compiled : FormulaSlots
  portsStale : Bool
  formulasStale : Bool
  variableNames : List String
  /-- What the list was last made for. -/
  lastShape : Option (ElementKind × Extents)
  lastValues : List Single
  error : Option NodeError

namespace Generator

def initial : Generator where
  element := .float
  dimension := .one
  extraNames := ""
  sources := ⟨"i", "0", "0", "0"⟩
  compiled := ⟨none, none, none, none⟩
  portsStale := true
  formulasStale := true
  variableNames := []
  lastShape := none
  lastValues := []
  error := none

instance : Inhabited Generator := ⟨initial⟩

def setElement (g : Generator) (k : ElementKind) : Generator := { g with element := k }

def setDimension (g : Generator) (r : Rank) : Generator :=
  { g with dimension := r, portsStale := true }

def setVariables (g : Generator) (names : String) : Generator :=
  { g with extraNames := names, portsStale := true }

/-- Sets the formula of a component; there are four. -/
def setExpression (g : Generator) (component : Nat) (source : String) : Generator :=
  match g.sources.set? component source with
  | some sources => { g with sources, formulasStale := true }
  | none => g

/-! ## Inputs -/

def sizeInputs : List String := ["sizex", "sizey", "sizez"]

/-- The names that no variable can have. -/
def reservedNames : List String := "" :: "i" :: "j" :: "k" :: sizeInputs

/-- Names, each once and none of them reserved. -/
def admissible (seen : List String) : List String → List String
  | [] => []
  | name :: rest =>
    if reservedNames.contains name || seen.contains name then admissible seen rest
    else name :: admissible (name :: seen) rest

/-- The variables that a text declares, between semicolons. -/
def declaredNames (text : String) : List String :=
  admissible [] ((Text.splitAt ';' text).map Text.trim)

def sizeNames (g : Generator) : List String := sizeInputs.take g.dimension.count

def inputNames (g : Generator) : List String := g.sizeNames ++ g.variableNames

/-! ## The turn -/

/-- Takes over new inputs. -/
def resized (g : Generator) : Generator :=
  if g.portsStale then
    { g with portsStale := false, variableNames := declaredNames g.extraNames }
  else g

/-- The formula for a source; a blank source stands for none. -/
def compileSlot (source : String) : Except FormulaError (Option Formula) :=
  if Text.isBlankText source then .ok none else (Formula.compile source).map some

/-- Compiles the sources one after the other.  At the first that does not compile the slots
behind it keep the formulas they had. -/
def compileSlots (sources : Components String) : EStateM FormulaError FormulaSlots Unit := do
  let slot (source : String) (put : FormulaSlots → Option Formula → FormulaSlots) :
      EStateM FormulaError FormulaSlots Unit := fun s =>
    match compileSlot source with
    | .ok f => .ok () (put s f)
    | .error e => .error e s
  slot sources.x fun s f => { s with x := f }
  slot sources.y fun s f => { s with y := f }
  slot sources.z fun s f => { s with z := f }
  slot sources.w fun s f => { s with w := f }

/-- Takes over new formulas, and tells whether the turn can go on. -/
def recompiled (g : Generator) : Generator × Bool :=
  if g.formulasStale then
    match compileSlots g.sources g.compiled with
    | .ok _ compiled => ({ g with compiled, formulasStale := false, error := none }, true)
    | .error cause compiled =>
      ({ g with compiled, formulasStale := false, error := some (.formula cause) }, false)
  else (g, true)

/-- The sizes that the inputs supply. -/
def sizes (g : Generator) (r : Readings) : List (Option UInt32) := g.sizeNames.map r.uint?

/-- The extents for the sizes supplied; a missing one is one. -/
def extentsOf (sizes : List (Option UInt32)) : Extents :=
  let extent (i : Nat) : UInt32 := (sizes[i]?.bind id).getD 1
  ⟨extent 0, extent 1, extent 2⟩

/-- The values of the variables; a missing one is zero. -/
def values (g : Generator) (r : Readings) : List Single :=
  g.variableNames.map fun name => (r.float? name).getD .zero

/-- Whether the list made last is for the same shape and variables. -/
def isCurrent (g : Generator) (size : Extents) (values : List Single) : Bool :=
  g.lastShape == some (g.element, size) && sameAll Single.same g.lastValues values

def finish (g : Generator) (forced : Bool) (r : Readings) : Generator × List Post :=
  let sizes := g.sizes r
  let values := g.values r
  if sizes.all Option.isNone then ({ g with error := some (.missingInput "sizex") }, [])
  else
    let size := extentsOf sizes
    if !forced && g.isCurrent size values then (g, [])
    else
      match generateList g.element g.compiled size
          (g.variableNames.zip (values.map Double.ofSingle)) with
      | .ok list =>
        ({ g with error := none, lastShape := some (g.element, size), lastValues := values },
          [.publish 0 list])
      | .error e => ({ g with error := some e }, [])

def gates (g : Generator) : List Gate :=
  g.sizeNames.map (fun name => ⟨name, .single .uint⟩) ++
    g.variableNames.map fun name => ⟨name, .single .float⟩

/-- A turn in which a formula does not compile ends without a look at the inputs. -/
def plan (g : Generator) : Plan Generator :=
  let resized := g.resized
  let inputs := if g.portsStale then some resized.inputNames else none
  match resized.recompiled with
  | (next, true) => ⟨inputs, next.gates, next.finish (g.portsStale || g.formulasStale)⟩
  | (next, false) => ⟨inputs, [], fun _ => (next, [])⟩

/-! ## View and fields -/

def rows (g : Generator) (d : Directory) : List Row :=
  [⟨"kind", g.element.listKind.name⟩, ⟨"dimension", toString g.dimension.count⟩] ++
    (if g.extraNames.isEmpty then [] else [⟨"variables", g.extraNames⟩]) ++
    (((["x", "y", "z", "w"].zip g.sources.toList).take g.element.components).map
      fun (label, source) => ⟨label, source⟩) ++
    (d.firstValue?.map fun v => ⟨"list", v.text⟩).toList

def put (g : Generator) : List UInt8 :=
  Wire.u8.put g.element.tag ++ Wire.u8.put g.dimension.tag ++ Wire.text.put g.extraNames ++
    g.sources.toList.flatMap Wire.text.put

def get : BlockReader Generator := do
  let element ← BlockReader.choice "list element" ElementKind.ofTag?
  let dimension ← BlockReader.choice "list dimension" Rank.ofTag?
  let extraNames ← BlockReader.field Wire.text
  let x ← BlockReader.field Wire.text
  let y ← BlockReader.field Wire.text
  let z ← BlockReader.field Wire.text
  let w ← BlockReader.field Wire.text
  return { initial with element, dimension, extraNames, sources := ⟨x, y, z, w⟩ }

end Generator

end Patchbay
