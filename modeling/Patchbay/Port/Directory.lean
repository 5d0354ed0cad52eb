import Patchbay.Value.Basic
import Patchbay.Edge.Table
/-!
The ports of a node.

An input has no value of its own; it knows the address it reads from and
the kinds its node last declared acceptable.  An output owns a cell.  When
the inputs of a node are replaced, a port survives only where the same name
stands at the same index; every other attached port loses its source, which
is reported under the old name.
-/

namespace Patchbay

structure InputPort where
  name : String
  accepted : KindSet
  source : Option Address
deriving DecidableEq, Inhabited

namespace InputPort

/-- An input that accepts nothing yet and reads from nowhere. -/
def fresh (name : String) : InputPort := ⟨name, KindSet.none, none⟩

def isConnected (p : InputPort) : Bool := p.source.isSome

def detach (p : InputPort) : InputPort := { p with source := none }

def attach (p : InputPort) (a : Address) : InputPort := { p with source := some a }

end InputPort

structure OutputPort where
  name : String
  cell : Cell
deriving DecidableEq, Inhabited

def OutputPort.fresh (name : String) : OutputPort := ⟨name, Cell.blank⟩

/-- The inputs and outputs of a node, and the widths of their labels. -/
structure Directory where
  inputs : List InputPort
  outputs : List OutputPort
  inputPadding : Single
  outputPadding : Single
deriving DecidableEq, Inhabited

/-- A source that an input lost, under the name the input had. -/
structure Dropped where
  name : String
  address : Address
deriving DecidableEq, Repr

namespace Directory

/-! ## Label widths -/

/-- The width of one character of a label. -/
def glyphWidth : Single := Single.ofNat 7

/-- The space around the widest label. -/
def labelMargin : Single := Single.ofNat 20

def labelWidth (name : String) : Single := Single.ofNat name.length * glyphWidth + labelMargin

/-- The width of the widest label; without labels it is zero. -/
def padding (names : List String) : Single :=
  names.foldl (fun width name => width.larger (labelWidth name)) Single.zero

def inputNames (d : Directory) : List String := d.inputs.map InputPort.name

def outputNames (d : Directory) : List String := d.outputs.map OutputPort.name

/-- Both paddings measured anew. -/
def measured (d : Directory) : Directory :=
  { d with inputPadding := padding d.inputNames, outputPadding := padding d.outputNames }

/-- Fresh ports with the given names. -/
def new (inputs outputs : List String) : Directory :=
  measured ⟨inputs.map InputPort.fresh, outputs.map OutputPort.fresh, Single.zero, Single.zero⟩

/-! ## Looking up -/

def inputIndex? (d : Directory) (name : String) : Option Nat :=
  d.inputs.findIdx? (·.name == name)

def outputIndex? (d : Directory) (name : String) : Option Nat :=
  d.outputs.findIdx? (·.name == name)

def inputNamed? (d : Directory) (name : String) : Option InputPort :=
  d.inputs.find? (·.name == name)

def outputNamed? (d : Directory) (name : String) : Option OutputPort :=
  d.outputs.find? (·.name == name)

/-- The cell of an output. -/
def cell? (d : Directory) (i : Nat) : Option Cell := d.outputs[i]?.map OutputPort.cell

/-- The value of the first output; a node without outputs has none. -/
def firstValue? (d : Directory) : Option Value := (d.cell? 0).map Cell.value

/-! ## Changing -/

def modifyInput (d : Directory) (i : Nat) (f : InputPort → InputPort) : Directory :=
  { d with inputs := d.inputs.modify i f }

def modifyCell (d : Directory) (i : Nat) (f : Cell → Cell) : Directory :=
  { d with outputs := d.outputs.modify i fun o => { o with cell := f o.cell } }

/-- Clears the change flag of every output. -/
def clearDirty (d : Directory) : Directory :=
  { d with outputs := d.outputs.map fun o => { o with cell := o.cell.clearDirty } }

/-! ## Replacing the inputs -/

/-- The source that a port gives up. -/
def droppedBy (p : InputPort) : List Dropped :=
  match p.source with
  | some a => [⟨p.name, a⟩]
  | none => []

/-- The ports with new names: one is kept where its name stays. -/
def renamed : List InputPort → List String → List InputPort
  | _, [] => []
  | [], name :: names => InputPort.fresh name :: renamed [] names
  | p :: ps, name :: names =>
    (if p.name = name then p else InputPort.fresh name) :: renamed ps names

/-- The sources lost under new names, by index. -/
def lost : List InputPort → List String → List Dropped
  | [], _ => []
  | p :: ps, [] => droppedBy p ++ lost ps []
  | p :: ps, name :: names => (if p.name = name then [] else droppedBy p) ++ lost ps names

/-- Replaces the inputs, and tells which sources were lost. -/
def setInputs (d : Directory) (names : List String) : Directory × List Dropped :=
  (measured { d with inputs := renamed d.inputs names }, lost d.inputs names)

end Directory

end Patchbay
