import Patchbay.Port.Directory
import Patchbay.Mesh.Load
/-!
Plans of a node for its turn in a frame.

A node decides from its own state what its turn does: which inputs it has
from now on, which kinds each input takes, and what it computes from the
values that are left on its inputs.  The result is a new state and the
values it puts on its outputs.  Everything a node learns of the rest of the
graph comes through its readings, and everything it tells the rest through
its posts.
-/

namespace Patchbay

/-- What the outside tells the nodes in a frame: the time, where assets lie, why a load cannot
be started, and how the loads stand that nodes have started. -/
structure Moment where
  elapsed : Nat
  assetsRoot : Option String
  refusal? : NodeId → Load → Option LoadError
  poll : NodeId → Load → LoadPoll (Except LoadError MeshData)

/-- What a node finds on its inputs: by the name of an input the cell it reads, and whether
the input has just lost its source because of the kind that came. -/
structure Readings where
  cell : String → Option Cell
  refused : String → Bool

namespace Readings

def value? (r : Readings) (input : String) : Option Value := (r.cell input).map Cell.value

def float? (r : Readings) (input : String) : Option Single := (r.value? input).bind Value.float?

def uint? (r : Readings) (input : String) : Option UInt32 := (r.value? input).bind Value.uint?

def vector3? (r : Readings) (input : String) : Option Vec3 :=
  (r.value? input).bind Value.vector3?

/-- Whether an input reads a value that was written since its producer's last turn began. -/
def changed (r : Readings) (input : String) : Bool := (r.cell input).any Cell.dirty

end Readings

/-- Something put on an output: published, which leaves the cell alone when it holds the
same payload, or written in any case. -/
inductive Post where
  | publish (output : Nat) (value : Value)
  | write (output : Nat) (value : Value)
deriving DecidableEq

def Directory.post (d : Directory) : Post → Directory
  | .publish i v => d.modifyCell i (·.publish v)
  | .write i v => d.modifyCell i (·.set v)

/-- An input and the kinds it takes. -/
structure Gate where
  input : String
  kinds : KindSet
deriving DecidableEq

/-- What a node does in its turn. -/
structure Plan (σ : Type) where
  /-- The names of the inputs from now on; without any the inputs stay as they are. -/
  inputs : Option (List String)
  gates : List Gate
  finish : Readings → σ × List Post

namespace Plan

variable {σ τ : Type}

/-- A turn that takes no notice of inputs. -/
def simply (s : σ) (posts : List Post) : Plan σ := ⟨none, [], fun _ => (s, posts)⟩

/-- The same turn of a node whose state is part of another one. -/
def map (f : σ → τ) (p : Plan σ) : Plan τ :=
  ⟨p.inputs, p.gates, fun r => let (s, posts) := p.finish r; (f s, posts)⟩

end Plan

/-! ## What else the nodes have in common -/

/-- A labelled line of a node's view. -/
structure Row where
  label : String
  value : String
deriving DecidableEq, Repr

/-- What a node learns of a producer when it is connected. -/
structure ProducerInfo where
  name : String
  output : String
deriving DecidableEq, Repr

/-- One, two or three: how many size inputs a list has, or variables a function. -/
inductive Rank where
  | one
  | two
  | three
deriving DecidableEq, Inhabited, Repr

namespace Rank

def count : Rank → Nat
  | one => 1
  | two => 2
  | three => 3

def tag (r : Rank) : UInt8 := UInt8.ofNat r.count

def ofTag? (t : UInt8) : Option Rank :=
  if t = 1 then some one else if t = 2 then some two else if t = 3 then some three else none

theorem ofTag?_tag (r : Rank) : ofTag? r.tag = some r := by cases r <;> decide

/-- The rank nearest to a number. -/
def clamp (n : UInt8) : Rank := if n ≤ 1 then one else if n = 2 then two else three

end Rank

end Patchbay
