import Patchbay.Node.Type
/-!
What the nodes of a graph share: the frame clock, identities and names.

Time is counted in nanoseconds.  Identities come from a counter that leaves
one number per port free behind each identity, and stop when the counter
cannot be raised any more.  Default names are numbered per node type.  The
counters of names and of frames are words and start over behind their last
number.
-/

namespace Patchbay

/-! ## The clock -/

structure Clock where
  elapsed : Nat
  delta : Nat
  frames : UInt64
deriving DecidableEq, Inhabited, Repr

namespace Clock

def zero : Clock := ⟨0, 0, 0⟩

/-- The number of the frame, as far as it is counted. -/
def frame (c : Clock) : Nat := c.frames.toNat

/-- Advances by a fixed step. -/
def step (c : Clock) (dt : Nat) : Clock := ⟨c.elapsed + dt, dt, c.frames + 1⟩

/-- Advances to a reading of the wall clock; time never runs backwards. -/
def tick (c : Clock) (now : Nat) : Clock := ⟨max c.elapsed now, now - c.elapsed, c.frames + 1⟩

end Clock

/-! ## Identities and names -/

structure Context where
  nextId : UInt32
  /-- How many names of each type have been given out, for the types that have one. -/
  named : List (NodeType × UInt32)
  clock : Clock
  assetsRoot : Option String
deriving DecidableEq, Inhabited

namespace Context

def new : Context := ⟨0, [], Clock.zero, none⟩

/-- The identities one beyond the last. -/
def idLimit : Nat := 4294967296

/-- Gives out an identity for a node with so many ports; without one to give the counter
stays where it is. -/
def allocate (c : Context) (ports : Nat) : Option NodeId × Context :=
  let next := c.nextId.toNat + ports + 1
  if next < idLimit then (some ⟨c.nextId⟩, { c with nextId := UInt32.ofNat next })
  else (none, c)

/-- How many names of a type have been given out. -/
def nameCount (named : List (NodeType × UInt32)) (t : NodeType) : UInt32 :=
  ((named.find? (·.1 == t)).map (·.2)).getD 0

/-- Counts one more name of a type. -/
def countName (t : NodeType) : List (NodeType × UInt32) → List (NodeType × UInt32)
  | [] => [(t, 1)]
  | (u, n) :: rest => if u = t then (u, n + 1) :: rest else (u, n) :: countName t rest

/-- A default name, numbered within its type. -/
def defaultName (c : Context) (t : NodeType) : String × Context :=
  (s!"{t.displayName} Node #{nameCount c.named t}", { c with named := countName t c.named })

/-- Forgets identities, names and time, but not the assets root. -/
def reset (c : Context) : Context := { new with assetsRoot := c.assetsRoot }

end Context

end Patchbay
