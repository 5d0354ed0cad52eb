import Patchbay.Value.Payload
import Patchbay.Bytes.Buffer
import Patchbay.Node.Type
/-!
Reading saved scenes: errors and fields.

A field is read in wire format from a buffer.  A reader of a block fails
with the cause, and the buffer afterwards stands where reading stopped.
Fields with few legal values are read as a byte that has to be one of them.
-/

namespace Patchbay

open Bytes

/-! ## Errors -/

/-- Why bytes that can be read make no scene. -/
inductive ShapeFault where
  | unknown (what : String) (byte : UInt8)
  | functionArity (byte : UInt8)
  | inconsistentFlags (output : Nat) (node : NodeId) (kind : Kind)
  | unreadBytes (count : Nat) (node : NodeId)
  | duplicateNode (node : NodeId)
deriving DecidableEq, Repr

def ShapeFault.message : ShapeFault → String
  | .unknown what byte => s!"unknown {what} {byte.toNat}"
  | .functionArity byte => s!"function arity {byte.toNat}"
  | .inconsistentFlags output node kind =>
    s!"output {output} of {node.text} has flags inconsistent with kind {kind.name}"
  | .unreadBytes count node => s!"{count} unread bytes in the block of node {node.text}"
  | .duplicateNode node => "duplicate node id " ++ node.text

/-- Why a scene or a block of it cannot be read. -/
inductive SceneError where
  | buffer (cause : BufferError)
  | unknownNodeType (tag : UInt8)
  | value (cause : ValueError)
  | shape (fault : ShapeFault)
deriving DecidableEq, Repr

def SceneError.message : SceneError → String
  | .buffer cause => cause.message
  | .unknownNodeType tag => s!"Unknown node type tag: {tag.toNat}"
  | .value cause => "Invalid value payload: " ++ cause.message
  | .shape fault => "Malformed scene: " ++ fault.message

/-! ## Fields -/

/-- A reader of parts of a block. -/
abbrev BlockReader := EStateM SceneError Buffer

namespace BlockReader

/-- A reader of a buffer as a reader of a block. -/
def lift {α : Type} (r : Buffer.Reader α) : BlockReader α := fun b =>
  match r b with
  | .ok a b => .ok a b
  | .error e b => .error (.buffer e) b

/-- A field in wire format. -/
def field {α : Type} (w : Wire α) : BlockReader α := lift (Buffer.get w)

/-- Gives the value, or fails. -/
def ofExcept {α : Type} (x : Except SceneError α) : BlockReader α := fun b =>
  match x with
  | .ok a => .ok a b
  | .error e => .error e b

/-- What a byte stands for. -/
def named {α : Type} (what : String) (ofTag? : UInt8 → Option α) (byte : UInt8) :
    Except SceneError α :=
  match ofTag? byte with
  | some a => .ok a
  | none => .error (.shape (.unknown what byte))

/-- A byte that stands for one of few things. -/
def choice {α : Type} (what : String) (ofTag? : UInt8 → Option α) : BlockReader α := do
  ofExcept (named what ofTag? (← field Wire.u8))

/-- A byte that stands for one of few things, or the mark of its absence. -/
def optionalChoice {α : Type} (what : String) (ofTag? : UInt8 → Option α) :
    BlockReader (Option α) := do
  match ← field (Wire.optional Wire.u8) with
  | none => return none
  | some byte => return some (← ofExcept (named what ofTag? byte))

/-- As many fields in a row as asked for. -/
def many {α : Type} (r : BlockReader α) : Nat → BlockReader (List α)
  | 0 => return []
  | n + 1 => do
    let a ← r
    let rest ← many r n
    return a :: rest

end BlockReader

end Patchbay
