import Patchbay.Frame.Plan
/-!
Passing a value on.

A display mirrors a value that is no list and shows where it comes from; a
delay mirrors a number or a vector and runs before all other nodes, so what
it reads is what was published in the frame before.  Both copy a value when
it was written since its producer's last turn, or once after they have been
connected.
-/

namespace Patchbay

/-- The value that `input` passes on, if any, and the mark of a new connection afterwards.
A value that was just written leaves the mark alone. -/
def relayed (input : String) (refresh : Bool) (r : Readings) : Bool × List Post :=
  match r.cell input with
  | none => (refresh, [])
  | some c =>
    if c.dirty then (refresh, [.publish 0 c.value])
    else if refresh then (false, [.publish 0 c.value])
    else (false, [])

def relayInput : String := "in"

/-! ## Displays -/

structure Display where
  /-- The node and the output that feed the display. -/
  producer : Option String
  refresh : Bool
deriving DecidableEq, Inhabited, Repr

namespace Display

def initial : Display := ⟨none, false⟩

def plan (d : Display) : Plan Display where
  inputs := none
  gates := [⟨relayInput, .nonList⟩]
  finish r := let (refresh, posts) := relayed relayInput d.refresh r; ({ d with refresh }, posts)

def connected (_ : Display) (p : ProducerInfo) : Display := ⟨some (p.name ++ "." ++ p.output), true⟩

def disconnected (d : Display) : Display := { d with producer := none }

def rows (d : Display) (ports : Directory) : List Row :=
  (d.producer.map fun p => ⟨"from", p⟩).toList ++
    match ports.firstValue? with
    | some v => [⟨"kind", v.kind.name⟩, ⟨"value", v.text⟩]
    | none => []

end Display

/-! ## Delays -/

structure Delay where
  refresh : Bool
deriving DecidableEq, Inhabited, Repr

namespace Delay

def initial : Delay := ⟨false⟩

def plan (d : Delay) : Plan Delay where
  inputs := none
  gates := [⟨relayInput, .numeric⟩]
  finish r := let (refresh, posts) := relayed relayInput d.refresh r; (⟨refresh⟩, posts)

def connected : Delay := ⟨true⟩

def rows (ports : Directory) : List Row :=
  (ports.firstValue?.map fun v => ⟨"previous", v.text⟩).toList

end Delay

end Patchbay
