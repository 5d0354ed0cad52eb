import Patchbay.Value.Payload
import Patchbay.Bytes.Buffer
import Patchbay.Text.Base64
import Patchbay.Formula.Basic
import Patchbay.Graph.Scene
import Patchbay.Graph.Summary
import Patchbay.Player.Program
import Patchbay.Main
import Patchbay.Proofs.Ports
import Patchbay.Proofs.Turns
import Patchbay.Proofs.Edges
import Patchbay.Proofs.Nodes
import Patchbay.Proofs.Reading
import Patchbay.Proofs.Runs
import Patchbay.Proofs.Wiring
import Patchbay.Proofs.Supplies
import Patchbay.Proofs.Shape
import Patchbay.Proofs.Splines
import Patchbay.Proofs.Freshness
import Patchbay.Proofs.Characters
import Patchbay.Proofs.Wires
import Patchbay.Proofs.Payloads
import Patchbay.Proofs.Canonicity
import Patchbay.Proofs.Fields
import Patchbay.Proofs.Blocks
import Patchbay.Proofs.Usage
import Patchbay.Proofs.Scenes
import Patchbay.Proofs.Reproduction
import Patchbay.Proofs.RoundTrip
import Patchbay.Proofs.Likeness
import Patchbay.Proofs.Resumption
import Patchbay.Proofs.Evolution
import Patchbay.Proofs.Formulas
import Patchbay.Proofs.Lists
import Patchbay.Proofs.Gates
import Patchbay.Proofs.Gating
import Patchbay.Proofs.ListCache
import Patchbay.Proofs.BrokenFormulas
import Patchbay.Proofs.Joins
import Patchbay.Proofs.Loading
import Patchbay.Proofs.Truncation
import Patchbay.Proofs.Leftovers
import Patchbay.Proofs.Removals
import Patchbay.Proofs.Delays
import Patchbay.Proofs.Encounters
import Patchbay.Proofs.Independence
import Patchbay.Proofs.Noninterference
import Patchbay.Proofs.Repetition
import Patchbay.Proofs.Quiescence
import Patchbay.Proofs.Forwarding
import Patchbay.Proofs.Sinks
import Patchbay.Proofs.Naming
import Patchbay.Proofs.Order
import Patchbay.Proofs.Changes
import Patchbay.Proofs.Refusals
import Patchbay.Proofs.Queue
import Patchbay.Proofs.Attachments
import Patchbay.Proofs.Deletions
import Patchbay.Proofs.Connections
import Patchbay.Proofs.Creations
import Patchbay.Proofs.Directions
import Patchbay.Proofs.Errands
import Patchbay.Proofs.Reloads
import Patchbay.Proofs.Evaluations
import Patchbay.Proofs.Layout
import Patchbay.Proofs.Operations
import Patchbay.Proofs.Faces
import Patchbay.Proofs.Elimination
import Patchbay.Proofs.Rings
import Patchbay.Proofs.Divisors
import Patchbay.Proofs.Curves
import Patchbay.Proofs.Smoothness
import Patchbay.Proofs.Widening
import Patchbay.Proofs.Loops
import Patchbay.Proofs.Reservations
import Patchbay.Proofs.Windows
import Patchbay.Proofs.Replacements
import Patchbay.Proofs.Systems
