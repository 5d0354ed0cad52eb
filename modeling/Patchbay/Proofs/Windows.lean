import Patchbay.Formula.Basic
import Patchbay.Proofs.Freshness
import Patchbay.Proofs.Removals
/-!
What a node reads while it changes its own ports.

When the turn of a node begins, the list of nodes is cut at the node, and the
position of the producer of every input is noted.  In its turn the node
replaces its inputs, holds gates and detaches sources, and nothing brings the
notes up to date.  Still each input shows what its source stands for in the
graph as it is at that moment (`Graph.Reachable.read?_amid`), and that is what
the node's own plan reads (`Graph.Wired.cell_readings_amid`).

The load-bearing part is `Turn.Keeps`: a turn attaches nothing and moves no
source from one input to another.  So a source that is still there is the one
whose producer was noted, and the identity that is compared does not differ.
The node itself stands at the cut, where its window shows nothing, but in a
wired graph no input reads from its own node.
-/

namespace Patchbay

namespace Turn

/-- Something that a node does to its inputs in its turn. -/
inductive Call where
  | resize (names : List String)
  | hold (gate : Gate)
  | detach (input : Nat)

def call (supply : Supply) (t : Turn) : Call → Turn
  | .resize names => t.resize (some names)
  | .hold gate => t.hold supply gate
  | .detach i => t.detach i

/-- A turn after a sequence of calls. -/
def calls (supply : Supply) (cs : List Call) (t : Turn) : Turn := cs.foldl (call supply) t

theorem Keeps.call {d : Directory} {t : Turn} (hd : d.Indexed) (h : Keeps d t) (supply : Supply)
    (c : Call) : Keeps d (t.call supply c) := by
  cases c with
  | resize names => exact h.resize hd (some names)
  | hold gate => exact h.hold hd supply gate
  | detach i => exact h.detach hd i

theorem Keeps.calls {d : Directory} {t : Turn} (hd : d.Indexed) (h : Keeps d t) (supply : Supply)
    (cs : List Call) : Keeps d (t.calls supply cs) := by
  unfold Turn.calls
  induction cs generalizing t with
  | nil => exact h
  | cons c cs ih => exact ih (h.call hd supply c)

end Turn

variable [Formula.Engine]

namespace Node

/-- The calls of a node in its turn: it replaces its inputs if its plan says so, and holds its
gates one after the other. -/
def calls (now : Moment) (n : Node) : List Turn.Call :=
  (n.plan now).inputs.toList.map .resize ++ (n.plan now).gates.map .hold

theorem calls_heldTurn (now : Moment) (supply : Supply) (n : Node) :
    Turn.calls supply (n.calls now) ⟨n.ports.clearDirty, []⟩ = n.heldTurn now supply := by
  have hresized : Turn.calls supply ((n.plan now).inputs.toList.map .resize)
      ⟨n.ports.clearDirty, []⟩ = n.resizedTurn now := by
    unfold resizedTurn
    cases (n.plan now).inputs <;> rfl
  rw [calls, Turn.calls, List.foldl_append]
  rw [Turn.calls] at hresized
  rw [hresized, List.foldl_map]
  rfl

/-- The node in the middle of a turn, when it has put `posts` on its outputs and its behavior is
`b`. -/
def amid (t : Turn) (posts : List Post) (b : Behavior) (n : Node) : Node :=
  { n with ports := posts.foldl Directory.post t.ports, behavior := b }

end Node

namespace Graph

/-- What an input reads through a window.  The source is the one that the input has now; the
window may be from before. -/
def Window.read? (w : Window) (d : Directory) (i : Nat) : Option Cell :=
  (d.source? i).bind fun a => (w.cell? i a).filter fun c => !c.value.isEmpty

/-- What an input of a node shows: the cell of the node that its source names, among all nodes;
an empty one does not count. -/
def shown? (g : Graph) (c : NodeId) (i : Nat) : Option Cell :=
  (g.source? c i).bind fun a => (g.cellOf? a).filter fun c => !c.value.isEmpty

/-- The graph in the middle of a turn of one of its nodes. -/
def amid (g : Graph) (id : NodeId) (t : Turn) (posts : List Post) (b : Behavior) : Graph :=
  { g.modifyNode id (Node.amid t posts b) with edges := dropEdges id t.dropped g.edges }

/-! ## The graph in the middle of a turn -/

section Amid
variable {g : Graph} {id : NodeId} {t : Turn} {posts : List Post} {b : Behavior}

theorem node?_amid (x : NodeId) :
    (g.amid id t posts b).node? x =
      if x = id then (g.node? x).map (Node.amid t posts b) else g.node? x :=
  node?_modifyNode (f := Node.amid t posts b) (fun _ hid => hid) g x

theorem source?_amid {n : Node} (hn : g.node? id = some n) (i : Nat) :
    (g.amid id t posts b).source? id i = t.ports.source? i := by
  rw [source?, node?_amid, if_pos rfl, hn]
  exact Directory.source?_congr (Directory.inputs_posts posts t.ports) i

/-- The cells of the other nodes are as they are when the turn begins. -/
theorem cellOf?_amid {a : Address} (ha : a.producer ≠ id) :
    (g.amid id t posts b).cellOf? a = g.cellOf? a := by
  rw [cellOf?, node?_amid, if_neg ha]
  rfl

end Amid

/-! ## Reading through the window -/

/-- With identities that differ, a node stands at the first position with its identity. -/
theorem findIdx_id {nodes : List Node} (hd : (nodes.map Node.id).Nodup) {k : Nat} {n : Node}
    (hn : nodes[k]? = some n) : nodes.findIdx (·.id == n.id) = k := by
  obtain ⟨hlt, rfl⟩ := List.getElem?_eq_some_iff.mp hn
  have hapart := List.pairwise_iff_getElem.mp (List.pairwise_map.mp hd)
  refine (List.findIdx_eq hlt).mpr ⟨beq_self_eq_true _, fun j hj => ?_⟩
  exact beq_false_of_ne (hapart j k (Nat.lt_trans hj hlt) hlt hj)

section Position
variable {g : Graph} (h : g.Wired) {k : Nat} {n : Node} (hn : g.nodes[k]? = some n)
include h hn

theorem Wired.node?_of_position : g.node? n.id = some n :=
  nodeIn?_of_mem h.nodup (List.mem_of_getElem? hn)

/-- An input with a source that it had when the window was opened reads the cell that the source
shows. -/
theorem Wired.read?_around {d : Directory} {i : Nat}
    (hd : ∀ a, d.source? i = some a → n.ports.source? i = some a) :
    (Window.around g.nodes k n.ports.inputs).read? d i =
      (d.source? i).bind fun a => (g.cellOf? a).filter fun c => !c.value.isEmpty := by
  refine Option.bind_congr fun a ha => ?_
  have hsource : g.source? n.id i = some a :=
    source?_eq_some.mpr ⟨n, h.node?_of_position hn, hd a ha⟩
  rw [Window.cell?_around (findIdx_id h.nodup hn).symm (hd a ha),
    cellAt?_of_ne (h.apart n.id i a hsource)]

variable (supply : Supply) (cs : List Turn.Call) (posts : List Post) (b : Behavior) (i : Nat)

/-- A source that is left after some calls has been there all the time. -/
theorem Wired.source?_calls {a : Address}
    (ha : (Turn.calls supply cs ⟨n.ports.clearDirty, []⟩).ports.source? i = some a) :
    n.ports.source? i = some a := by
  have hports : n.ports.clearDirty.Indexed := h.ports_indexed (h.node?_of_position hn)
  have hkeeps := (Turn.keeps_start n.ports.clearDirty).calls hports supply cs
  exact ((hkeeps.source_iff i a).mp ha).1

/-- In the middle of a turn an input shows the cell that its source has shown from the start. -/
theorem Wired.shown?_amid :
    let t := Turn.calls supply cs ⟨n.ports.clearDirty, []⟩
    (g.amid n.id t posts b).shown? n.id i =
      (t.ports.source? i).bind fun a => (g.cellOf? a).filter fun c => !c.value.isEmpty := by
  intro t
  have hnode := h.node?_of_position hn
  rw [shown?, source?_amid hnode]
  refine Option.bind_congr fun a ha => ?_
  have hattached : g.source? n.id i = some a :=
    source?_eq_some.mpr ⟨n, hnode, h.source?_calls hn supply cs i ha⟩
  rw [cellOf?_amid (h.apart n.id i a hattached)]

/-- A source in the middle of a turn names an output that is there. -/
theorem Wired.exists_cellOf?_amid {a : Address} :
    let t := Turn.calls supply cs ⟨n.ports.clearDirty, []⟩
    (g.amid n.id t posts b).source? n.id i = some a →
      ∃ c, (g.amid n.id t posts b).cellOf? a = some c := by
  intro t ha
  have hnode := h.node?_of_position hn
  rw [source?_amid hnode] at ha
  have hattached : g.source? n.id i = some a :=
    source?_eq_some.mpr ⟨n, hnode, h.source?_calls hn supply cs i ha⟩
  rw [cellOf?_amid (h.apart n.id i a hattached)]
  exact (h.producer n.id i a hattached).exists_cellOf?

/-- What was taken down when the turn began is what the inputs show at any moment of it. -/
theorem Wired.supply_at?_amid :
    let t := Turn.calls (supplyOf g.nodes n) cs ⟨n.ports.clearDirty, []⟩
    Supply.at? (supplyOf g.nodes n) t.ports i = (g.amid n.id t posts b).shown? n.id i := by
  intro t
  rw [h.shown?_amid hn]
  exact h.supply_at? (h.node?_of_position hn) fun a => h.source?_calls hn _ cs i

/-- What a node reads in its turn is what its inputs show at the moment when it has held its
gates. -/
theorem Wired.cell_readings_amid (now : Moment) (name : String) :
    let held := n.heldTurn now (supplyOf g.nodes n)
    (n.readings now (supplyOf g.nodes n)).cell name =
      (held.ports.inputIndex? name).bind ((g.amid n.id held posts b).shown? n.id) := by
  intro held
  refine Option.bind_congr fun i _ => ?_
  show Supply.at? (supplyOf g.nodes n) held.ports i = (g.amid n.id held posts b).shown? n.id i
  have hcalls : Turn.calls (supplyOf g.nodes n) (n.calls now) ⟨n.ports.clearDirty, []⟩ = held :=
    n.calls_heldTurn now (supplyOf g.nodes n)
  rw [← hcalls]
  exact h.supply_at?_amid hn (n.calls now) posts b i

end Position

/-- At the position of every node in the order of evaluation, whatever calls the node has made in
its turn, whatever it has put on its outputs and whatever its behavior is by then: what an input
reads through the window, which was opened when the turn began, and what it reads of what was
taken down then, is what the source that it has now names among all nodes of the graph.  Nothing
is read exactly when there is no source or the cell is empty. -/
theorem Reachable.read?_amid {g : Graph} (h : g.Reachable) (poll : Poll) (f : Clock → Clock)
    (k : Nat) {n : Node} (hn : (g.inFrame poll f (g.ids.take k)).nodes[k]? = some n)
    (cs : List Turn.Call) (posts : List Post) (b : Behavior) (i : Nat) :
    let start := g.inFrame poll f (g.ids.take k)
    let t := Turn.calls (supplyOf start.nodes n) cs ⟨n.ports.clearDirty, []⟩
    let amid := start.amid n.id t posts b
    (Window.around start.nodes k n.ports.inputs).read? t.ports i = amid.shown? n.id i ∧
      Supply.at? (supplyOf start.nodes n) t.ports i = amid.shown? n.id i ∧
      (amid.shown? n.id i = none ↔ ∀ a, amid.source? n.id i = some a →
        ∃ c, amid.cellOf? a = some c ∧ c.value.isEmpty = true) := by
  intro start t amid
  have hw : start.Wired := ((h.wired.withClock f).turns _ _).1
  refine ⟨?_, hw.supply_at?_amid hn cs posts b i, ?_⟩
  · have hkept := fun a => hw.source?_calls hn (supplyOf start.nodes n) cs i (a := a)
    exact (hw.read?_around hn hkept).trans (hw.shown?_amid hn _ cs posts b i).symm
  · rw [shown?, Option.bind_eq_none_iff]
    refine forall₂_congr fun a ha => ?_
    obtain ⟨c, hc⟩ := hw.exists_cellOf?_amid hn _ cs posts b i ha
    rw [hc, Option.filter_eq_none_iff]
    simp

end Graph

end Patchbay

/-! ## With the standard engine -/

namespace Patchbay.Graph

/-- A sum of a constant, which has its turn before the sum, and of another sum, which has its turn
behind it. -/
def crossedSums : Graph :=
  run [.create .value, .create .math, .create .math, .connect ⟨0⟩ 0 ⟨2⟩ 0, .connect ⟨0⟩ 0 ⟨6⟩ 0,
    .connect ⟨6⟩ 0 ⟨2⟩ 1, .step Poll.none 0] (empty "crossed sums")

/-- After the first input has lost its source and a third one has come, the second one still reads
the constant from the sum behind the node. -/
theorem read?_amid_crossedSums :
    let start := crossedSums.inFrame Poll.none (·.step 0) (crossedSums.ids.take 1)
    let cs : List Turn.Call := [.detach 0, .resize ["A", "B", "C"]]
    ∃ n, start.nodes[1]? = some n ∧
      let ports := (Turn.calls (supplyOf start.nodes n) cs ⟨n.ports.clearDirty, []⟩).ports
      (Window.around start.nodes 1 n.ports.inputs).read? ports 1 = some ⟨.float .one, true⟩ ∧
        Supply.at? (supplyOf start.nodes n) ports 1 = some ⟨.float .one, true⟩ := by
  intro start cs
  have hreachable : crossedSums.Reachable := ⟨_, _, rfl⟩
  obtain ⟨n, hn, hshown⟩ := Option.bind_eq_some_iff.mp (show
    (start.nodes[1]?.bind fun n =>
      let t := Turn.calls (supplyOf start.nodes n) cs ⟨n.ports.clearDirty, []⟩
      (start.amid n.id t [] n.behavior).shown? n.id 1) = some ⟨.float .one, true⟩ by decide +kernel)
  obtain ⟨hwindow, hsupply, -⟩ :=
    hreachable.read?_amid Poll.none (·.step 0) 1 hn cs [] n.behavior 1
  exact ⟨n, hn, hwindow.trans hshown, hsupply.trans hshown⟩

end Patchbay.Graph
